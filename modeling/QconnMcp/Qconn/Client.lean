import Mathlib.Data.List.AList
import QconnMcp.Kit.Triple
import QconnMcp.Qconn.Framing

/-!
# The qconn client

`Client` of `internal/qconn/client.go` with the `cntl` service of `cntl.go`: one
framed connection, the service it is in, and the request/response exchanges on
it. The methods are state-passing programs over the client, against any `Peer`
at the other end. The mutex makes each of them one step, so it does not appear.

A Go error is kept as data: the operation it names and the response it quotes,
with the format of its text at the constructor. `panicked` stands for a run-time
panic, after which the deferred calls still run.
-/

namespace QconnMcp.Qconn

open Kit

/-! ## State -/

/-- A qconn sub-service. -/
inductive Service where
  | broker
  | launcher
  | file
  | cntl
  | sinfo
  deriving DecidableEq, Repr

def Service.name : Service → Bytes
  | .broker => ascii "broker"
  | .launcher => ascii "launcher"
  | .file => ascii "file"
  | .cntl => ascii "cntl"
  | .sinfo => ascii "sinfo"

inductive Err where
  /-- A read or write on the connection failed. -/
  | io (e : IoErr)
  /-- `qconn %s: unexpected response %q` -/
  | proto (op got : Bytes)
  /-- `qconn open %q: %s` -/
  | openFailed (path got : Bytes)
  /-- `qconn read: %s` -/
  | readFailed (msg : Bytes)
  /-- `qconn delete %q: %s` -/
  | deleteFailed (path got : Bytes)
  /-- `qconn dial %s: %w` -/
  | dialFailed
  /-- `qconn handshake: %w` -/
  | handshake (e : IoErr)
  | panicked
  deriving DecidableEq, Repr

/-- `protoErr`. -/
def protoErr (op got : Bytes) : Err := .proto op (trimSpace got)

/-- The client beside the other end of its connection. `sent` is a ghost: the
command lines written so far, each with the service it was meant for. -/
structure Client (σ : Type) where
  fc : FrameConn
  peer : σ
  current : Service
  infoMap : Option (AList fun _ : Bytes => Bytes)
  sent : List (Service × Bytes)

abbrev Act (σ α : Type) := StateM (Client σ) α

namespace Client

variable {σ : Type}

/-! ## Reads and writes on the connection -/

/-- Run a read of the framed connection. -/
def onConn {α : Type} (rd : FrameConn → α × FrameConn) : Act σ α := fun c =>
  ((rd c.fc).1, { c with fc := (rd c.fc).2 })

def readUntilPrompt : Act σ (Bytes × Option IoErr) := onConn FrameConn.readUntilPrompt

def readResponseLine : Act σ (Bytes × Option IoErr) := onConn FrameConn.readResponseLine

def readN (n : Nat) : Act σ (Bytes × Option IoErr) := onConn (FrameConn.readN n)

/-- `handshake`: consume the greeting up to the first prompt. -/
def handshake : Act σ (Option Err) := do
  match ← readUntilPrompt with
  | (_, some e) => pure (some (.handshake e))
  | (_, none) => pure none

/-- `Dial` on an established connection: the client after its handshake. -/
def dial (s : σ) (fc : FrameConn) : Option Err × Client σ :=
  handshake.run ⟨fc, s, .broker, none, []⟩

/-- The field `current`. -/
def service : Act σ Service := fun c => (c.current, c)

def setService (s : Service) : Act σ Unit := fun c => ((), { c with current := s })

/-- The field `info`, the answer kept from an earlier call. -/
def cachedInfo : Act σ (Option (AList fun _ : Bytes => Bytes)) := fun c => (c.infoMap, c)

def cacheInfo (m : AList fun _ : Bytes => Bytes) : Act σ Unit := fun c =>
  ((), { c with infoMap := some m })

variable (P : Peer σ)

/-- `writeRaw`. What the peer sends back becomes readable at once. -/
def writeRaw (b : Bytes) : Act σ (Option IoErr) := fun c =>
  match P.recv c.peer b with
  | none => (some .closed, c)
  | some (s, out) =>
      (none, { c with peer := s, fc := { c.fc with inp := c.fc.inp ++ out, fin := P.fin s } })

/-- `writeLine`: a command terminated by LF. -/
def writeLine (cmd : Bytes) : Act σ (Option IoErr) := fun c =>
  match (writeRaw P (cmd ++ [10])).run c with
  | (some e, c) => (some e, c)
  | (none, c) => (none, { c with sent := c.sent ++ [(c.current, cmd)] })

/-- `raw`: one command and its response block. -/
def raw (cmd : Bytes) : Act σ (Bytes × Option Err) := do
  match ← writeLine P cmd with
  | some e => pure ([], some (.io e))
  | none =>
      let r ← readUntilPrompt
      pure (r.1, r.2.map .io)

/-! ## Services -/

/-- `leaveService`: back to the broker, with the leave command of the service. -/
def leaveService : Act σ (Option Err) := do
  let cur ← service
  match ← raw P (if cur = .file then ascii "q" else ascii "done") with
  | (_, some e) => pure (some e)
  | (_, none) =>
      setService .broker
      pure none

/-- `ensure`: switch to a service if not already there. -/
def ensure (s : Service) : Act σ (Option Err) := do
  let cur ← service
  if cur = s then pure none
  else
    match ← (if cur = .broker then pure none else leaveService P) with
    | some e => pure (some e)
    | none =>
        if s = .broker then pure none
        else
          match ← raw P (ascii "service " ++ s.name) with
          | (_, some e) => pure (some e)
          | (resp, none) =>
              if (ascii "OK").isPrefixOf (firstLine resp) then
                setService s
                pure none
              else pure (some (protoErr (ascii "service " ++ s.name) resp))

/-! ## Broker commands -/

/-- The separators between a service name and its version. -/
def isVersionSep (b : UInt8) : Bool := b == 61 || b == 47 || b == 58

/-- One token of the versions line. -/
def versionToken (tok : Bytes) : Bytes × Int :=
  let trimmed := fun b => isVersionSep b || b == 32
  if tok.any isVersionSep then
    let ver := (tok.dropWhile (!isVersionSep ·)).tail
    (tok.takeWhile (!isVersionSep ·), (parseInt 10 (trimRight trimmed (trimLeft trimmed ver))).1)
  else (tok, 0)

def parseVersions (resp : Bytes) : AList fun _ : Bytes => Int :=
  (fields (firstLine resp)).foldl
    (fun out tok =>
      if tok = ascii "versions:" then out
      else
        let t := versionToken tok
        if t.1 = [] then out else out.insert t.1 t.2)
    ∅

/-- `Versions`. -/
def versions : Act σ ((AList fun _ : Bytes => Int) × Option Err) := do
  match ← ensure P .broker with
  | some e => pure (∅, some e)
  | none =>
      match ← raw P (ascii "versions ?") with
      | (_, some e) => pure (∅, some e)
      | (resp, none) => pure (parseVersions resp, none)

/-- The `KEY=VALUE` fields of the info block. -/
def parseInfo (resp : Bytes) : AList fun _ : Bytes => Bytes :=
  (fields resp).foldl
    (fun m field =>
      match cut 61 field with
      | some (k, v) => m.insert k v
      | none => m)
    ∅

/-- `Info`, answered from the cache after the first success. -/
def info : Act σ ((AList fun _ : Bytes => Bytes) × Option Err) := do
  match ← cachedInfo with
  | some m => pure (m, none)
  | none =>
      match ← ensure P .broker with
      | some e => pure (∅, some e)
      | none =>
          match ← raw P (ascii "info") with
          | (_, some e) => pure (∅, some e)
          | (resp, none) =>
              cacheInfo (parseInfo resp)
              pure (parseInfo resp, none)

/-! ## Signals -/

/-- `strings.EqualFold(s, "ok")`. The Kelvin sign folds to `k`. -/
def foldsToOk (s : Bytes) : Bool :=
  match s with
  | o :: k => (o == 111 || o == 79) && (k == [107] || k == [75] || k == [0xE2, 0x84, 0xAA])
  | [] => false

/-- `Signal`: `kill <pid> <sig>` in the cntl service. -/
def signal (pid sig : Int) : Act σ (Option Err) := do
  match ← ensure P .cntl with
  | some e => pure (some e)
  | none =>
      match ← raw P (ascii "kill " ++ fmtInt 10 pid ++ ascii " " ++ fmtInt 10 sig) with
      | (_, some e) => pure (some e)
      | (resp, none) =>
          if foldsToOk (trimSpace (firstLine resp)) then pure none
          else pure (some (protoErr (ascii "kill") resp))

end Client

end QconnMcp.Qconn
