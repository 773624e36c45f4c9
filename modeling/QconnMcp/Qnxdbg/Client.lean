import QconnMcp.Kit.Numeral
import QconnMcp.Kit.Triple
import QconnMcp.Qnxdbg.Protocol

/-!
# The pdebug client

`Client` of `internal/qnxdbg/client.go`: one connection to a debug agent, the
message id of the last request, and the program output collected from the text
channel. As for the qconn client, the methods are state-passing programs over
the client, against any `Peer` at the other end.

A request is answered on the debug channel. `transactSub` takes the next frame
there for the reply, whatever its message id and its code.
-/

namespace QconnMcp.Qnxdbg

open Kit

/-! ## Messages -/

def chanDebug : UInt8 := 0x01
def chanText : UInt8 := 0x02

def cmdConnect : UInt8 := 0
def cmdSelect : UInt8 := 2
def cmdLoad : UInt8 := 4
def cmdAttach : UInt8 := 5
def cmdDetach : UInt8 := 6
def cmdKill : UInt8 := 7
def cmdStop : UInt8 := 8
def cmdMemrd : UInt8 := 9
def cmdMemwr : UInt8 := 10
def cmdRegrd : UInt8 := 11
def cmdRegwr : UInt8 := 12
def cmdRun : UInt8 := 13
def cmdBrk : UInt8 := 14
def cmdPidlist : UInt8 := 19
def cmdEnv : UInt8 := 21
def cmdProtover : UInt8 := 23
def cmdHandlesig : UInt8 := 24
def cmdCPUInfo : UInt8 := 25
def cmdTIDNames : UInt8 := 26
def cmdProcMap : UInt8 := 27

def respErr : UInt8 := 0x20
def respNotify : UInt8 := 0x40

/-- The payload of a request with message id `mid`: a DSMSG header and the
body. -/
def message (cmd subcmd mid : UInt8) (body : Bytes) : Bytes :=
  [cmd, subcmd, mid, chanDebug] ++ body

/-- `respCode`. -/
def respCode (p : Bytes) : UInt8 := p.headD 0

/-- `respBody`. -/
def respBody (p : Bytes) : Bytes := p.drop 4

def le16 (v : Nat) : Bytes := leBytes 2 v
def le32 (v : Nat) : Bytes := leBytes 4 v
def le64 (v : UInt64) : Bytes := leBytes 8 v.toNat

/-- The conversion `uint32(v)` of an `int`. -/
def uint32 (v : Int) : Nat := (v % 2 ^ 32).toNat

/-- The conversion `uint16(v)` of an `int`. -/
def uint16 (v : Int) : Nat := (v % 2 ^ 16).toNat

/-! ## State -/

/-- The error number of an error reply, as `errnoString` tells them apart. -/
inductive Errno where
  /-- `target error` -/
  | missing
  | enoent
  | enoexec
  | eacces
  | einval
  /-- `target errno %d` -/
  | other (n : Nat)
  deriving DecidableEq, Repr

inductive Err where
  | read (e : ReadErr)
  | write (e : IoErr)
  /-- `qnxdbg handshake (reset): %w` -/
  | handshakeReset (e : ReadErr)
  /-- `qnxdbg handshake (connect): %w` -/
  | handshakeConnect (e : ReadErr)
  /-- `qnxdbg handshake (protover): %w` -/
  | handshakeProtover (e : ReadErr)
  /-- `attach pid %d: target returned error` -/
  | attach (pid : Int)
  /-- `detach pid %d: target returned error` -/
  | detach (pid : Int)
  /-- `kill pid %d: target error` -/
  | kill (pid : Int)
  /-- `select pid %d tid %d: target error` -/
  | select (pid tid : Int)
  /-- `read memory @%#x: target error` -/
  | readMemory (addr : UInt64)
  /-- `write memory @%#x: target error` -/
  | writeMemory (addr : UInt64)
  /-- `read registers: target error` -/
  | readRegisters
  /-- `write registers: target error` -/
  | writeRegisters
  /-- `set breakpoint @%#x: target error` -/
  | setBreakpoint (addr : UInt64)
  /-- `env sub %d: %s` -/
  | env (sub : UInt8) (errno : Errno)
  /-- `load %q: %s` -/
  | load (path : Bytes) (errno : Errno)
  /-- `mapinfo pid %d: %s` -/
  | mapinfo (pid : Int) (errno : Errno)
  /-- `handlesig: %s` -/
  | handlesig (errno : Errno)
  /-- `cpuinfo: target error` -/
  | cpuinfo
  /-- `tidnames: target error` -/
  | tidnames
  /-- `procinfo pid %d: target error` -/
  | procinfo (pid : Int)
  /-- `pidlist: target error` -/
  | pidlist
  deriving DecidableEq, Repr

/-- The client beside the other end of its connection: the unread bytes, what a
read reports behind them, and the fields of the source. `replies` is a ghost:
what `transactSub` has returned, each with the message id it had sent. -/
structure Client (σ : Type) where
  inp : Bytes
  fin : IoErr
  peer : σ
  mid : UInt8
  output : Bytes
  replies : List (UInt8 × Bytes)
  deriving DecidableEq

abbrev Act (σ α : Type) := StateM (Client σ) α

namespace Client

variable {σ : Type}

/-! ## Reading -/

def readFrame : Act σ (Except ReadErr Bytes) := fun c =>
  ((Qnxdbg.readFrame c.fin c.inp).1, { c with inp := (Qnxdbg.readFrame c.fin c.inp).2 })

def addOutput (b : Bytes) : Act σ Unit := fun c => ((), { c with output := c.output ++ b })

/-- The loop of `readResponse`, for at most `fuel` frames. -/
def readResponseLoop : Nat → Act σ (Except ReadErr Bytes)
  | 0 => fun c => (.error (.io c.fin), c)
  | fuel + 1 => do
      match ← readFrame with
      | .error e => pure (.error e)
      | .ok p =>
          if p.length < 4 then readResponseLoop fuel
          else if p[3]? = some chanText then
            addOutput (p.drop 4)
            readResponseLoop fuel
          else pure (.ok p)

/-- `readResponse`: the next frame that is no channel control and no program
output. There are fewer frames than bytes to read. -/
def readResponse : Act σ (Except ReadErr Bytes) := fun c =>
  (readResponseLoop (c.inp.length + 1)).run c

/-! ## Requests -/

/-- `header`. -/
def header (cmd subcmd : UInt8) (body : Bytes) : Act σ Bytes := fun c =>
  (message cmd subcmd c.mid body, c)

def setMid (mid : UInt8) : Act σ Unit := fun c => ((), { c with mid := mid })

/-- `c.mid++`, which wraps around at 256. -/
def nextMid : Act σ Unit := fun c => ((), { c with mid := c.mid + 1 })

def noteReply (p : Bytes) : Act σ Unit := fun c =>
  ((), { c with replies := c.replies ++ [(c.mid, p)] })

variable (P : Peer σ)

/-- `writeFrame`. What the peer sends back becomes readable at once. -/
def writeFrame (payload : Bytes) : Act σ (Option IoErr) := fun c =>
  match P.recv c.peer (frame payload) with
  | none => (some .closed, c)
  | some (s, out) => (none, { c with peer := s, inp := c.inp ++ out, fin := P.fin s })

/-- `transactSub`. -/
def transactSub (cmd subcmd : UInt8) (body : Bytes) : Act σ (Except Err Bytes) := do
  nextMid
  match ← writeFrame P (← header cmd subcmd body) with
  | some e => pure (.error (.write e))
  | none =>
      match ← readResponse with
      | .error e => pure (.error (.read e))
      | .ok p =>
          noteReply p
          pure (.ok p)

/-- `transact`. -/
def transact (cmd : UInt8) (body : Bytes) : Act σ (Except Err Bytes) := transactSub P cmd 0 body

/-- `handshake`: echo the reset frame, then Connect and Protover. -/
def handshake : Act σ (Option Err) := do
  match ← readFrame with
  | .error e => pure (some (.handshakeReset e))
  | .ok reset =>
      match ← writeFrame P reset with
      | some e => pure (some (.write e))
      | none =>
          setMid 0
          match ← writeFrame P (← header cmdConnect 0 [0x00, 0x07, 0x00, 0x00]) with
          | some e => pure (some (.write e))
          | none =>
              match ← readResponse with
              | .error e => pure (some (.handshakeConnect e))
              | .ok _ =>
                  setMid 1
                  match ← writeFrame P (← header cmdProtover 0 [0x00, 0x07]) with
                  | some e => pure (some (.write e))
                  | none =>
                      match ← readResponse with
                      | .error e => pure (some (.handshakeProtover e))
                      | .ok _ => pure none

/-- `newClient` on a connection with `inp` to read: the client after its
handshake. -/
def newClient (s : σ) (inp : Bytes) : Option Err × Client σ :=
  (handshake P).run ⟨inp, P.fin s, s, 0, [], []⟩

end Client

end QconnMcp.Qnxdbg
