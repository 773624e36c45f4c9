import QconnMcp.Qconn.Client

/-!
# The file service

`internal/qconn/file.go`: opening, reading, writing and closing files on the
target, with the chunking loops above them, and the operations a caller runs
one after another on one connection (`Op`, `runOps`). Buffers are lists, so an
announced count is never too large to allocate.

The source's loop in `ReadFile` ends only when the target says so; its model
takes a number of rounds and answers `none` when they do not suffice. The other
loops are bounded by their data: every round moves at least one byte.
-/

namespace QconnMcp.Qconn

open Kit

/-! ## Constants and grammars -/

def oRdonly : Int := 0x0000
def oWronly : Int := 0x0001
def oRdwr : Int := 0x0002
def oCreat : Int := 0x0100
def oTrunc : Int := 0x0200
def sIfdir : Int := 0x4000
def modeRWAll : Int := 0o666
def modeDir : Int := 0o777
def maxReadChunk : Nat := 2 * 1024
def maxWriteChunk : Nat := 16 * 1024

/-- `|` on Go's 64-bit `int`. -/
def orInt (a b : Int) : Int := (BitVec.ofInt 64 a ||| BitVec.ofInt 64 b).toInt

def isHexOrDash (b : UInt8) : Bool := isHexDigit b || b == 45

/-- `^o:([0-9a-fA-F-]+):([0-9a-fA-F-]+):([0-9a-fA-F-]+):"(.+)"`. -/
def openRe : Pattern :=
  [lit "o:", group (.run 1 isHexOrDash), lit ":", group (.run 1 isHexOrDash), lit ":",
    group (.run 1 isHexOrDash), lit ":\"", group (.run 1 (· != 10)), lit "\""]

/-- `^o\s*$`. -/
def okRe : Pattern := [lit "o", skip (.run 0 isReSpace), skip .done]

structure FileHandle where
  fd : Int
  mode : Int
  size : Int
  path : Bytes
  deriving DecidableEq, Repr

/-! ## Command lines -/

def openCmd (path : Bytes) (flags mode : Int) : Bytes :=
  ascii "o:\"" ++ path ++ ascii "\":" ++ fmtInt 16 flags ++ ascii ":" ++ fmtInt 16 mode

def closeCmd (fd : Int) : Bytes := ascii "c:" ++ fmtInt 16 fd

def readCmd (fd off n : Int) : Bytes :=
  ascii "r:" ++ fmtInt 16 fd ++ ascii ":" ++ fmtInt 16 off ++ ascii ":" ++ fmtInt 16 n

def writeCmd (fd off : Int) (n : Nat) : Bytes :=
  ascii "w:" ++ fmtInt 16 fd ++ ascii ":" ++ fmtInt 16 off ++ ascii ":" ++ fmtInt 16 n

def deleteCmd (path : Bytes) : Bytes := ascii "d:\"" ++ path ++ ascii "\":1"

def chmodCmd (fd mode : Int) : Bytes := ascii "a:" ++ fmtInt 16 fd ++ ascii ":" ++ fmtInt 16 mode

/-- The handle an answer to an open command carries. -/
def parseOpen (line : Bytes) : Option FileHandle :=
  match openRe.exec line with
  | some ([fd, mode, size, path], _) =>
      some ⟨(parseInt 16 fd).1, (parseInt 16 mode).1, (parseInt 16 size).1, path⟩
  | _ => none

def isOk (resp : Bytes) : Bool := (okRe.exec (firstLine resp)).isSome

namespace Client

variable {σ : Type} (P : Peer σ)

/-! ## Descriptors -/

/-- `openFile`. -/
def openFile (path : Bytes) (flags mode : Int) : Act σ (Except Err FileHandle) := do
  match ← raw P (openCmd path flags mode) with
  | (_, some e) => pure (.error e)
  | (resp, none) =>
      match parseOpen (firstLine resp) with
      | none => pure (.error (.openFailed path (trimSpace (firstLine resp))))
      | some h => pure (.ok h)

/-- `closeFile`. -/
def closeFile (fd : Int) : Act σ (Option Err) := do
  match ← raw P (closeCmd fd) with
  | (_, some e) => pure (some e)
  | (resp, none) => pure (if isOk resp then none else some (protoErr (ascii "close") resp))

/-- The count of a status line, up to its next colon. -/
def statusCount (line : Bytes) : Int × Option NumErr :=
  parseInt 16 (before 58 (trimLead (ascii "o:") line))

/-- The end of `readAt`: the payload the status line announced and the prompt. -/
def readPayload (numread : Int) : Act σ (Bytes × Option Err) := do
  match ← (if 0 < numread then readN numread.toNat else pure ([], none)) with
  | (_, some e) => pure ([], some (.io e))
  | (data, none) =>
      let r ← readUntilPrompt
      pure (data, r.2.map .io)

/-- `readAt` from its status line on. -/
def readStatus (line : Bytes) : Act σ (Bytes × Option Err) := do
  if (ascii "e:").isPrefixOf line then
    -- the prompt is consumed to resynchronise
    let _ ← readUntilPrompt
    pure ([], some (.readFailed (trimSpace (line.drop 2))))
  else if (ascii "o:").isPrefixOf line then
    match statusCount line with
    | (_, some _) => pure ([], some (protoErr (ascii "read") line))
    | (numread, none) => readPayload numread
  else
    let _ ← readUntilPrompt
    pure ([], some (protoErr (ascii "read") line))

/-- A read request asks for at most `maxReadChunk` bytes. -/
def clipRead (n : Int) : Int := if (maxReadChunk : Int) < n then (maxReadChunk : Int) else n

/-- `readAt`: a status line `o:<numread>:...`, that many raw bytes, the prompt. -/
def readAt (fd off n : Int) : Act σ (Bytes × Option Err) := do
  match ← writeLine P (readCmd fd off (clipRead n)) with
  | some e => pure ([], some (.io e))
  | none =>
      match ← readResponseLine with
      | (_, some e) => pure ([], some (.io e))
      | (line, none) => readStatus line

/-- `writeAt`: the command line, the raw payload, a status line
`o:<numwritten>:...`, the prompt. A status line of any other kind returns
before the prompt is read. -/
def writeAt (fd off : Int) (data : Bytes) : Act σ (Int × Option Err) := do
  match ← writeLine P (writeCmd fd off data.length) with
  | some e => pure (0, some (.io e))
  | none =>
      match ← writeRaw P data with
      | some e => pure (0, some (.io e))
      | none =>
          match ← readResponseLine with
          | (_, some e) => pure (0, some (.io e))
          | (line, none) =>
              if (ascii "o:").isPrefixOf line then
                let r ← readUntilPrompt
                pure ((statusCount line).1, r.2.map .io)
              else pure (0, some (protoErr (ascii "write") line))

/-! ## The chunking loops -/

/-- The loop of `ReadFile`; `none` when `fuel` rounds do not end it. -/
def readLoop (h : FileHandle) : Nat → Bytes → Int → Act σ (Option (Bytes × Option Err))
  | 0, _, _ => pure none
  | fuel + 1, out, off => do
      match ← readAt P h.fd off maxReadChunk with
      | (_, some e) => pure (some (out, some e))
      | (chunk, none) =>
          if chunk = [] then pure (some (out, none))
          else
            let off := wrap64 (off + chunk.length)
            if 0 < h.size ∧ h.size ≤ off then pure (some (out ++ chunk, none))
            else readLoop h fuel (out ++ chunk) off

/-- The loop of `ReadFileRange`. -/
def rangeLoop (fd off n : Int) : Nat → Bytes → Act σ (Bytes × Option Err)
  | 0, out => pure (out, none)
  | fuel + 1, out => do
      if (out.length : Int) < n then
        match ← readAt P fd (wrap64 (off + out.length)) (clipRead (n - out.length)) with
        | (_, some e) => pure (out, some e)
        | (chunk, none) =>
            if chunk = [] then pure (out, none) else rangeLoop fd off n fuel (out ++ chunk)
      else pure (out, none)

/-- The loop of `WriteFile` and, from a base offset, of `WriteFileAt`. A count
that wraps around makes the next slice panic. -/
def writeLoop (fd off : Int) (data : Bytes) : Nat → Int → Act σ (Int × Option Err)
  | 0, total => pure (total, none)
  | fuel + 1, total => do
      if total < data.length then
        if total < 0 then pure (total, some .panicked)
        else
          let chunk := (data.drop total.toNat).take maxWriteChunk
          match ← writeAt P fd (wrap64 (off + total)) chunk with
          | (_, some e) => pure (total, some e)
          | (nw, none) =>
              if nw ≤ 0 then pure (total, none)
              else writeLoop fd off data fuel (wrap64 (total + nw))
      else pure (total, none)

/-! ## Operations on paths -/

/-- Run `body` on an opened file and close it afterwards, whatever `body`
returned: the `defer c.closeFile(h.fd)` of the source. -/
def withFile {α : Type} (path : Bytes) (flags mode : Int) (failed : Err → α)
    (body : FileHandle → Act σ α) : Act σ α := do
  match ← ensure P .file with
  | some e => pure (failed e)
  | none =>
      match ← openFile P path flags mode with
      | .error e => pure (failed e)
      | .ok h =>
          let r ← body h
          let _ ← closeFile P h.fd
          pure r

/-- `Stat`. -/
def stat (path : Bytes) : Act σ ((Int × Int) × Option Err) :=
  withFile P path oRdonly 0 (fun e => ((0, 0), some e)) fun h => pure ((h.mode, h.size), none)

/-- `ReadFile`. -/
def readFile (fuel : Nat) (path : Bytes) : Act σ (Option (Bytes × Option Err)) :=
  withFile P path oRdonly 0 (fun e => some ([], some e)) fun h => readLoop P h fuel [] 0

/-- `ReadFileRange`. -/
def readFileRange (path : Bytes) (off n : Int) : Act σ (Bytes × Option Err) :=
  withFile P path oRdonly 0 (fun e => ([], some e)) fun h => rangeLoop P h.fd off n n.toNat []

/-- `WriteFile`. -/
def writeFile (path data : Bytes) (mode : Int) : Act σ (Int × Option Err) :=
  withFile P path (orInt (orInt oCreat oTrunc) oWronly) (if mode = 0 then modeRWAll else mode)
    (fun e => (0, some e)) fun h => writeLoop P h.fd 0 data (data.length + 1) 0

/-- `WriteFileAt`. -/
def writeFileAt (path : Bytes) (off : Int) (data : Bytes) : Act σ (Int × Option Err) :=
  withFile P path oRdwr 0 (fun e => (0, some e)) fun h =>
    writeLoop P h.fd off data (data.length + 1) 0

/-- `Delete`. -/
def delete (path : Bytes) : Act σ (Option Err) := do
  match ← ensure P .file with
  | some e => pure (some e)
  | none =>
      match ← raw P (deleteCmd path) with
      | (_, some e) => pure (some e)
      | (resp, none) =>
          pure (if isOk resp then none
            else some (.deleteFailed path (trimSpace (firstLine resp))))

/-- `Mkdir`, which reports the error of its close. -/
def mkdir (path : Bytes) (mode : Int) : Act σ (Option Err) := do
  match ← ensure P .file with
  | some e => pure (some e)
  | none =>
      match ← openFile P path (orInt oCreat oWronly)
          (orInt sIfdir (if mode = 0 then modeDir else mode)) with
      | .error e => pure (some e)
      | .ok h => closeFile P h.fd

/-- `Chmod`. -/
def chmod (path : Bytes) (mode : Int) : Act σ (Option Err) :=
  withFile P path oRdonly 0 some fun h => do
    match ← raw P (chmodCmd h.fd mode) with
    | (_, some e) => pure (some e)
    | (resp, none) => pure (if isOk resp then none else some (protoErr (ascii "chmod") resp))

end Client

/-! ## Runs of operations -/

inductive Op where
  | versions
  | info
  | stat (path : Bytes)
  | readFile (path : Bytes)
  | readFileRange (path : Bytes) (off n : Int)
  | writeFile (path data : Bytes) (mode : Int)
  | writeFileAt (path : Bytes) (off : Int) (data : Bytes)
  | delete (path : Bytes)
  | mkdir (path : Bytes) (mode : Int)
  | chmod (path : Bytes) (mode : Int)
  | signal (pid sig : Int)
  deriving DecidableEq, Repr

/-- The path an operation puts into a command line. -/
def Op.path? : Op → Option Bytes
  | .stat p | .readFile p | .readFileRange p _ _ | .writeFile p _ _ | .writeFileAt p _ _
  | .delete p | .mkdir p _ | .chmod p _ => some p
  | .versions | .info | .signal _ _ => none

/-- What an operation returns besides its error. -/
inductive Value where
  | versions (m : AList fun _ : Bytes => Int)
  | info (m : AList fun _ : Bytes => Bytes)
  | stat (mode size : Int)
  | bytes (b : Bytes)
  | count (n : Int)
  | unit
  deriving DecidableEq

section Exec

variable {σ : Type} (P : Peer σ) (fuel : Nat)

/-- One operation, `none` when it has not returned within the fuel of its loop. -/
def Op.exec : Op → Act σ (Option (Value × Option Err))
  | .versions => do
      let r ← Client.versions P
      pure (some (.versions r.1, r.2))
  | .info => do
      let r ← Client.info P
      pure (some (.info r.1, r.2))
  | .stat path => do
      let r ← Client.stat P path
      pure (some (.stat r.1.1 r.1.2, r.2))
  | .readFile path => do
      let r ← Client.readFile P fuel path
      pure (r.map fun x => (.bytes x.1, x.2))
  | .readFileRange path off n => do
      let r ← Client.readFileRange P path off n
      pure (some (.bytes r.1, r.2))
  | .writeFile path data mode => do
      let r ← Client.writeFile P path data mode
      pure (some (.count r.1, r.2))
  | .writeFileAt path off data => do
      let r ← Client.writeFileAt P path off data
      pure (some (.count r.1, r.2))
  | .delete path => do
      let r ← Client.delete P path
      pure (some (.unit, r))
  | .mkdir path mode => do
      let r ← Client.mkdir P path mode
      pure (some (.unit, r))
  | .chmod path mode => do
      let r ← Client.chmod P path mode
      pure (some (.unit, r))
  | .signal pid sig => do
      let r ← Client.signal P pid sig
      pure (some (.unit, r))

/-- A run of operations; it stops at one that does not return. -/
def runOps : List Op → Act σ (Option (List (Value × Option Err)))
  | [] => pure (some [])
  | op :: ops => do
      match ← op.exec P fuel with
      | none => pure none
      | some r =>
          let rs ← runOps ops
          pure (rs.map (r :: ·))

end Exec

end QconnMcp.Qconn
