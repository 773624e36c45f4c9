import QconnMcp.Qconn.Answer

/-!
# The mock qconn daemon

`internal/mockqnx/server.go`: one connection served by the mock daemon, with its
broker, launcher, file and cntl services. The daemon reads command lines from
its connection, so it is a `LineDaemon`; the payload of an upload follows its
command line. What the process around the session supplies is a parameter
(`Host`): the canned output of launched commands, and how large a buffer `make`
gives out before it panics. A panic ends the session. The counter behind the
descriptors does not wrap around here.
-/

namespace QconnMcp.Mock

open Kit Qconn

/-! ## State -/

structure Host where
  runShell : Bytes → Bytes
  /-- The largest `n` for which `make([]byte, n)` does not panic. -/
  maxAlloc : Nat
  /-- The Go runtime has no larger heap. -/
  maxAlloc_le : maxAlloc ≤ 2 ^ 48

/-- A host that gives out buffers of up to 1 MiB. -/
def smallHost : Host := ⟨fun _ => [], 2 ^ 20, by decide⟩

structure VFile where
  path : Bytes
  isProc : Bool
  deriving DecidableEq, Repr

/-- `session`. `alive` is cleared when the connection is closed; `log` is a
ghost: the commands dispatched so far, each with the service that got it. -/
structure Session where
  svc : Service
  fds : Nat → Option VFile
  files : Bytes → Bytes
  nfd : Nat
  alive : Bool
  log : List (Service × Bytes)

/-- A session after its greeting. -/
def Session.start : Session := ⟨.broker, fun _ => none, fun _ => [], 0, true, []⟩

/-- What `Serve` writes before it reads the first command. -/
def greeting : Bytes :=
  ascii "QCONN\r\n" ++ ascii "<qconn-broker>" ++ benignNoise ++ ascii "\r\n"

def mockInfo : Bytes :=
  ascii "ARCHITECTURE=x86_64 CPU=x86_64 ENDIAN=le HASVERSION=1 HOSTNAME=qnxmock " ++
    ascii "MACHINE=x86pc NUM_SRVCS=1 OS=nto RELEASE=8.0 SYSNAME=QNX " ++
    ascii "TIMEZONE=UTC0 VERSION=2024/01/01-00:00:00UTC"

/-! ## Grammars -/

/-- `^o:"([^"]+)":([0-9a-fA-F]+):([0-9a-fA-F]+)$`. -/
def openRe : Pattern :=
  [lit "o:\"", group (.run 1 (· != 34)), lit "\":", group (.run 1 isHexDigit), lit ":",
    group (.run 1 isHexDigit), skip .done]

/-- `^([rw]):([0-9a-fA-F]+):([0-9a-fA-F]+):([0-9a-fA-F]+)$`. -/
def rwRe : Pattern :=
  [group (.one fun b => b == 114 || b == 119), lit ":", group (.run 1 isHexDigit), lit ":",
    group (.run 1 isHexDigit), lit ":", group (.run 1 isHexDigit), skip .done]

/-- `^start/flags\s+(\S+)\s+(\S+)\s+(\S+)\s+-c\s+"(.*)"\s*$`. -/
def startRe : Pattern :=
  [lit "start/flags", skip (.run 1 isReSpace), group (.run 1 (!isReSpace ·)),
    skip (.run 1 isReSpace), group (.run 1 (!isReSpace ·)), skip (.run 1 isReSpace),
    group (.run 1 (!isReSpace ·)), skip (.run 1 isReSpace), lit "-c", skip (.run 1 isReSpace),
    lit "\"", group (.run 0 (· != 10)), lit "\"", skip (.run 0 isReSpace), skip .done]

/-- Path, flags and mode of an open command. -/
def parseOpen (cmd : Bytes) : Option (Bytes × Bytes × Bytes) :=
  match openRe.exec cmd with
  | some ([path, flags, mode], _) => some (path, flags, mode)
  | _ => none

/-- Descriptor, offset and count of a read or write command. -/
def parseRw (cmd : Bytes) : Option (Nat × Nat × Nat) :=
  match rwRe.exec cmd with
  | some ([_, fd, off, n], _) =>
      some ((parseInt 16 fd).1.toNat, (parseInt 16 off).1.toNat, (parseInt 16 n).1.toNat)
  | _ => none

namespace Session

/-- `prompt`. -/
def prompt (s : Session) : Bytes := ascii "<qconn-" ++ s.svc.name ++ ascii ">"

/-! ## Broker, launcher, cntl -/

def brokerSwitch (s : Session) (cmd : Bytes) : Session × Bytes :=
  if cmd = ascii "versions ?" then
    (s, ascii "versions: broker/256 launcher/256 file/256 cntl/256 sinfo/256\r\n")
  else if (ascii "versions ").isPrefixOf cmd then (s, ascii "256\r\n")
  else if cmd = ascii "info" then (s, mockInfo ++ ascii "\r\n")
  else if cmd = ascii "service launcher" then ({ s with svc := .launcher }, ascii "OK\r\n")
  else if cmd = ascii "service file" then ({ s with svc := .file }, ascii "OK\r\n")
  else if cmd = ascii "service cntl" then ({ s with svc := .cntl }, ascii "OK\r\n")
  else (s, ascii "error unknown-command\r\n")

/-- A handler's answer followed by the prompt of the service it left the
session in. -/
def prompted (r : Session × Bytes) : Session × Bytes := (r.1, r.2 ++ r.1.prompt)

def broker (s : Session) (cmd : Bytes) : Session × Bytes :=
  if cmd = ascii "quit" then ({ s with alive := false }, []) else prompted (s.brokerSwitch cmd)

def launcher (host : Host) (s : Session) (cmd : Bytes) : Session × Bytes :=
  if cmd = ascii "done" ∨ cmd = ascii "quit" then prompted ({ s with svc := .broker }, [])
  else if cmd = ascii "chdir /" then prompted (s, ascii "OK\r\n")
  else if (ascii "start/flags").isPrefixOf cmd then
    -- one-shot: the output of the command, no prompt, and the session ends
    ({ s with alive := false },
      ascii "OK 8300\r\n" ++
        match startRe.exec cmd with
        | some ([_, _, _, arg], _) => host.runShell arg
        | _ => [])
  else prompted (s, ascii "error unknown-command\r\n")

def cntl (s : Session) (cmd : Bytes) : Session × Bytes :=
  prompted
    (if cmd = ascii "done" ∨ cmd = ascii "quit" then ({ s with svc := .broker }, [])
    else if (ascii "kill ").isPrefixOf cmd then (s, ascii "ok\r\n")
    else (s, ascii "error unknown-command\r\n"))

/-! ## The file service -/

/-- The synthetic address-space nodes `/proc/.../as`. -/
def isProcPath (path : Bytes) : Bool :=
  (ascii "/proc/").isPrefixOf path && (ascii "/as").isSuffixOf path

/-- The contents after opening `path`: other nodes under `/proc/` get a fixed
one. -/
def filesAt (s : Session) (path : Bytes) : Bytes → Bytes :=
  if (ascii "/proc/").isPrefixOf path && !isProcPath path then
    Function.update s.files path (ascii "synthetic proc node\n")
  else s.files

/-- The size an open of `path` reports. -/
def sizeAt (s : Session) (path : Bytes) : Nat :=
  if isProcPath path then 0x7fffffff else (s.filesAt path path).length

/-- The open case of `file`. -/
def openCase (s : Session) (path : Bytes) : Session × Bytes :=
  ({ s with
      nfd := s.nfd + 1
      files := s.filesAt path
      fds := Function.update s.fds (s.nfd + 3) (some ⟨path, isProcPath path⟩) },
    openAnswer (s.nfd + 3) 0o100644 (s.sizeAt path) path ++ ascii "\r\n")

/-- `readVfile`; `none` is a panic, of `make` or of a slice whose bound wrapped
around. -/
def readVfile (host : Host) (s : Session) (fd off n : Nat) : Option Bytes :=
  match s.fds fd with
  | none => some []
  | some vf =>
      if vf.isProc then
        if host.maxAlloc < n then none
        else some ((List.range n).map fun i => UInt8.ofNat (off + i))
      else if (s.files vf.path).length ≤ off then some []
      else if 2 ^ 63 ≤ off + n then none
      else some (((s.files vf.path).drop off).take n)

/-- `storeVfile`; `none` is a panic. A needed length that wraps around is larger
than the limit as well, and panics at the slice instead of at `make`. -/
def storeVfile (host : Host) (s : Session) (fd off : Nat) (data : Bytes) : Option Session :=
  match s.fds fd with
  | none => some s
  | some vf =>
      if vf.isProc then some s
      else if (s.files vf.path).length < off + data.length ∧ host.maxAlloc < off + data.length then
        none
      else
        some { s with files := Function.update s.files vf.path (overwrite (s.files vf.path) off data) }

/-- The cases of `file` that end in a prompt; `none` is a panic. -/
def fileSwitch (host : Host) (s : Session) (cmd data : Bytes) : Option (Session × Bytes) :=
  if cmd = ascii "q" ∨ cmd = ascii "done" ∨ cmd = ascii "quit" then
    some ({ s with svc := .broker }, [])
  else if (ascii "o:").isPrefixOf cmd then
    match parseOpen cmd with
    | none => some (s, ascii "error bad-open\r\n")
    | some (path, _, _) => some (s.openCase path)
  else if (ascii "c:").isPrefixOf cmd ∨ (ascii "d:").isPrefixOf cmd ∨ (ascii "a:").isPrefixOf cmd then
    some (s, ascii "o\r\n")
  else if (ascii "r:").isPrefixOf cmd then
    match parseRw cmd with
    | none => some (s, ascii "error bad-read\r\n")
    | some (fd, off, n) =>
        (s.readVfile host fd off n).map fun d =>
          (s, ascii "o:" ++ fmtNat 16 d.length ++ ascii ":0:0\r\n" ++ d)
  else if (ascii "w:").isPrefixOf cmd then
    match parseRw cmd with
    | none => some (s, ascii "error bad-write\r\n")
    | some (fd, off, n) =>
        if host.maxAlloc < n then none
        else
          (s.storeVfile host fd off data).map fun s =>
            (s, ascii "o:" ++ fmtNat 16 n ++ ascii ":0\r\n")
  else some (s, ascii "error unknown-command\r\n")

def file (host : Host) (s : Session) (cmd data : Bytes) : Session × Bytes :=
  match s.fileSwitch host cmd data with
  | none => ({ s with alive := false }, [])
  | some r => prompted r

/-! ## The session loop -/

/-- Record a command as received in the current service. -/
def logged (s : Session) (cmd : Bytes) : Session := { s with log := s.log ++ [(s.svc, cmd)] }

/-- `dispatch`. -/
def dispatch (host : Host) (s : Session) (cmd data : Bytes) : Session × Bytes :=
  match s.svc with
  | .broker => (s.logged cmd).broker cmd
  | .launcher => (s.logged cmd).launcher host cmd
  | .file => (s.logged cmd).file host cmd data
  | .cntl => (s.logged cmd).cntl cmd
  | .sinfo => ({ s.logged cmd with alive := false }, [])

/-- A command line as `Serve` hands it to `dispatch`. -/
def trimLine (line : Bytes) : Bytes := trimRight (fun b => b == 13 || b == 10) line

/-- The bytes an upload command takes from the connection. -/
def payload (host : Host) (s : Session) (cmd : Bytes) : Nat :=
  if s.svc = .file ∧ (ascii "w:").isPrefixOf cmd then
    match parseRw cmd with
    | some (_, _, n) => if host.maxAlloc < n then 0 else n
    | none => 0
  else 0

end Session

/-- `Serve`: the session behind its connection. -/
def serve (host : Host) : LineDaemon Session where
  isOpen s := s.alive
  payload s line := s.payload host (Session.trimLine line)
  handle s line data := s.dispatch host (Session.trimLine line) data

end QconnMcp.Mock
