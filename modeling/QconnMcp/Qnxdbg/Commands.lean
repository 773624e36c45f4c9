import QconnMcp.Qnxdbg.Client

/-!
# Debug commands

`internal/qnxdbg/commands.go`: the operations of the pdebug client. Most of them
are one request whose reply is checked for the error code (`command`); memory is
read and written in chunks, `Launch` stages its tables with one request per
string, and `Continue` and `Step` wait for a notification behind the reply.

A `pid` or `tid` is cut to 32 bits on its way to the target, and comes back as
the number those bits stand for.
-/

namespace QconnMcp.Qnxdbg

open Kit

/-! ## Results -/

/-- `errnoString`. -/
def errnoString (b : Bytes) : Errno :=
  if b.length < 4 then .missing
  else
    match leNat (b.take 4) with
    | 2 => .enoent
    | 8 => .enoexec
    | 13 => .eacces
    | 22 => .einval
    | n => .other n

/-- A stop notification; `raw` is the payload that `Raw` shows in hexadecimal. -/
structure Stop where
  code : UInt8
  pid : Int
  tid : Int
  raw : Bytes
  deriving DecidableEq, Repr

/-- What an operation hands back beside its error. -/
inductive Value where
  | nothing
  | data (b : Bytes)
  | count (n : Nat)
  | stop (s : Stop)
  | launched (pid tid : Int)
  | process (pid tid : Int) (raw : Bytes)
  deriving DecidableEq, Repr

/-- Process and thread at the start of a body, zero in a shorter one. -/
def pidTid (body : Bytes) : Int × Int :=
  if 8 ≤ body.length then ((leNat (body.take 4) : Int), (leNat ((body.drop 4).take 4) : Int))
  else (0, 0)

/-! ## Bodies -/

def maxChunk : Nat := 0x400

def numSignals : Nat := 72

def zeros (n : Nat) : Bytes := List.replicate n 0

/-- `spare0[4] addr[8] size[2] spare1[6]`. -/
def memrdBody (addr : UInt64) (want : Nat) : Bytes :=
  zeros 4 ++ le64 addr ++ le16 want ++ zeros 6

/-- `spare0[4] addr[8] data[]`. -/
def memwrBody (addr : UInt64) (data : Bytes) : Bytes := zeros 4 ++ le64 addr ++ data

theorem leNat_le64 (v : UInt64) (rest : Bytes) : leNat ((le64 v ++ rest).take 8) = v.toNat :=
  leNat_take (show v.toNat < 256 ^ 8 from v.toNat_lt) rest

theorem memrdBody_fields (addr : UInt64) {want : Nat} (hwant : want < 2 ^ 16) :
    leNat (((memrdBody addr want).drop 4).take 8) = addr.toNat ∧
      leNat (((memrdBody addr want).drop 12).take 2) = want ∧
      (memrdBody addr want).length = 20 := by
  have haddr : (memrdBody addr want).drop 4 = le64 addr ++ (le16 want ++ zeros 6) := by
    rw [memrdBody, List.append_assoc, List.append_assoc]
    exact List.drop_left' rfl
  have hsize : (memrdBody addr want).drop 12 = le16 want ++ zeros 6 := by
    rw [show 12 = 4 + 8 from rfl, ← List.drop_drop, haddr]
    exact drop_leBytes 8 _ _
  refine ⟨?_, ?_, by simp [memrdBody, zeros, le64, le16]⟩
  · rw [haddr, leNat_le64]
  · rw [hsize]
    exact leNat_take hwant _

theorem memwrBody_fields (addr : UInt64) (data : Bytes) :
    leNat (((memwrBody addr data).drop 4).take 8) = addr.toNat ∧
      (memwrBody addr data).drop 12 = data ∧ (memwrBody addr data).length = 12 + data.length := by
  have haddr : (memwrBody addr data).drop 4 = le64 addr ++ data := by
    rw [memwrBody, List.append_assoc]
    exact List.drop_left' rfl
  have hlen : (memwrBody addr data).length = 12 + data.length := by
    rw [memwrBody, List.length_append, List.length_append, zeros, List.length_replicate, le64,
      leBytes_length]
  refine ⟨?_, ?_, hlen⟩
  · rw [haddr, leNat_le64]
  · rw [show 12 = 4 + 8 from rfl, ← List.drop_drop, haddr]
    exact drop_leBytes 8 _ _

/-- `runMsg`: flags, thread and 12 reserved bytes. -/
def runMsg (flags tid : Nat) : Bytes := le32 flags ++ le32 tid ++ zeros 12

/-- Process and thread of a request. -/
def pidTidBody (pid tid : Int) : Bytes := le32 (uint32 pid) ++ le32 (uint32 tid)

def defaultLaunchEnv : List Bytes :=
  [ascii "PATH=/proc/boot:/system/bin", ascii "HOME=/", ascii "LD_BIND_NOW=1"]

/-- The Load body: counts, the program, a marker for each staged slot. -/
def loadBody (path : Bytes) (staged : Nat) : Bytes :=
  zeros 8 ++ path ++ [0] ++
    ((List.range (max staged 3)).flatMap fun i => ascii "@" ++ fmtNat 10 i ++ [0]) ++ [0]

/-- The signal table, cut or padded to its size. -/
def sigBody (table : Bytes) : Bytes := (table ++ zeros numSignals).take numSignals

def brkTypeExec : UInt8 := 0x01

def runContinue : UInt8 := 0
def runStep : UInt8 := 1

def envSetArgv : UInt8 := 0x01
def envResetEnv : UInt8 := 0x02
def envSetEnv : UInt8 := 0x03
def envResetArgv : UInt8 := 0x00

namespace Client

variable {σ : Type} (P : Peer σ)

/-! ## One request -/

/-- A request whose reply must not be an error. -/
def command (cmd subcmd : UInt8) (body : Bytes) (refused : Bytes → Err) :
    Act σ (Except Err Bytes) := do
  match ← transactSub P cmd subcmd body with
  | .error e => pure (.error e)
  | .ok p => if respCode p = respErr then pure (.error (refused p)) else pure (.ok p)

/-- A command of which only the error counts. -/
def acked (cmd subcmd : UInt8) (body : Bytes) (refused : Bytes → Err) : Act σ (Option Err) := do
  match ← command P cmd subcmd body refused with
  | .error e => pure (some e)
  | .ok _ => pure none

/-- A command that returns the body of its reply. -/
def fetched (cmd subcmd : UInt8) (body : Bytes) (refused : Bytes → Err) :
    Act σ (Bytes × Option Err) := do
  match ← command P cmd subcmd body refused with
  | .error e => pure ([], some e)
  | .ok p => pure (respBody p, none)

def attach (pid : Int) : Act σ (Option Err) :=
  acked P cmdAttach 0 (le32 (uint32 pid)) fun _ => .attach pid

def detach (pid : Int) : Act σ (Option Err) :=
  acked P cmdDetach 0 (le32 (uint32 pid)) fun _ => .detach pid

def kill (pid : Int) : Act σ (Option Err) :=
  acked P cmdKill 0 (le32 (uint32 pid)) fun _ => .kill pid

def select (pid tid : Int) : Act σ (Option Err) :=
  acked P cmdSelect 0 (pidTidBody pid tid) fun _ => .select pid tid

def readRegisters (offset size : Int) : Act σ (Bytes × Option Err) :=
  fetched P cmdRegrd 0 (le16 (uint16 offset) ++ le16 (uint16 size)) fun _ => .readRegisters

def writeRegisters (offset : Int) (data : Bytes) : Act σ (Option Err) :=
  acked P cmdRegwr 0 (le16 (uint16 offset) ++ data) fun _ => .writeRegisters

def setBreak (typ : UInt8) (addr : UInt64) (size : Int) : Act σ (Option Err) :=
  acked P cmdBrk typ (le32 (uint32 size) ++ le64 addr) fun _ => .setBreakpoint addr

def setBreakpoint (addr : UInt64) (size : Int) : Act σ (Option Err) :=
  setBreak P brkTypeExec addr size

def clearBreakpoint (addr : UInt64) : Act σ (Option Err) := setBreak P brkTypeExec addr (-1)

def setWatchpoint (typ : UInt8) (addr : UInt64) (size : Int) : Act σ (Option Err) :=
  setBreak P typ addr (if size ≤ 0 then 1 else size)

/-- `Stop`, which takes an error reply for success. -/
def stop : Act σ (Option Err) := do
  match ← transact P cmdStop [] with
  | .error e => pure (some e)
  | .ok _ => pure none

def mapInfo (pid : Int) : Act σ (Bytes × Option Err) :=
  fetched P cmdProcMap 0 (le32 (uint32 pid)) fun p => .mapinfo pid (errnoString (respBody p))

def handleSig (table : Bytes) : Act σ (Option Err) :=
  acked P cmdHandlesig 0 (sigBody table) fun p => .handlesig (errnoString (respBody p))

def cpuInfo : Act σ (Bytes × Option Err) := fetched P cmdCPUInfo 0 (le32 0) fun _ => .cpuinfo

def threadNames : Act σ (Bytes × Option Err) :=
  fetched P cmdTIDNames 0 (le32 0) fun _ => .tidnames

def procInfo (pid tid : Int) : Act σ (Bytes × Option Err) :=
  fetched P cmdPidlist 2 (pidTidBody pid tid) fun _ => .procinfo pid

def pidlist (pid tid : Int) (next : Bool) : Act σ (Value × Option Err) := do
  match ← fetched P cmdPidlist (if next then 1 else 0) (pidTidBody pid tid) fun _ => .pidlist with
  | (_, some e) => pure (.nothing, some e)
  | (b, none) => pure (.process (pidTid b).1 (pidTid b).2 b, none)

/-! ## Memory -/

/-- The loop of `ReadMemory`, for at most `fuel` requests, with `out` read. -/
def readMemoryLoop (addr : UInt64) (n : Int) : Nat → Bytes → Act σ (Bytes × Option Err)
  | 0, out => pure (out, none)
  | fuel + 1, out =>
      if (out.length : Int) < n then do
        let want := min (n - out.length).toNat maxChunk
        match ← transact P cmdMemrd (memrdBody (addr + UInt64.ofNat out.length) want) with
        | .error e => pure (out, some e)
        | .ok p =>
            if respCode p = respErr then
              -- an unmapped page ends a partial read without an error
              if out ≠ [] then pure (out, none) else pure ([], some (.readMemory addr))
            else if respBody p = [] then pure (out, none)
            else
              let data := (respBody p).take want
              if data.length < want then pure (out ++ data, none)
              else readMemoryLoop addr n fuel (out ++ data)
      else pure (out, none)

/-- `ReadMemory`: every round but the last adds a byte at least. -/
def readMemory (addr : UInt64) (n : Int) : Act σ (Bytes × Option Err) :=
  readMemoryLoop P addr n n.toNat []

/-- The loop of `WriteMemory`, for at most `fuel` requests. -/
def writeMemoryLoop (addr : UInt64) (data : Bytes) : Nat → Nat → Act σ (Nat × Option Err)
  | 0, total => pure (total, none)
  | fuel + 1, total =>
      if total < data.length then do
        let chunk := (data.drop total).take maxChunk
        match ← transact P cmdMemwr (memwrBody (addr + UInt64.ofNat total) chunk) with
        | .error e => pure (total, some e)
        | .ok p =>
            if respCode p = respErr then pure (total, some (.writeMemory addr))
            else writeMemoryLoop addr data fuel (min (total + maxChunk) data.length)
      else pure (total, none)

/-- `WriteMemory`. -/
def writeMemory (addr : UInt64) (data : Bytes) : Act σ (Nat × Option Err) :=
  writeMemoryLoop P addr data data.length 0

/-! ## Running -/

/-- `WaitStop`. -/
def waitStop : Act σ (Value × Option Err) := do
  match ← readResponse with
  | .error e => pure (.nothing, some (.read e))
  | .ok p =>
      pure (.stop ⟨respCode p, (pidTid (respBody p)).1, (pidTid (respBody p)).2, p⟩, none)

/-- A Run request and the stop behind it. The code of the reply is not looked
at. -/
def resume (subcmd : UInt8) (tid : Nat) : Act σ (Value × Option Err) := do
  match ← transactSub P cmdRun subcmd (runMsg 0 tid) with
  | .error e => pure (.nothing, some e)
  | .ok _ => waitStop

/-- `Continue`. -/
def cont : Act σ (Value × Option Err) := resume P runContinue 1

def step (tid : Int) : Act σ (Value × Option Err) :=
  resume P runStep (uint32 (if tid ≤ 0 then 1 else tid))

/-! ## Launching -/

def envCmd (sub : UInt8) (body : Bytes) : Act σ (Option Err) :=
  acked P cmdEnv sub body fun p => .env sub (errnoString (respBody p))

/-- One `envCmd` for each string. -/
def envEach (sub : UInt8) : List Bytes → Act σ (Option Err)
  | [] => pure none
  | e :: es => do
      match ← envCmd P sub (e ++ [0]) with
      | some err => pure (some err)
      | none => envEach sub es

/-- Clear a table and stage its strings. -/
def stage (reset sub : UInt8) (strings : List Bytes) : Act σ (Option Err) := do
  match ← envCmd P reset (zeros 1024) with
  | some e => pure (some e)
  | none => envEach P sub strings

/-- `Launch`; `env` is `none` for a nil slice. -/
def launch (path : Bytes) (args : List Bytes) (env : Option (List Bytes)) :
    Act σ (Value × Option Err) := do
  match ← stage P envResetEnv envSetEnv (env.getD defaultLaunchEnv) with
  | some e => pure (.nothing, some e)
  | none =>
      let staged := [path, path] ++ args
      match ← stage P envResetArgv envSetArgv staged with
      | some e => pure (.nothing, some e)
      | none =>
          match ← fetched P cmdLoad 0 (loadBody path staged.length)
            fun p => .load path (errnoString (respBody p)) with
          | (_, some e) => pure (.nothing, some e)
          | (b, none) => pure (.launched (pidTid b).1 (pidTid b).2, none)

end Client

/-! ## Operations -/

inductive Op where
  | attach (pid : Int)
  | detach (pid : Int)
  | kill (pid : Int)
  | select (pid tid : Int)
  | readMemory (addr : UInt64) (n : Int)
  | writeMemory (addr : UInt64) (data : Bytes)
  | readRegisters (offset size : Int)
  | writeRegisters (offset : Int) (data : Bytes)
  | setBreakpoint (addr : UInt64) (size : Int)
  | clearBreakpoint (addr : UInt64)
  | setWatchpoint (typ : UInt8) (addr : UInt64) (size : Int)
  | cont
  | step (tid : Int)
  | stop
  | launch (path : Bytes) (args : List Bytes) (env : Option (List Bytes))
  | mapInfo (pid : Int)
  | handleSig (table : Bytes)
  | cpuInfo
  | threadNames
  | procInfo (pid tid : Int)
  | pidlist (pid tid : Int) (next : Bool)

section Exec

variable {σ : Type} (P : Peer σ)

/-- An operation that returns only an error. -/
def errOnly (m : Act σ (Option Err)) : Act σ (Value × Option Err) := do
  let e ← m
  pure (.nothing, e)

def bytesOf (m : Act σ (Bytes × Option Err)) : Act σ (Value × Option Err) := do
  let r ← m
  pure (.data r.1, r.2)

def Op.exec : Op → Act σ (Value × Option Err)
  | .attach pid => errOnly (Client.attach P pid)
  | .detach pid => errOnly (Client.detach P pid)
  | .kill pid => errOnly (Client.kill P pid)
  | .select pid tid => errOnly (Client.select P pid tid)
  | .readMemory addr n => bytesOf (Client.readMemory P addr n)
  | .writeMemory addr data => do
      let r ← Client.writeMemory P addr data
      pure (.count r.1, r.2)
  | .readRegisters offset size => bytesOf (Client.readRegisters P offset size)
  | .writeRegisters offset data => errOnly (Client.writeRegisters P offset data)
  | .setBreakpoint addr size => errOnly (Client.setBreakpoint P addr size)
  | .clearBreakpoint addr => errOnly (Client.clearBreakpoint P addr)
  | .setWatchpoint typ addr size => errOnly (Client.setWatchpoint P typ addr size)
  | .cont => Client.cont P
  | .step tid => Client.step P tid
  | .stop => errOnly (Client.stop P)
  | .launch path args env => Client.launch P path args env
  | .mapInfo pid => bytesOf (Client.mapInfo P pid)
  | .handleSig table => errOnly (Client.handleSig P table)
  | .cpuInfo => bytesOf (Client.cpuInfo P)
  | .threadNames => bytesOf (Client.threadNames P)
  | .procInfo pid tid => bytesOf (Client.procInfo P pid tid)
  | .pidlist pid tid next => Client.pidlist P pid tid next

/-- A run of operations, with what each returned. -/
def runOps : List Op → Act σ (List (Value × Option Err))
  | [] => pure []
  | op :: ops => do
      let r ← op.exec P
      let rs ← runOps ops
      pure (r :: rs)

end Exec

end QconnMcp.Qnxdbg
