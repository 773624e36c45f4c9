import QconnMcp.Qnxdbg.Commands

/-!
# Debug tools

The handlers of `internal/mcpserver/tools_debug.go` on one debug session. A
session holds the pdebug client, the process it was opened for and the signal
table; the handlers run one at a time, under the session's mutex. Two ways open
a session on a connected client, and `qconn_debug_detach` ends it.

A handler's output is kept as the client hands it over: the text that is
rendered from it (hexadecimal blocks, register names, printable strings) is left
out.
-/

namespace QconnMcp.Tools

open Kit Qnxdbg

inductive ToolErr where
  | client (e : Err)
  /-- `invalid hex_data: %v` -/
  | invalidHex
  /-- `signal %d out of range (1-%d)` -/
  | signalRange (signal : Int)
  deriving DecidableEq, Repr

/-- What a tool returns beside its error. -/
inductive ToolOut where
  /-- The zero value, returned with an error. -/
  | zero
  | ok
  /-- A block of registers, memory, segments or target information. -/
  | block (b : Bytes)
  | stop (st : Stop)
  | threads (pid : Int) (procInfo threadNames : Option Bytes)
  deriving DecidableEq, Repr

/-- `qnxSession`. The table is `none` until it is first used. -/
structure QnxSession (σ : Type) where
  client : Client σ
  pid : Int
  sigTable : Option Bytes

abbrev Act (σ α : Type) := StateM (QnxSession σ) α

/-- `hex.DecodeString`: two digits a byte, of either case. -/
def hexDecode : Bytes → Option Bytes
  | [] => some []
  | [_] => none
  | a :: b :: rest =>
      if isHexDigit a ∧ isHexDigit b then
        (hexDecode rest).map (UInt8.ofNat ((digitVal a).getD 0 * 16 + (digitVal b).getD 0) :: ·)
      else none

/-- The table of a session that intercepts every signal. -/
def interceptAll : Bytes := List.replicate numSignals 1

namespace QnxSession

variable {σ : Type}

/-- The table a session goes by, whether it has been made yet or not. -/
def table (q : QnxSession σ) : Bytes := q.sigTable.getD interceptAll

/-- `signalTable`: the table, made on first use. -/
def signalTable : Act σ Bytes := fun q => (q.table, { q with sigTable := some q.table })

/-- The table is a slice: writing an entry changes the session. -/
def storeTable (tbl : Bytes) : Act σ Unit := fun q => ((), { q with sigTable := some tbl })

def getPid : Act σ Int := fun q => (q.pid, q)

/-- A call of the client. -/
def onClient {α : Type} (m : Qnxdbg.Act σ α) : Act σ α := fun q =>
  ((m.run q.client).1, { q with client := (m.run q.client).2 })

end QnxSession

open QnxSession

/-! ## Tools on a session -/

inductive Tool where
  | readRegisters
  | readMemory (addr : UInt64) (length : Int)
  | writeMemory (addr : UInt64) (hexData : Bytes)
  | cont
  | step
  | breakSet (addr : UInt64)
  | breakClear (addr : UInt64)
  | writeRegisters (offset : Int) (hexData : Bytes)
  | selectThread (tid : Int)
  | mapinfo
  | handleSignal (signal : Int) (stop : Bool)
  | targetInfo
  | threads
  | detach
  deriving DecidableEq

section

variable {σ : Type} (P : Peer σ)

/-- A tool that fails when the client does and has no other output. -/
def acknowledge (m : Qnxdbg.Act σ (Option Err)) : Act σ (ToolOut × Option ToolErr) := do
  match ← onClient m with
  | some e => pure (.zero, some (.client e))
  | none => pure (.ok, none)

theorem acknowledge_run (m : Qnxdbg.Act σ (Option Err)) (q : QnxSession σ) :
    (acknowledge m).run q =
      ((m.run q.client).1.elim (.ok, none) fun e => (.zero, some (.client e)),
        { q with client := (m.run q.client).2 }) := by
  rw [acknowledge, run_bind, show (onClient m).run q = ((m.run q.client).1, _) from rfl]
  cases (m.run q.client).1 <;> rfl

/-- A tool that returns a block. -/
def fetch (m : Qnxdbg.Act σ (Bytes × Option Err)) : Act σ (ToolOut × Option ToolErr) := do
  match ← onClient m with
  | (_, some e) => pure (.zero, some (.client e))
  | (b, none) => pure (.block b, none)

/-- A tool that returns a stop. -/
def awaitStop (m : Qnxdbg.Act σ (Value × Option Err)) : Act σ (ToolOut × Option ToolErr) := do
  match ← onClient m with
  | (.stop st, none) => pure (.stop st, none)
  | (_, e) => pure (.zero, e.map .client)

/-- A tool that takes bytes in hexadecimal. -/
def withHex (hexData : Bytes) (f : Bytes → Act σ (ToolOut × Option ToolErr)) :
    Act σ (ToolOut × Option ToolErr) :=
  match hexDecode hexData with
  | none => pure (.zero, some .invalidHex)
  | some data => f data

/-- `qconn_debug_handle_signal`. The entry is written before the request is sent. -/
def handleSignal (signal : Int) (stop : Bool) : Act σ (ToolOut × Option ToolErr) :=
  if signal < 1 ∨ numSignals < signal then pure (.zero, some (.signalRange signal))
  else do
    let tbl := (← signalTable).set (signal - 1).toNat (if stop then 1 else 0)
    storeTable tbl
    acknowledge (Client.handleSig P tbl)

/-- `qconn_debug_threads`. Either request may fail without an error of the tool. -/
def threads : Act σ (ToolOut × Option ToolErr) := do
  let pid ← getPid
  let info ← onClient (Client.procInfo P pid 1)
  let names ← onClient (Client.threadNames P)
  pure (.threads pid (if info.2 = none then some info.1 else none)
    (if names.2 = none then some names.1 else none), none)

/-- The handler of a tool. -/
def Tool.exec : Tool → Act σ (ToolOut × Option ToolErr)
  | readRegisters => fetch (Client.readRegisters P 0 0x110)
  | readMemory addr length => fetch (Client.readMemory P addr length)
  | writeMemory addr hexData =>
      withHex hexData fun data => acknowledge do return (← Client.writeMemory P addr data).2
  | cont => awaitStop (Client.cont P)
  | step => awaitStop (Client.step P 1)
  | breakSet addr => acknowledge (Client.setBreakpoint P addr 0)
  | breakClear addr => acknowledge (Client.clearBreakpoint P addr)
  | writeRegisters offset hexData =>
      withHex hexData fun data => acknowledge (Client.writeRegisters P offset data)
  | selectThread tid => do acknowledge (Client.select P (← getPid) tid)
  | mapinfo => do fetch (Client.mapInfo P (← getPid))
  | handleSignal signal stop => Tools.handleSignal P signal stop
  | targetInfo => fetch (Client.cpuInfo P)
  | threads => Tools.threads P
  | detach => do
      -- the error of the request is ignored
      let _ ← onClient (Client.detach P (← getPid))
      pure (.ok, none)

/-- The session behind a call, `none` once it has been closed. -/
def Tool.next (t : Tool) (q : QnxSession σ) : Option (QnxSession σ) :=
  if t = .detach then none else some ((t.exec P).run q).2

/-! ## Opening a session -/

inductive Opening where
  | attach (pid : Int)
  | launch (path : Bytes) (args : List Bytes)

/-- What opening on a connected client comes to: the session, and the thread that
has been selected on the way. The error of the selection is ignored. -/
def Opening.session (c : Client σ) : Opening → Option (QnxSession σ × Option Int)
  | attach pid =>
      match (Client.attach P pid).run c with
      | (some _, _) => none
      | (none, c) =>
          match (Client.select P pid 1).run c with
          | (some _, c) => some (⟨c, pid, none⟩, none)
          | (none, c) => some (⟨c, pid, none⟩, some 1)
  | launch path args =>
      match (Client.launch P path args none).run c with
      | ((.launched pid tid, none), c) =>
          match (Client.select P pid tid).run c with
          | (some _, c) => some (⟨c, pid, none⟩, none)
          | (none, c) => some (⟨c, pid, none⟩, some tid)
      | _ => none

end

end QconnMcp.Tools
