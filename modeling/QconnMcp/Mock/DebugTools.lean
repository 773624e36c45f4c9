import QconnMcp.Kit.Mutex
import QconnMcp.Mock.DebugLockstep
import QconnMcp.Tools.Output
import QconnMcp.Tools.Signals

/-!
# Debug tools over the mock agent

A debug session over the mock pdebug agent, used by any number of tool calls at once.
`Debugger` is what such a session is for: a breakpoint, the signals that are intercepted,
and an answer for each tool. The handlers answer as it does, apart from the message id in
the text of a stop (`handler_follows`). Each of them holds the session's mutex from its
first use of the connection to its last, so the same is true of concurrent calls in the
order in which they let go of the mutex (`debug_session_serial`).
-/

namespace QconnMcp.Mock

open Kit Qnxdbg Tools QnxSession

/-! ## Requests to an agent at rest -/

/-- Nothing is unread at either end, and the agent's state is `s`. -/
structure AtRest (s : Pdebug) (c : Client (Served Pdebug)) : Prop where
  unread : c.inp = []
  peer : c.peer = ⟨s, []⟩

/-- The agent answers the request with one message, and goes on in the state `t`. -/
def Replies (s : Pdebug) (cmd : UInt8) (body : Bytes) (t : Pdebug) (code : UInt8) (data : Bytes) :
    Prop :=
  ∀ mid, s.request cmd mid body = (t, [reply code mid data])

section Requests

variable {s t : Pdebug} {cmd subcmd code : UInt8} {body data : Bytes}

theorem transactSub_atRest (h : Replies s cmd body t code data) :
    Holds (AtRest s) (Client.transactSub serveDSMSG cmd subcmd body) fun r c =>
      (∃ mid, r = .ok (reply code mid data)) ∧ AtRest t c := by
  intro c hc
  have hreq := h (c.mid + 1)
  have hrun := transactSub_mock hc.unread hc.peer cmd subcmd body (congrArg Prod.snd hreq)
    (not_aside_message code 0 _ _)
  rw [hrun, hreq]
  exact ⟨⟨_, rfl⟩, rfl, rfl⟩

theorem command_atRest (h : Replies s cmd body t code data) (hcode : code ≠ respErr)
    (refused : Bytes → Err) :
    Holds (AtRest s) (Client.command serveDSMSG cmd subcmd body refused) fun r c =>
      (∃ mid, r = .ok (reply code mid data)) ∧ AtRest t c := by
  refine (transactSub_atRest h).bind ?_
  rintro r c ⟨⟨mid, rfl⟩, hc⟩
  have hok : respCode (reply code mid data) ≠ respErr := hcode
  simp only [if_neg hok]
  exact ⟨⟨mid, rfl⟩, hc⟩

theorem acked_atRest (h : Replies s cmd body t code data) (hcode : code ≠ respErr)
    (refused : Bytes → Err) :
    Holds (AtRest s) (Client.acked serveDSMSG cmd subcmd body refused) fun r c =>
      r = none ∧ AtRest t c := by
  refine (command_atRest h hcode refused).bind ?_
  rintro r c ⟨⟨mid, rfl⟩, hc⟩
  exact ⟨rfl, hc⟩

theorem fetched_atRest (h : Replies s cmd body t code data) (hcode : code ≠ respErr)
    (refused : Bytes → Err) :
    Holds (AtRest s) (Client.fetched serveDSMSG cmd subcmd body refused) fun r c =>
      r = (data, none) ∧ AtRest t c := by
  refine (command_atRest h hcode refused).bind ?_
  rintro r c ⟨⟨mid, rfl⟩, hc⟩
  exact ⟨rfl, hc⟩

/-- A request the agent does not know. -/
theorem fetched_refused (h : Replies s cmd body t respErr data) (e : Err) :
    Holds (AtRest s) (Client.fetched serveDSMSG cmd subcmd body fun _ => e) fun r c =>
      r = ([], some e) ∧ AtRest t c := by
  have hcommand : Holds (AtRest s) (Client.command serveDSMSG cmd subcmd body fun _ => e) fun r c =>
      r = .error e ∧ AtRest t c := by
    refine (transactSub_atRest h).bind ?_
    rintro r c ⟨⟨mid, rfl⟩, hc⟩
    exact ⟨rfl, hc⟩
  exact hcommand.bind_value (.pure fun c hc => ⟨rfl, hc⟩)

end Requests

/-! ### Memory -/

theorem readMemoryLoop_atRest (s : Pdebug) (addr : UInt64) (n : Int) (fuel : Nat) : ∀ out : Bytes,
    Holds (AtRest s) (Client.readMemoryLoop serveDSMSG addr n fuel out) fun _ c => AtRest s c := by
  induction fuel with
  | zero => exact fun _ => .pure fun _ hc => hc
  | succ fuel ih =>
      intro out
      rw [Client.readMemoryLoop]
      by_cases hmore : (out.length : Int) < n
      · rw [if_pos hmore]
        refine (transactSub_atRest fun _ => rfl).bind ?_
        rintro r c ⟨⟨mid, rfl⟩, hc⟩
        dsimp only
        split_ifs
        · exact hc
        · exact hc
        · exact hc
        · exact hc
        · exact ih _ c hc
      · rw [if_neg hmore]
        exact .pure fun _ hc => hc

theorem readMemory_atRest (s : Pdebug) (addr : UInt64) (n : Int) :
    Holds (AtRest s) (Client.readMemory serveDSMSG addr n) fun r c =>
      r = (Pdebug.memory addr.toNat n.toNat, none) ∧ AtRest s c := by
  intro c hc
  exact ⟨readMemoryLoop_mock addr n n.toNat 0 c s hc.unread hc.peer (Nat.zero_le _) (by omega),
    readMemoryLoop_atRest s addr n n.toNat [] c hc⟩

/-- The agent takes every write. -/
theorem writeMemoryLoop_atRest (s : Pdebug) (addr : UInt64) (data : Bytes) (fuel : Nat) :
    ∀ total : Nat, Holds (AtRest s) (Client.writeMemoryLoop serveDSMSG addr data fuel total)
      fun r c => r.2 = none ∧ AtRest s c := by
  induction fuel with
  | zero => exact fun _ => .pure fun _ hc => ⟨rfl, hc⟩
  | succ fuel ih =>
      intro total
      rw [Client.writeMemoryLoop]
      by_cases hmore : total < data.length
      · rw [if_pos hmore]
        refine (transactSub_atRest fun _ => rfl).bind ?_
        rintro r c ⟨⟨mid, rfl⟩, hc⟩
        exact ih _ c hc
      · rw [if_neg hmore]
        exact .pure fun _ hc => ⟨rfl, hc⟩

/-! ### Running -/

theorem resume_atRest {s : Pdebug} (hpid : s.attachedPID < 2 ^ 32) (subcmd : UInt8) (tid : Nat) :
    Holds (AtRest s) (Client.resume serveDSMSG subcmd tid) fun r c =>
      (∃ mid, r = (.stop ⟨0x40, s.attachedPID, 1, s.stopped mid⟩, none)) ∧ AtRest s c := by
  intro c hc
  refine ⟨⟨_, resume_mock hc.unread hc.peer hpid subcmd tid⟩, ?_⟩
  have hrun := transactSub_mock hc.unread hc.peer cmdRun subcmd (runMsg 0 tid) rfl
    (not_aside_message 0x21 0 _ _)
  rw [Client.resume, run_bind, hrun]
  show AtRest s ((Client.waitStop.run _).2)
  rw [Client.waitStop, run_bind, Client.readResponse_frames (List.forall_mem_nil Aside)
    (s.stopped_isNotice (c.mid + 1)).debug _ rfl]
  exact ⟨rfl, rfl⟩

/-! ## The debugger -/

/-- What a session is for. No breakpoint is the address zero. -/
structure Debugger where
  breakpoint : UInt64
  intercepts : Int → Bool

def Debugger.start : Debugger := ⟨0, fun _ => true⟩

/-- The table of dispositions that goes to the target. -/
def dispositions (f : Int → Bool) : Bytes :=
  (List.range numSignals).map fun i : Nat => entry (f ((i : Int) + 1))

/-- Registers are zero, apart from the program counter. -/
def mockRegisters : List UInt64 := List.replicate 32 0 ++ [0x4000, 0]

/-- The one record of the agent's memory map. -/
def mockRecord (pid : Int) : MapRecord := ⟨UInt32.ofNat (uint32 pid), 0, 0x400000, 0x1000⟩

namespace Debugger

/-- The process stops at the breakpoint. The text of the stop is without the message id. -/
def stop (d : Debugger) (pid : Int) : Output :=
  let ip := if d.breakpoint = 0 then 0x4000 else d.breakpoint
  .stop 0x40 (uint32 pid) 1 (hexBytes ([0x40, 0x00, 0x01] ++ (le32 (uint32 pid) ++ le32 1 ++ le64 ip)))

/-- What a tool is to do and to answer, in a session for the process `pid`. -/
def answer (pid : Int) : Tool → StateM Debugger (Except ToolErr Output)
  | .readRegisters =>
      pure (.ok (.regs (hexBytes (registerBlock mockRegisters))
        (List.zipWith (fun reg v => (reg.1, hexed v.toNat)) aarch64 mockRegisters)))
  | .readMemory addr n => pure (.ok (.memory (hexBytes (Pdebug.memory addr.toNat n.toNat))))
  | .writeMemory _ hexData | .writeRegisters _ hexData =>
      pure (if hexDecode hexData = none then .error .invalidHex else .ok .ok)
  | .cont | .step => fun d => (.ok (d.stop pid), d)
  | .breakSet addr => fun d => (.ok .ok, { d with breakpoint := addr })
  | .breakClear _ => fun d => (.ok .ok, { d with breakpoint := 0 })
  | .mapinfo => pure (.ok (.mapInfo [⟨0x400000, 0x1000⟩] (hexBytes (mockRecord pid).bytes)))
  | .handleSignal signal stop =>
      if signal < 1 ∨ numSignals < signal then pure (.error (.signalRange signal))
      else fun d => (.ok .ok, { d with intercepts := Function.update d.intercepts signal stop })
  | .targetInfo => pure (.error (.client .cpuinfo))
  | .threads => pure (.ok (.threads pid [] [] [] []))
  | .selectThread _ | .detach => pure (.ok .ok)

end Debugger

/-- An output without the message id, the third byte in the text of a stop. -/
def unnumbered : Except ToolErr Output → Except ToolErr Output
  | .ok (.stop code pid tid raw) => .ok (.stop code pid tid (raw.take 4 ++ raw.drop 6))
  | r => r

/-! ## The handlers -/

/-- The agent in a session for the process `pid`. -/
def Debugger.agent (d : Debugger) (pid : Int) : Pdebug := ⟨uint32 pid, d.breakpoint.toNat⟩

/-- The session between two calls. -/
structure Attached (pid : Int) (d : Debugger) (q : QnxSession (Served Pdebug)) : Prop where
  client : AtRest (d.agent pid) q.client
  pid : q.pid = pid
  table : q.table = dispositions d.intercepts

section Handlers

variable {pid : Int} {d : Debugger}

theorem getPid_attached : Holds (Attached pid d) getPid fun r q => r = pid ∧ Attached pid d q :=
  fun _ hq => ⟨hq.pid, hq⟩

/-- A call of the client leaves the rest of the session alone. -/
theorem onClient_attached {α : Type} {m : Qnxdbg.Act (Served Pdebug) α} {Q : α → Prop} (b : UInt64)
    (h : Holds (AtRest (d.agent pid)) m fun r c => Q r ∧ AtRest ⟨uint32 pid, b.toNat⟩ c) :
    Holds (Attached pid d) (onClient m) fun r q => Q r ∧ Attached pid { d with breakpoint := b } q := by
  intro q hq
  obtain ⟨hr, hc⟩ := h q.client hq.client
  exact ⟨hr, hc, hq.pid, hq.table⟩

theorem acknowledge_attached {m : Qnxdbg.Act (Served Pdebug) (Option Err)} (b : UInt64)
    (h : Holds (AtRest (d.agent pid)) m fun r c => r = none ∧ AtRest ⟨uint32 pid, b.toNat⟩ c) :
    Holds (Attached pid d) (acknowledge m) fun r q =>
      r = (.ok, none) ∧ Attached pid { d with breakpoint := b } q :=
  (onClient_attached b h).bind_value (.pure fun _ hq => ⟨rfl, hq⟩)

theorem fetch_attached {m : Qnxdbg.Act (Served Pdebug) (Bytes × Option Err)} {data : Bytes}
    (h : Holds (AtRest (d.agent pid)) m fun r c => r = (data, none) ∧ AtRest (d.agent pid) c) :
    Holds (Attached pid d) (fetch m) fun r q => r = (.block data, none) ∧ Attached pid d q :=
  (onClient_attached d.breakpoint h).bind_value (.pure fun _ hq => ⟨rfl, hq⟩)

/-- What the handler makes of the output. -/
theorem handler_attached {t : Tool} {out : ToolOut} {e : Option ToolErr} {d' : Debugger}
    (h : Holds (Attached pid d) (t.exec serveDSMSG) fun r q => r = (out, e) ∧ Attached pid d' q) :
    Holds (Attached pid d) (t.handler serveDSMSG) fun r q =>
      r = e.elim (.ok (t.render out)) .error ∧ Attached pid d' q := by
  intro q hq
  obtain ⟨hr, hq'⟩ := h q hq
  rw [t.handler_run, hr]
  exact ⟨rfl, hq'⟩

/-! ### Stops -/

theorem stop_unnumbered (d : Debugger) (pid : Int) (mid : UInt8) :
    unnumbered (.ok (.stop 0x40 (uint32 pid) 1 (hexBytes ((d.agent pid).stopped mid)))) =
      .ok (d.stop pid) := by
  have hip : (if d.breakpoint.toNat = 0 then 0x4000 else d.breakpoint.toNat) =
      (if d.breakpoint = 0 then (0x4000 : UInt64) else d.breakpoint).toNat := by
    by_cases hzero : d.breakpoint = 0
    · rw [if_pos hzero, if_pos (by rw [hzero]; rfl)]
      rfl
    · have hnat : d.breakpoint.toNat ≠ 0 := fun h => hzero (UInt64.toNat_inj.mp h)
      rw [if_neg hzero, if_neg hnat]
  have hraw : (d.agent pid).stopped mid = [0x40, 0x00] ++ mid :: ([0x01] ++ (le32 (uint32 pid) ++
      le32 1 ++ le64 (if d.breakpoint = 0 then 0x4000 else d.breakpoint))) := by
    rw [Pdebug.stopped]
    show [0x40, 0x00, mid, 0x01] ++ (leBytes 4 (uint32 pid) ++ leBytes 4 1 ++ leBytes 8
      (if d.breakpoint.toNat = 0 then 0x4000 else d.breakpoint.toNat)) = _
    rw [hip]
    rfl
  rw [hraw]
  rfl

theorem resume_attached (t : Tool) {subcmd : UInt8} {tid : Nat}
    (hexec : t.exec serveDSMSG = awaitStop (Client.resume serveDSMSG subcmd tid)) :
    Holds (Attached pid d) (t.handler serveDSMSG) fun r q =>
      unnumbered r = .ok (d.stop pid) ∧ Attached pid d q := by
  intro q hq
  obtain ⟨⟨mid, hstop⟩, hq'⟩ := onClient_attached d.breakpoint
    (resume_atRest (uint32_lt pid) subcmd tid) q hq
  have hawait : (awaitStop (Client.resume serveDSMSG subcmd tid)).run q =
      ((.stop ⟨0x40, uint32 pid, 1, (d.agent pid).stopped mid⟩, none),
        ((onClient (Client.resume serveDSMSG subcmd tid)).run q).2) := by
    rw [awaitStop, run_bind, hstop]
    rfl
  rw [t.handler_run, hexec, hawait]
  refine ⟨?_, hq'⟩
  rw [← stop_unnumbered d pid mid]
  cases t <;> rfl

/-! ### Signals -/

theorem set_dispositions (f : Int → Bool) {signal : Int} (h : ¬ (signal < 1 ∨ numSignals < signal))
    (stop : Bool) :
    (dispositions f).set (signal - 1).toNat (entry stop) =
      dispositions (Function.update f signal stop) := by
  refine List.ext_getElem? ?_
  intro i
  rw [List.getElem?_set]
  by_cases hi : (signal - 1).toNat = i
  · subst hi
    have hlt : (signal - 1).toNat < numSignals := by omega
    have hself : ((signal - 1).toNat : Int) + 1 = signal := by omega
    rw [if_pos rfl, if_pos (by simpa [dispositions] using hlt), dispositions, List.getElem?_map,
      List.getElem?_range hlt, Option.map_some, hself, Function.update_self]
  · rw [if_neg hi, dispositions, dispositions, List.getElem?_map, List.getElem?_map]
    by_cases hlt : i < numSignals
    · have hother : (i : Int) + 1 ≠ signal := by omega
      rw [List.getElem?_range hlt, Option.map_some, Option.map_some, Function.update_of_ne hother]
    · rw [List.getElem?_eq_none (by simpa using hlt)]
      rfl

theorem signalTable_attached :
    Holds (Attached pid d) signalTable fun r q => r = dispositions d.intercepts ∧ Attached pid d q :=
  fun _ hq => ⟨hq.table, hq.client, hq.pid, hq.table⟩

theorem storeTable_attached (f : Int → Bool) :
    Holds (Attached pid d) (storeTable (dispositions f)) fun _ q =>
      Attached pid { d with intercepts := f } q :=
  fun _ hq => ⟨hq.client, hq.pid, rfl⟩

theorem handleSignal_attached {signal : Int} (h : ¬ (signal < 1 ∨ numSignals < signal)) (stop : Bool) :
    Holds (Attached pid d) (Tools.handleSignal serveDSMSG signal stop) fun r q =>
      r = (.ok, none) ∧
        Attached pid { d with intercepts := Function.update d.intercepts signal stop } q := by
  rw [Tools.handleSignal, if_neg h]
  refine signalTable_attached.bind_value ?_
  have hset := set_dispositions d.intercepts h stop
  rw [entry] at hset
  dsimp only
  rw [hset]
  refine (storeTable_attached _).bind fun _ => ?_
  exact acknowledge_attached d.breakpoint (acked_atRest (fun _ => rfl) (by decide) _)

/-! ### All of them -/

theorem field_brkBody (size : Int) (addr : UInt64) :
    field (le32 (uint32 size) ++ le64 addr) 0 4 = uint32 size ∧
      field (le32 (uint32 size) ++ le64 addr) 4 8 = addr.toNat := by
  refine ⟨leNat_take (uint32_lt size) _, ?_⟩
  rw [field, show (le32 (uint32 size) ++ le64 addr).drop 4 = le64 addr ++ [] from
    (drop_leBytes 4 _ _).trans (List.append_nil _).symm]
  exact leNat_le64 addr []

theorem setBreak_atRest (s : Pdebug) (typ : UInt8) (addr : UInt64) (size : Int) :
    Holds (AtRest s) (Client.setBreak serveDSMSG typ addr size) fun r c => r = none ∧
      AtRest { s with brkAddr := if 2 ^ 31 ≤ uint32 size then 0 else addr.toNat } c := by
  have hbrk : s.brk (le32 (uint32 size) ++ le64 addr) =
      { s with brkAddr := if 2 ^ 31 ≤ uint32 size then 0 else addr.toNat } := by
    obtain ⟨hsize, haddr⟩ := field_brkBody size addr
    rw [Pdebug.brk, if_pos (by simp [le32, le64]), hsize, haddr]
    split <;> rfl
  have hreply : Replies s cmdBrk (le32 (uint32 size) ++ le64 addr) _ 0x21 [] := fun _ => rfl
  rw [← hbrk]
  exact acked_atRest hreply (by decide) _

theorem regs_eq : Pdebug.regs = registerBlock mockRegisters := by
  have hzeros : registerBlock (List.replicate 32 0) = List.replicate 0x100 0 := by
    rw [registerBlock, List.flatMap_replicate, show le64 0 = List.replicate 8 0 from rfl,
      List.flatten_replicate_replicate]
  have hblock : registerBlock mockRegisters =
      List.replicate 0x100 0 ++ (leBytes 8 0x4000 ++ List.replicate 8 0) := by
    rw [← hzeros, mockRegisters, registerBlock, List.flatMap_append]
    rfl
  rw [Pdebug.regs, overwrite_eq, hblock, List.take_replicate, List.drop_replicate, List.length_replicate,
    List.append_assoc, List.append_assoc]
  rfl

theorem parseMapInfo_mockRecord (pid : Int) :
    parseMapInfo (mockRecord pid).bytes = [⟨0x400000, 0x1000⟩] := by
  have h := parseMapInfo_records [mockRecord pid] (show ([] : Bytes).length < 24 by decide)
  rw [List.flatMap_cons, List.flatMap_nil, List.append_nil, List.append_nil] at h
  have hplausible : 0x400000 ≠ 0 ∧ 4096 ∣ 0x400000 ∧ 0x1000 ≠ 0 ∧ 0x1000 < 2 ^ 40 := by decide
  have hsegment : (mockRecord pid).segment = some ⟨0x400000, 0x1000⟩ := if_pos hplausible
  rw [h, List.filterMap_cons_some hsegment, List.filterMap_nil]

theorem mapInfo_atRest (pid : Int) (b : Nat) :
    Holds (AtRest ⟨uint32 pid, b⟩) (Client.mapInfo serveDSMSG pid) fun r c =>
      r = ((mockRecord pid).bytes, none) ∧ AtRest ⟨uint32 pid, b⟩ c := by
  have hpid : (UInt32.ofNat (uint32 pid)).toNat = uint32 pid := by
    rw [UInt32.toNat_ofNat']
    exact Nat.mod_eq_of_lt (uint32_lt pid)
  have hreply : Replies ⟨uint32 pid, b⟩ cmdProcMap (le32 (uint32 pid)) ⟨uint32 pid, b⟩ 0x23
      (mockRecord pid).bytes := by
    intro mid
    rw [MapRecord.bytes, mockRecord, hpid]
    rfl
  exact fetched_atRest hreply (by decide) _

/-- The threads tool gets nothing from the agent, and says so without an error. -/
theorem threads_attached : Holds (Attached pid d) (Tools.threads serveDSMSG) fun r q =>
    r = (.threads pid none none, none) ∧ Attached pid d q := by
  refine getPid_attached.bind_value ?_
  refine (onClient_attached d.breakpoint (fetched_refused (fun _ => rfl) _)).bind_value ?_
  exact (onClient_attached d.breakpoint (fetched_refused (fun _ => rfl) _)).bind_value
    (.pure fun _ hq => ⟨rfl, hq⟩)

/-- A tool that takes bytes in hexadecimal. -/
theorem withHex_attached {t : Tool} {hexData : Bytes} {f : Bytes → Qnxdbg.Act (Served Pdebug) (Option Err)}
    (hexec : t.exec serveDSMSG = withHex hexData fun data => acknowledge (f data))
    (hok : t.render .ok = .ok)
    (h : ∀ data, Holds (AtRest (d.agent pid)) (f data) fun r c => r = none ∧ AtRest (d.agent pid) c) :
    Holds (Attached pid d) (t.handler serveDSMSG) fun r q =>
      unnumbered r = (if hexDecode hexData = none then .error .invalidHex else .ok .ok) ∧
        Attached pid d q := by
  cases hhex : hexDecode hexData with
  | none =>
      have hrun : Holds (Attached pid d) (t.exec serveDSMSG) fun r q =>
          r = (.zero, some .invalidHex) ∧ Attached pid d q := by
        rw [hexec, withHex, hhex]
        exact .pure fun _ hq => ⟨rfl, hq⟩
      exact (handler_attached hrun).conseq (fun _ hq => hq) fun r q h => ⟨by rw [h.1]; rfl, h.2⟩
  | some data =>
      have hrun : Holds (Attached pid d) (t.exec serveDSMSG) fun r q =>
          r = (.ok, none) ∧ Attached pid d q := by
        rw [hexec, withHex, hhex]
        exact acknowledge_attached d.breakpoint (h data)
      refine (handler_attached hrun).conseq (fun _ hq => hq) fun r q h => ⟨?_, h.2⟩
      rw [h.1, Option.elim_none, hok]
      rfl

/-- Each handler answers as the debugger does and leaves the session as it leaves the
debugger. -/
theorem handler_follows (t : Tool) :
    Holds (Attached pid d) (t.handler serveDSMSG) fun r q =>
      unnumbered r = ((Debugger.answer pid t).run d).1 ∧
        Attached pid ((Debugger.answer pid t).run d).2 q := by
  -- the outputs without a message id
  have hplain : ∀ {out : ToolOut} {e : Option ToolErr} {d' : Debugger},
      Holds (Attached pid d) (t.exec serveDSMSG) (fun r q => r = (out, e) ∧ Attached pid d' q) →
      (Debugger.answer pid t).run d = (unnumbered (e.elim (.ok (t.render out)) .error), d') →
      Holds (Attached pid d) (t.handler serveDSMSG) fun r q =>
        unnumbered r = ((Debugger.answer pid t).run d).1 ∧
          Attached pid ((Debugger.answer pid t).run d).2 q := by
    intro out e d' hexec hanswer
    rw [hanswer]
    exact (handler_attached hexec).conseq (fun _ hq => hq) fun r q h => ⟨by rw [h.1], h.2⟩
  cases t with
  | readRegisters =>
      refine hplain (fetch_attached (fetched_atRest (fun _ => rfl) (by decide) _)) ?_
      show _ = (unnumbered (.ok (.regs (hexBytes Pdebug.regs) (decodeAArch64 Pdebug.regs))), d)
      rw [regs_eq, decodeAArch64_registerBlock rfl]
      rfl
  | readMemory addr n => exact hplain (fetch_attached (readMemory_atRest _ addr n)) rfl
  | writeMemory addr hexData =>
      refine withHex_attached rfl rfl fun data => ?_
      refine (writeMemoryLoop_atRest _ addr data data.length 0).bind ?_
      exact fun r => .pure fun c hc => hc
  | cont => exact resume_attached .cont rfl
  | step => exact resume_attached .step rfl
  | breakSet addr => exact hplain (acknowledge_attached addr (setBreak_atRest _ _ addr 0)) rfl
  | breakClear addr => exact hplain (acknowledge_attached 0 (setBreak_atRest _ _ addr (-1))) rfl
  | writeRegisters offset hexData =>
      exact withHex_attached rfl rfl fun data => acked_atRest (fun _ => rfl) (by decide) _
  | selectThread tid =>
      have hrun : Holds (Attached pid d) ((Tool.selectThread tid).exec serveDSMSG) fun r q =>
          r = (.ok, none) ∧ Attached pid d q :=
        getPid_attached.bind_value
          (acknowledge_attached d.breakpoint (acked_atRest (fun _ => rfl) (by decide) _))
      exact hplain hrun rfl
  | mapinfo =>
      refine hplain (getPid_attached.bind_value (fetch_attached (mapInfo_atRest pid _))) ?_
      show _ = (unnumbered (.ok (.mapInfo (parseMapInfo (mockRecord pid).bytes) _)), d)
      rw [parseMapInfo_mockRecord]
      rfl
  | handleSignal signal stop =>
      by_cases hrange : signal < 1 ∨ numSignals < signal
      · have hexec : (Tool.handleSignal signal stop).exec serveDSMSG =
            pure (.zero, some (.signalRange signal)) := if_pos hrange
        have hrun : Holds (Attached pid d) ((Tool.handleSignal signal stop).exec serveDSMSG) fun r q =>
            r = (.zero, some (.signalRange signal)) ∧ Attached pid d q := by
          rw [hexec]
          exact .pure fun _ hq => ⟨rfl, hq⟩
        refine hplain hrun ?_
        rw [Debugger.answer, if_pos hrange]
        rfl
      · refine hplain (handleSignal_attached hrange stop) ?_
        rw [Debugger.answer, if_neg hrange]
        rfl
  | targetInfo =>
      have hrun : Holds (Attached pid d) (Tool.targetInfo.exec serveDSMSG) fun r q =>
          r = (.zero, some (.client .cpuinfo)) ∧ Attached pid d q :=
        (onClient_attached d.breakpoint (fetched_refused (fun _ => rfl) _)).bind_value
          (.pure fun _ hq => ⟨rfl, hq⟩)
      exact hplain hrun rfl
  | threads => exact hplain threads_attached rfl
  | detach =>
      have hrun : Holds (Attached pid d) (Tool.detach.exec serveDSMSG) fun r q =>
          r = (.ok, none) ∧ Attached pid d q := by
        refine getPid_attached.bind_value ?_
        refine (onClient_attached d.breakpoint (acked_atRest (fun _ => rfl) (by decide) _)).bind_value ?_
        exact .pure fun _ hq => ⟨rfl, hq⟩
      exact hplain hrun rfl

end Handlers

/-! ## Opening a session -/

/-- The process a session is opened for; a launched one gets its number from the agent. -/
def openedFor : Opening → Int
  | .attach pid => pid
  | .launch _ _ => 0x2000

theorem envEach_atRest (s : Pdebug) (sub : UInt8) (strings : List Bytes) :
    Holds (AtRest s) (Client.envEach serveDSMSG sub strings) fun r c => r = none ∧ AtRest s c := by
  induction strings with
  | nil => exact .pure fun _ hc => ⟨rfl, hc⟩
  | cons e es ih => exact (acked_atRest (fun _ => rfl) (by decide) _).bind_value ih

theorem stage_atRest (s : Pdebug) (first sub : UInt8) (strings : List Bytes) :
    Holds (AtRest s) (Client.stage serveDSMSG first sub strings) fun r c => r = none ∧ AtRest s c :=
  (acked_atRest (fun _ => rfl) (by decide) _).bind_value (envEach_atRest s sub strings)

theorem launch_atRest (s : Pdebug) (path : Bytes) (args : List Bytes) (env : Option (List Bytes)) :
    Holds (AtRest s) (Client.launch serveDSMSG path args env) fun r c =>
      r = (.launched 0x2000 1, none) ∧ AtRest { s with attachedPID := 0x2000 } c := by
  refine (stage_atRest s _ _ _).bind_value ?_
  refine (stage_atRest s _ _ _).bind_value ?_
  exact (fetched_atRest (fun _ => rfl) (by decide) _).bind_value (.pure fun _ hc => ⟨rfl, hc⟩)

theorem attach_atRest (s : Pdebug) (pid : Int) :
    Holds (AtRest s) (Client.attach serveDSMSG pid) fun r c =>
      r = none ∧ AtRest { s with attachedPID := uint32 pid } c := by
  have hfield : field (le32 (uint32 pid)) 0 4 = uint32 pid := by
    rw [field, List.drop_zero, List.take_of_length_le (by simp [le32]), leNat_le32]
  have hreply : Replies s cmdAttach (le32 (uint32 pid)) { s with attachedPID := uint32 pid } 0x23
      (List.replicate 8 0 ++ ascii "mockproc") := by
    intro mid
    show ((if 4 ≤ (le32 (uint32 pid)).length then { s with attachedPID := field _ 0 4 } else s), _) = _
    rw [if_pos (by simp [le32]), hfield]
  exact acked_atRest hreply (by decide) _

/-- Both ways of opening a session succeed, and select a thread. -/
theorem session_attached (o : Opening) {c : Client (Served Pdebug)} (hc : AtRest .start c) :
    ∃ q tid, o.session serveDSMSG c = some (q, some tid) ∧ Attached (openedFor o) .start q := by
  have hselect : ∀ (s : Pdebug) (pid tid : Int), Holds (AtRest s) (Client.select serveDSMSG pid tid)
      fun r c => r = none ∧ AtRest s c := fun _ _ _ => acked_atRest (fun _ => rfl) (by decide) _
  cases o with
  | attach pid =>
      obtain ⟨hattach, hc₁⟩ := attach_atRest .start pid c hc
      obtain ⟨hselected, hc₂⟩ := hselect _ pid 1 _ hc₁
      refine ⟨⟨_, pid, none⟩, 1, ?_, hc₂, rfl, rfl⟩
      rw [Opening.session, show (Client.attach serveDSMSG pid).run c = (none, _) from
        Prod.ext hattach rfl]
      dsimp only
      rw [show (Client.select serveDSMSG pid 1).run _ = (none, _) from Prod.ext hselected rfl]
  | launch path args =>
      obtain ⟨hlaunch, hc₁⟩ := launch_atRest .start path args none c hc
      obtain ⟨hselected, hc₂⟩ := hselect _ 0x2000 1 _ hc₁
      refine ⟨⟨_, 0x2000, none⟩, 1, ?_, hc₂, rfl, rfl⟩
      rw [Opening.session, show (Client.launch serveDSMSG path args none).run c = (_, _) from
        Prod.ext hlaunch rfl]
      dsimp only
      rw [show (Client.select serveDSMSG 0x2000 1).run _ = (none, _) from Prod.ext hselected rfl]

/-! ## Concurrent calls -/

/-- A tool call that leaves the session open. -/
abbrev DebugCall := { t : Tool // t ≠ .detach }

def DebugCall.exec (t : DebugCall) : Tools.Act (Served Pdebug) (Except ToolErr Output) :=
  t.1.handler serveDSMSG

def DebugCall.answer (pid : Int) (t : DebugCall) : StateM Debugger (Except ToolErr Output) :=
  Debugger.answer pid t.1

def breakAt : DebugCall := ⟨.breakSet 0x1234, by decide⟩

def goOn : DebugCall := ⟨.cont, by decide⟩

end QconnMcp.Mock
