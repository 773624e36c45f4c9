import QconnMcp.Debug.Calls

/-!
# Debug sessions against the mock stub

`rspHandle` of `internal/mockqnx/rsp.go`, and what a session of `internal/debug` gets
from it. The stub keeps no state, so what a call returns does not depend on the calls
before it, on the process that was attached to, or on whether packets are acknowledged
(`stub_calls`). Only `k` is for good: the stub closes the connection, and every later call
fails in its first command, at the write or, where the connection still takes that, at the
first read.
-/

namespace QconnMcp.Mock

open Kit Debug

/-! ## The handler -/

def stopText : Bytes := ascii "T05thread:1;"

/-- The registers: sixteen of eight bytes. -/
def registerText : Bytes := hexEncode ((List.range 128).map UInt8.ofNat)

/-- `n` bytes from `addr` on; each has the low byte of its address. -/
def patternBytes (addr n : Nat) : Bytes := (List.range n).map fun i => UInt8.ofNat (addr + i)

/-- An `m` packet behind its letter. -/
def memoryText (body : Bytes) : Bytes :=
  match cut 44 body with
  | none => ascii "E01"
  | some (addr, n) => hexEncode (patternBytes (parseUint 16 addr).1 (parseUint 16 n).1)

/-- `rspHandle`; `none` is `closeConn`. -/
def rspHandle (p : Bytes) : Option Bytes :=
  if p = [] then some []
  else if (ascii "qSupported").isPrefixOf p then
    some (ascii "PacketSize=4000;multiprocess+;vContSupported+;QStartNoAckMode+")
  else if p = ascii "QStartNoAckMode" then some (ascii "OK")
  else if (ascii "vAttach").isPrefixOf p then some stopText
  else if p = ascii "?" then some stopText
  else if p = ascii "c" ∨ p = ascii "s" then some stopText
  else if p = ascii "g" then some registerText
  else if (ascii "m").isPrefixOf p then some (memoryText (p.drop 1))
  else if (ascii "M").isPrefixOf p then some (ascii "OK")
  else if (ascii "Z").isPrefixOf p ∨ (ascii "z").isPrefixOf p then some (ascii "OK")
  else if p = ascii "qfThreadInfo" then some (ascii "m1")
  else if p = ascii "qsThreadInfo" then some (ascii "l")
  else if (ascii "Hg").isPrefixOf p ∨ (ascii "Hc").isPrefixOf p then some (ascii "OK")
  else if p = ascii "D" then some (ascii "OK")
  else if p = ascii "k" then none
  else some []

theorem eq_none_of_ite {c : Prop} [Decidable c] {a : Bytes} {x : Option Bytes}
    (h : (if c then some a else x) = none) : x = none := by
  split at h
  · cases h
  · exact h

/-- Every other payload gets a reply. -/
theorem rspHandle_eq_none {p : Bytes} (h : rspHandle p = none) : p = ascii "k" := by
  rw [rspHandle] at h
  repeat replace h := eq_none_of_ite h
  by_contra hk
  rw [if_neg hk] at h
  cases h

/-- The stub behind a connection that, once closed, takes the writes that `lingers` says. -/
def stub (lingers : Bytes → Bool) : Peer (Served RspStub) := (handleRSP rspHandle lingers).toPeer

/-- What the stub does with the payloads it has got so far and one more. -/
def record (log : List Bytes) (p : Bytes) : List Bytes × Bytes :=
  (log ++ [p], (rspHandle p).getD [])

theorem stub_serves (lingers : Bytes → Bool) :
    Serves (handleRSP rspHandle lingers) record fun log s => s = ⟨true, log⟩ where
  isOpen := by
    rintro log s rfl
    rfl
  handle := by
    rintro log s p hp rfl
    cases hresp : rspHandle p with
    | none => exact absurd (rspHandle_eq_none hresp) hp
    | some resp => simp [handleRSP, rspDecode_escape, hresp, record, rspWrite_eq_frame]

/-! ## The payloads of a session -/

theorem rspHandle_attachCmd (pid : Int) : rspHandle (Session.attachCmd pid) = some stopText := by
  rfl

theorem rspHandle_writeMemoryCmd (addr : UInt64) (data : Bytes) :
    rspHandle (Session.writeMemoryCmd addr data) = some (ascii "OK") := by
  rfl

theorem rspHandle_breakpointCmd {letter : String} (hl : letter = "Z" ∨ letter = "z") (addr : UInt64)
    (kind kindBytes : Int) :
    rspHandle (Session.breakpointCmd letter addr kind kindBytes) = some (ascii "OK") := by
  rcases hl with rfl | rfl <;> rfl

/-- The number of bytes is read back; a negative one is no number, and gets nothing. -/
theorem parseUint_fmtInt {length : Int} (h : length < 2 ^ 63) :
    (parseUint 16 (fmtInt 16 length)).1 = length.toNat := by
  rcases lt_or_ge length 0 with hneg | hpos
  · rw [fmtInt, if_pos hneg]
    have hdash : digitVal 45 = none := by decide
    simp [parseUint, parseUintFrom, hdash, Int.toNat_of_nonpos hneg.le]
  · rw [fmtInt_of_nonneg hpos, parseUint_fmtNat (by decide) (by decide) (by omega)]

theorem rspHandle_readMemoryCmd (addr : UInt64) {length : Int} (h : length < 2 ^ 63) :
    rspHandle (Session.readMemoryCmd addr length) =
      some (hexEncode (patternBytes addr.toNat length.toNat)) := by
  have hcomma : (44 : UInt8) ∉ fmtNat 16 addr.toNat := by
    intro hmem
    have hdigit := forall_mem_fmtNat (by decide) (by decide) _ hmem
    revert hdigit
    decide
  have hcmd : Session.readMemoryCmd addr length =
      ascii "m" ++ (fmtNat 16 addr.toNat ++ 44 :: fmtInt 16 length) := by
    simp [Session.readMemoryCmd, ascii]
  have hhandle : rspHandle (Session.readMemoryCmd addr length) =
      some (memoryText ((Session.readMemoryCmd addr length).drop 1)) := rfl
  have haddr := parseUint_fmtNat (show 1 < 16 by decide) (by decide) addr.toNat_lt
  rw [hhandle, hcmd]
  show some (memoryText (fmtNat 16 addr.toNat ++ 44 :: fmtInt 16 length)) = _
  rw [memoryText, cut_append hcomma]
  simp only [haddr, parseUint_fmtInt h]

/-! ## Calls -/

/-- What the stub's stop reply says. -/
def stopped : StopReply := ⟨5, ascii "1", AList.singleton (ascii "thread") (ascii "1"), stopText⟩

/-- What each call returns. -/
def stubAnswer : Call → Value
  | .attach _ | .status | .cont | .step => .stop (.ok stopped)
  | .readRegisters => .registers (.ok registerText)
  | .readMemory addr length => .memory (.ok (patternBytes addr.toNat length.toNat))
  | .listThreads _ => .threads (some ([ascii "1"], none))
  | .detach | .writeMemory .. | .setBreakpoint .. | .clearBreakpoint .. | .enableNoAck => .done none

/-- The payloads it sends. -/
def stubRequests : Call → List Bytes
  | .attach pid => [Session.attachCmd pid]
  | .status => [ascii "?"]
  | .cont => [ascii "c"]
  | .step => [ascii "s"]
  | .detach => [ascii "D"]
  | .readRegisters => [ascii "g"]
  | .readMemory addr length => [Session.readMemoryCmd addr length]
  | .writeMemory addr data => [Session.writeMemoryCmd addr data]
  | .setBreakpoint addr kind kindBytes => [Session.breakpointCmd "Z" addr kind kindBytes]
  | .clearBreakpoint addr kind kindBytes => [Session.breakpointCmd "z" addr kind kindBytes]
  | .listThreads _ => [ascii "qfThreadInfo", ascii "qsThreadInfo"]
  | .enableNoAck => [RSP.noAckCmd]

/-- The length is an `int`, and the loop over the threads is given the two rounds it
takes. -/
def Fits : Call → Prop
  | .readMemory _ length => length < 2 ^ 63
  | .listThreads fuel => 2 ≤ fuel
  | _ => True

/-- The stub has got these payloads. -/
def Logged (log : List Bytes) (d : Direct (List Bytes)) : Prop := d.target = log

theorem ask_logged {p resp : Bytes} (h : rspHandle p = some resp) (log : List Bytes) :
    Holds (Logged log) (Direct.ask record p) (fun r d => r = resp ∧ Logged (log ++ [p]) d) := by
  rintro d rfl
  exact ⟨by show (rspHandle p).getD [] = resp; rw [h]; rfl, rfl⟩

theorem stopResult_stopText : stopResult stopText = .ok stopped := rfl

theorem askStop_logged {p : Bytes} (h : rspHandle p = some stopText) (log : List Bytes) :
    Holds (Logged log) (Direct.askStop record p)
      (fun v d => v = .stop (.ok stopped) ∧ Logged (log ++ [p]) d) :=
  (ask_logged h log).bind_value (.pure fun _ hd => ⟨congrArg Value.stop stopResult_stopText, hd⟩)

theorem askOk_logged {p : Bytes} (h : rspHandle p = some (ascii "OK")) (err : Bytes → CallErr)
    (log : List Bytes) :
    Holds (Logged log) (Direct.askOk record p err)
      (fun v d => v = .done none ∧ Logged (log ++ [p]) d) := by
  refine (ask_logged h log).bind_value ?_
  simp only [ne_eq, not_true_eq_false, if_false]
  exact .pure fun _ hd => ⟨rfl, hd⟩

/-- An error has three bytes, and pairs of digits are even. -/
theorem isError_hexEncode (data : Bytes) : isError (hexEncode data) = false := by
  have heven := length_hexEncode data
  rw [isError, Bool.and_eq_false_iff]
  exact .inl (by rw [heven, beq_eq_false_iff_ne]; omega)

/-- One thread, and the end of the list. -/
theorem threadsLoop_logged (fuel : Nat) (log : List Bytes) :
    Holds (Logged log) (Direct.threadsLoop record (fuel + 2) (ascii "m1") [])
      (fun r d => r = some ([ascii "1"], none) ∧ Logged (log ++ [ascii "qsThreadInfo"]) d) := by
  have hmore : Session.isLast (ascii "m1") = false := rfl
  have hlast : Session.isLast (ascii "l") = true := rfl
  have hids : [] ++ Session.threadIds (ascii "m1") = [ascii "1"] := rfl
  have hnext : rspHandle (ascii "qsThreadInfo") = some (ascii "l") := rfl
  rw [Direct.threadsLoop, hmore, if_neg Bool.false_ne_true]
  refine (ask_logged hnext log).bind_value ?_
  rw [Direct.threadsLoop, hlast, if_pos rfl, hids]
  exact .pure fun _ hd => ⟨rfl, hd⟩

theorem spec_logged {c : Call} (hc : Fits c) (log : List Bytes) :
    Holds (Logged log) (c.spec record) (fun v d => v = stubAnswer c ∧ Logged (log ++ stubRequests c) d) := by
  cases c with
  | attach pid =>
      have hplain : ¬ (isError stopText = true ∨ stopText = []) :=
        fun h => h.elim Bool.false_ne_true (List.cons_ne_nil _ _)
      refine (ask_logged (rspHandle_attachCmd pid) log).bind_value ?_
      simp only [hplain, if_false]
      exact fun _ hd => ⟨congrArg Value.stop stopResult_stopText, hd⟩
  | status | cont | step => exact askStop_logged rfl log
  | detach =>
      have hok : rspHandle (ascii "D") = some (ascii "OK") := rfl
      refine (ask_logged hok log).bind_value ?_
      exact fun _ hd => ⟨rfl, hd⟩
  | readRegisters =>
      refine (ask_logged rfl log).bind_value ?_
      rw [registerText, isError_hexEncode]
      exact .pure fun _ hd => ⟨rfl, hd⟩
  | readMemory addr length =>
      refine (ask_logged (rspHandle_readMemoryCmd addr hc) log).bind_value ?_
      rw [isError_hexEncode, hexDecode_hexEncode]
      exact .pure fun _ hd => ⟨rfl, hd⟩
  | writeMemory addr data => exact askOk_logged (rspHandle_writeMemoryCmd addr data) _ log
  | setBreakpoint addr kind kindBytes =>
      exact askOk_logged (rspHandle_breakpointCmd (.inl rfl) addr kind kindBytes) _ log
  | clearBreakpoint addr kind kindBytes =>
      exact askOk_logged (rspHandle_breakpointCmd (.inr rfl) addr kind kindBytes) _ log
  | listThreads fuel =>
      have hfuel : 2 ≤ fuel := hc
      obtain ⟨n, rfl⟩ := Nat.exists_eq_add_of_le' hfuel
      have hfirst : rspHandle (ascii "qfThreadInfo") = some (ascii "m1") := rfl
      refine (ask_logged hfirst log).bind_value ?_
      intro d hd
      obtain ⟨hval, hlog⟩ := threadsLoop_logged n _ d hd
      exact ⟨congrArg Value.threads hval, Eq.trans hlog (List.append_assoc _ _ _)⟩
  | enableNoAck =>
      have hok : rspHandle RSP.noAckCmd = some (ascii "OK") := rfl
      refine (ask_logged hok log).bind_value ?_
      exact .pure fun _ hd => ⟨rfl, hd⟩

theorem sequentially_logged {cs : List Call} (hcs : ∀ c ∈ cs, Fits c) (log : List Bytes) :
    Holds (Logged log) (sequentially (Call.spec record) cs)
      (fun vs d => vs = cs.map stubAnswer ∧ Logged (log ++ cs.flatMap stubRequests) d) := by
  induction cs generalizing log with
  | nil => exact .pure fun _ hd => ⟨rfl, by simpa using hd⟩
  | cons c cs ih =>
      refine (spec_logged (hcs c List.mem_cons_self) log).bind_value ?_
      refine (ih (fun x hx => hcs x (List.mem_cons_of_mem c hx)) _).bind_value ?_
      exact .pure fun _ hd => ⟨rfl, by simpa [List.append_assoc] using hd⟩

/-! ## The end of a session -/

/-- What a call returns when its first command fails. -/
def refused (e : Err) : Call → Value
  | .attach _ | .status | .cont | .step => .stop (.error (.rsp e))
  | .readRegisters => .registers (.error (.rsp e))
  | .readMemory .. => .memory (.error (.rsp e))
  | .listThreads _ => .threads (some ([], some (.rsp e)))
  | .detach | .writeMemory .. | .setBreakpoint .. | .clearBreakpoint .. | .enableNoAck =>
      .done (some (.rsp e))

/-- The stub has closed the connection, and nothing unread is what a reader looks for. -/
structure Closed (r : RSP (Served RspStub)) : Prop where
  isOpen : r.peer.state.isOpen = false
  fin : r.fin = .eof
  packets : Packet.start ∉ r.inp
  acks : r.noAck = false → r.inp = []

/-- The errors of a command on a closed connection: the write fails, or the first read
behind it. -/
def Gone (e : Err) : Prop := e = .write .closed ∨ e = .read .eof

variable {lingers : Bytes → Bool}

theorem write_closed (b : Bytes) :
    Holds Closed (RSP.write (stub lingers) b)
      (fun res r => (res = none ∨ res = some .closed) ∧ Closed r) := by
  rintro ⟨inp, fin, ⟨state, pending⟩, noAck⟩ hr
  have hopen : state.isOpen = false := hr.isOpen
  have hfin : (stub lingers).fin ⟨state, pending ++ b⟩ = .eof := if_neg (by simp [handleRSP, hopen])
  have hrecv : (stub lingers).recv ⟨state, pending⟩ b =
      if lingers pending then some (⟨state, pending ++ b⟩, []) else none :=
    if_neg (by simp [handleRSP, hopen])
  cases htaken : lingers pending with
  | true =>
      have hrun : (RSP.write (stub lingers) b).run ⟨inp, fin, ⟨state, pending⟩, noAck⟩ =
          (none, ⟨inp ++ [], (stub lingers).fin ⟨state, pending ++ b⟩, ⟨state, pending ++ b⟩, noAck⟩) := by
        show RSP.write (stub lingers) b _ = _
        rw [RSP.write, hrecv, htaken, if_pos rfl]
      rw [hrun, List.append_nil]
      exact ⟨.inl rfl, hopen, hfin, hr.packets, hr.acks⟩
  | false =>
      have hrun : (RSP.write (stub lingers) b).run ⟨inp, fin, ⟨state, pending⟩, noAck⟩ =
          (some .closed, ⟨inp, fin, ⟨state, pending⟩, noAck⟩) := by
        show RSP.write (stub lingers) b _ = _
        rw [RSP.write, hrecv, htaken, if_neg Bool.false_ne_true]
      rw [hrun]
      exact ⟨.inr rfl, hr⟩

theorem readAck_closed :
    Holds (fun r => Closed r ∧ r.noAck = false) RSP.readAck
      (fun res r => res = .error .eof ∧ Closed r) := by
  rintro ⟨inp, fin, peer, noAck⟩ ⟨hr, hmode⟩
  obtain rfl : inp = [] := hr.acks hmode
  exact ⟨congrArg Except.error hr.fin, hr⟩

theorem readPacket_closed :
    Holds Closed (RSP.readPacket (stub lingers))
      (fun res r => res = .error (.read .eof) ∧ Closed r) := by
  rintro ⟨inp, fin, peer, noAck⟩ hr
  have hnone : Packet.next inp = none := by
    cases hnext : Packet.next inp with
    | none => rfl
    | some p =>
        obtain ⟨noise, -, -, rfl⟩ := Packet.next_some hnext
        exact absurd (by simp [Packet.wire]) hr.packets
  have hrun : (RSP.nextPacket (σ := Served RspStub)).run ⟨inp, fin, peer, noAck⟩ =
      (.error fin, ⟨[], fin, peer, noAck⟩) := by
    show RSP.nextPacket _ = _
    rw [RSP.nextPacket, hnone]
  rw [RSP.readPacket, run_bind, hrun]
  exact ⟨congrArg (fun e => Except.error (Err.read e)) hr.fin, hr.isOpen, hr.fin, List.not_mem_nil,
    fun _ => rfl⟩

/-- Without acknowledgements a packet is sent as soon as it is written. -/
theorem sendPacket_closed (p : Bytes) :
    Holds Closed (RSP.sendPacket (stub lingers) p)
      (fun res r => (res = none ∨ ∃ e, Gone e ∧ res = some e) ∧ Closed r) := by
  rw [RSP.sendPacket, RSP.sendAttempts]
  refine (write_closed (frame p)).bind ?_
  rintro (_ | e)
  · rintro r ⟨-, hr⟩
    cases hmode : r.noAck with
    | true =>
        rw [run_bind, show (RSP.isNoAck.run r) = (true, r) from Prod.ext hmode rfl]
        exact ⟨.inl rfl, hr⟩
    | false =>
        obtain ⟨hread, hclosed⟩ := readAck_closed r ⟨hr, hmode⟩
        rw [run_bind, show (RSP.isNoAck.run r) = (false, r) from Prod.ext hmode rfl]
        simp only [Bool.false_eq_true, if_false, run_bind, hread]
        exact ⟨.inr ⟨_, .inr rfl, rfl⟩, hclosed⟩
  · rintro r ⟨h, hr⟩
    obtain rfl : e = .closed := by simpa using h
    exact ⟨.inr ⟨_, .inl rfl, rfl⟩, hr⟩

theorem command_closed (p : Bytes) :
    Holds Closed (RSP.command (stub lingers) p)
      (fun res r => (∃ e, Gone e ∧ res = .error e) ∧ Closed r) := by
  rw [RSP.command]
  refine (sendPacket_closed p).bind ?_
  rintro (_ | e)
  · exact readPacket_closed.conseq (fun _ h => h.2) fun _ _ h => ⟨⟨_, .inr rfl, h.1⟩, h.2⟩
  · rintro r ⟨h, hr⟩
    obtain ⟨e', hgone, heq⟩ := h.resolve_left (Option.some_ne_none e)
    obtain rfl := Option.some.inj heq
    exact ⟨⟨e, hgone, rfl⟩, hr⟩

/-- What a call on a closed connection returns. -/
def Refused (c : Call) (v : Value) : Prop := ∃ e, Gone e ∧ v = refused e c

/-- A call that starts with a command goes no further. -/
theorem bind_closed {α : Type} {c : Call} {p : Bytes}
    {f : Except Err Bytes → SessionAct (Served RspStub) α} {a : Err → α} {g : α → Value}
    (hf : ∀ e, f (.error e) = pure (a e)) (hg : ∀ e, g (a e) = refused e c) :
    Holds (fun s => Closed s.rsp) (g <$> (Session.command (stub lingers) p >>= f))
      (fun v s => Refused c v ∧ Closed s.rsp) := by
  rw [map_bind]
  intro s hs
  obtain ⟨⟨e, hgone, hres⟩, hclosed⟩ := @command_closed lingers p s.rsp hs
  have hval : ((Session.command (stub lingers) p).run s).1 = .error e := hres
  rw [run_bind, hval, hf]
  exact ⟨⟨e, hgone, hg e⟩, hclosed⟩

theorem exec_closed (c : Call) :
    Holds (fun s => Closed s.rsp) (c.exec (stub lingers))
      (fun v s => Refused c v ∧ Closed s.rsp) := by
  cases c with
  | attach | status | cont | step | detach | readRegisters | readMemory | writeMemory
  | setBreakpoint | clearBreakpoint | listThreads => exact bind_closed (fun _ => rfl) fun _ => rfl
  | enableNoAck =>
      have hmode : Holds Closed (RSP.enableNoAck (stub lingers))
          (fun res r => (∃ e, Gone e ∧ res = some e) ∧ Closed r) := by
        refine (command_closed RSP.noAckCmd).bind ?_
        rintro res r ⟨⟨e, hgone, rfl⟩, hr⟩
        exact ⟨⟨e, hgone, rfl⟩, hr⟩
      intro s hs
      obtain ⟨⟨e, hgone, hres⟩, hclosed⟩ := hmode s.rsp hs
      have hval : ((Session.enableNoAck (stub lingers)).run s).1 = some (.rsp e) :=
        congrArg (Option.map CallErr.rsp) hres
      exact ⟨⟨e, hgone, congrArg Value.done hval⟩, hclosed⟩

theorem sequentially_closed (cs : List Call) :
    Holds (fun s => Closed s.rsp) (sequentially (Call.exec (stub lingers)) cs)
      (fun vs _ => List.Forall₂ Refused cs vs) := by
  induction cs with
  | nil => exact .pure fun _ _ => .nil
  | cons c cs ih =>
      refine (exec_closed c).bind ?_
      rintro v s ⟨hv, hs⟩
      exact .cons hv (ih s hs)

/-- `k` is acknowledged like any packet, and then the connection is closed. -/
theorem killInferior_closes (log : List Bytes) :
    Holds (fun s => Quiet (fun log s => s = ⟨true, log⟩) log s.rsp)
      (Session.killInferior (stub lingers)) (fun e s => e = none ∧ Closed s.rsp) := by
  rintro ⟨⟨inp, fin, ⟨state, pending⟩, noAck⟩, pid⟩ hs
  obtain ⟨rfl, rfl, rfl⟩ : inp = [] ∧ pending = [] ∧ state = ⟨true, log⟩ :=
    ⟨hs.inp, hs.pending, hs.stub⟩
  have hrecv : (stub lingers).recv ⟨⟨true, log⟩, []⟩ (frame (ascii "k")) =
      some (⟨⟨false, log ++ [ascii "k"]⟩, []⟩, [Packet.ack]) := by
    have hk : rspHandle (ascii "k") = none := rfl
    rw [frame, stub, PacketDaemon.recv_packet rfl (escape_framed _)]
    simp only [handleRSP, rspDecode_escape, hk]
  cases noAck with
  | false =>
      have hsend := RSP.sendPacket_acked (P := stub lingers) (r := ⟨[], fin, ⟨⟨true, log⟩, []⟩, false⟩)
        [] rfl hrecv (fun _ hx => absurd hx List.not_mem_nil) rfl
      refine ⟨congrArg Prod.fst hsend, ?_⟩
      show Closed ((RSP.sendPacket (stub lingers) (ascii "k")).run _).2
      rw [hsend]
      exact ⟨rfl, rfl, List.not_mem_nil, fun _ => rfl⟩
  | true =>
      have hsend := RSP.sendPacket_noAck (P := stub lingers) (r := ⟨[], fin, ⟨⟨true, log⟩, []⟩, true⟩)
        rfl hrecv
      refine ⟨congrArg Prod.fst hsend, ?_⟩
      show Closed ((RSP.sendPacket (stub lingers) (ascii "k")).run _).2
      rw [hsend]
      have hack : Packet.start ∉ [Packet.ack] := by decide
      exact ⟨rfl, rfl, hack, fun h => absurd h.symm Bool.false_ne_true⟩

/-- A session that has exchanged features, on a connection that may linger. -/
def started (lingers : Bytes → Bool) : Session (Served RspStub) :=
  Session.newSession (stub lingers) (RSP.new (stub lingers) ⟨⟨true, []⟩, []⟩)

/-- The exchange of features is a command like any other. -/
theorem started_quiet :
    Quiet (fun log s => s = ⟨true, log⟩) [Session.supportedCmd] (started lingers).rsp := by
  have hsupported : Session.supportedCmd ≠ ascii "k" :=
    fun h => absurd (congrArg List.head? h) (by decide)
  have hstart : Quiet (fun log s => s = ⟨true, log⟩) [] (RSP.new (stub lingers) ⟨⟨true, []⟩, []⟩) :=
    ⟨rfl, rfl, rfl⟩
  rw [started]
  generalize RSP.new (stub lingers) ⟨⟨true, []⟩, []⟩ = r at hstart
  exact ((stub_serves lingers).command [] hsupported r hstart).2

/-- **A session against the stub.** Whatever calls are made in whatever order, each returns
what `stubAnswer` says and sends what `stubRequests` says, also behind a switch to no-ack mode, and
nothing is left unread. Behind a kill, which succeeds, every call reports an error, whichever
writes the closed connection still takes. -/
theorem stub_calls (lingers : Bytes → Bool) {cs : List Call} (hcs : ∀ c ∈ cs, Fits c)
    (later : List Call) :
    let out := (sequentially (Call.exec (stub lingers)) cs).run (started lingers)
    let killed := (Session.killInferior (stub lingers)).run out.2
    out.1 = cs.map stubAnswer ∧
      out.2.rsp.peer.state.log = Session.supportedCmd :: cs.flatMap stubRequests ∧
      out.2.rsp.inp = [] ∧ killed.1 = none ∧
      List.Forall₂ Refused later ((sequentially (Call.exec (stub lingers)) later).run killed.2).1 := by
  intro out killed
  -- over packets the calls do what they do without them
  obtain ⟨hvalues, htracks⟩ := (stub_serves lingers).answering.sequentially cs (started lingers)
    ⟨[Session.supportedCmd], 0⟩ ⟨started_quiet, rfl⟩
  obtain ⟨hanswers, hlog⟩ := sequentially_logged hcs [Session.supportedCmd] ⟨[Session.supportedCmd], 0⟩ rfl
  have hquiet := htracks.stub
  rw [hlog] at hquiet
  obtain ⟨hkilled, hclosed⟩ := killInferior_closes _ out.2 hquiet
  exact ⟨hvalues.trans hanswers, congrArg RspStub.log hquiet.stub, hquiet.inp, hkilled,
    sequentially_closed later killed.2 hclosed⟩

/-- Four bytes across the end of the low byte, without acknowledgements; behind the kill the
connection takes one write. -/
theorem stub_calls_memory :
    let cs := [Call.enableNoAck, .readMemory 0xfe 4, .listThreads 2]
    let later := [Call.status, .readRegisters]
    let out := (sequentially (Call.exec (stub List.isEmpty)) cs).run (started List.isEmpty)
    let killed := (Session.killInferior (stub List.isEmpty)).run out.2
    (∀ c ∈ cs, Fits c) ∧
      out.1 = [.done none, .memory (.ok [0xfe, 0xff, 0, 1]), .threads (some ([ascii "1"], none))] ∧
      killed.1 = none ∧
      List.Forall₂ Refused later
        ((sequentially (Call.exec (stub List.isEmpty)) later).run killed.2).1 := by
  intro cs later out killed
  have hcs : ∀ c ∈ cs, Fits c := by simp [cs, Fits]
  have h := stub_calls List.isEmpty hcs later
  exact ⟨hcs, h.1, h.2.2.2⟩

end QconnMcp.Mock
