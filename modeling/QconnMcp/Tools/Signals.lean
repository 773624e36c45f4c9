import QconnMcp.Kit.Run
import QconnMcp.Qnxdbg.Exchange
import QconnMcp.Tools.Debug

/-!
# The signal table of a session

`qconn_debug_handle_signal` writes the entry into the session's table, sends the
whole table, and leaves the entry written when the exchange fails. So the session
and the target agree after every call of a run exactly when each call either gets
through or asks for what the table says already (`tables_agree_iff`).
-/

namespace QconnMcp.Tools

open Kit Qnxdbg QnxSession

/-! ## Targets that take tables -/

/-- The payload that carries a table. -/
def tableRequest (mid : UInt8) (tbl : Bytes) : Bytes := message cmdHandlesig 0 mid tbl

/-- From every state with `I`, an exchange fails in transport without reaching the
target, or is refused, or the target accepts the table. `accepted` is the last
table it accepted. -/
def TakesTables {σ : Type} (P : Peer σ) (I : σ → Prop) (accepted : σ → Option Bytes) : Prop :=
  ∀ s mid tbl, I s → tbl.length = numSignals →
    P.recv s (frame (tableRequest mid tbl)) = none ∨
      ∃ t fs, P.recv s (frame (tableRequest mid tbl)) = some (t, fs.flatMap frame) ∧ I t ∧
        (debugFrames fs = [] ∧ accepted t = accepted s ∨
          ∃ reply, debugFrames fs = [reply] ∧
            accepted t = if respCode reply = respErr then accepted s else some tbl)

/-- In this state the target accepts the request. -/
def Accepts {σ : Type} (P : Peer σ) (s : σ) (request : Bytes) : Prop :=
  ∃ t fs reply, P.recv s (frame request) = some (t, fs.flatMap frame) ∧ debugFrames fs = [reply] ∧
    respCode reply ≠ respErr

section

variable {σ : Type} {P : Peer σ} {I : σ → Prop} {accepted : σ → Option Bytes}

theorem sigBody_of_length {tbl : Bytes} (h : tbl.length = numSignals) : sigBody tbl = tbl := by
  rw [sigBody, ← h, List.take_left]

/-- What the target accepts is settled by the frames it sends. -/
theorem accepts_iff {s t : σ} {request reply : Bytes} {fs : List Bytes}
    (hrecv : P.recv s (frame request) = some (t, fs.flatMap frame))
    (hfs : debugFrames fs = [reply]) : Accepts P s request ↔ respCode reply ≠ respErr := by
  refine ⟨?_, fun hcode => ⟨t, fs, reply, hrecv, hfs, hcode⟩⟩
  rintro ⟨t', fs', reply', hrecv', hfs', hcode⟩
  rw [hrecv, Option.some.injEq, Prod.mk.injEq] at hrecv'
  rw [← flatMap_frame_injective hrecv'.2, hfs, List.cons.injEq] at hfs'
  rw [hfs'.1]
  exact hcode

theorem not_accepts_of_no_reply {s t : σ} {request : Bytes} {fs : List Bytes}
    (hrecv : P.recv s (frame request) = some (t, fs.flatMap frame)) (hfs : debugFrames fs = []) :
    ¬ Accepts P s request := by
  rintro ⟨t', fs', reply', hrecv', hfs', -⟩
  rw [hrecv, Option.some.injEq, Prod.mk.injEq] at hrecv'
  rw [← flatMap_frame_injective hrecv'.2, hfs] at hfs'
  exact absurd hfs' (by simp)

theorem not_accepts_of_refused {s : σ} {request : Bytes} (h : P.recv s (frame request) = none) :
    ¬ Accepts P s request := by
  rintro ⟨t, fs, reply, hrecv, -⟩
  rw [h] at hrecv
  exact absurd hrecv (by simp)

/-- What sending a table comes to: the target has it, or what it had before. -/
theorem handleSig_run (hP : TakesTables P I accepted) {tbl : Bytes} (htbl : tbl.length = numSignals)
    {c : Client σ} (hc : Idle I c) :
    ∃ e c', (Client.handleSig P tbl).run c = (e, c') ∧ Idle I c' ∧
      (Accepts P c.peer (tableRequest (c.mid + 1) tbl) ∧ accepted c'.peer = some tbl ∨
        ¬ Accepts P c.peer (tableRequest (c.mid + 1) tbl) ∧
          accepted c'.peer = accepted c.peer) := by
  obtain ⟨us, hus, hinp⟩ := hc.unread
  rw [Client.handleSig, sigBody_of_length htbl]
  rcases hP c.peer (c.mid + 1) tbl hc.idle htbl with
    hnone | ⟨t, fs, hrecv, hI, ⟨hfs, hacc⟩ | ⟨reply, hfs, hacc⟩⟩
  · exact ⟨_, _, Client.acked_failed (Client.transactSub_refused hnone),
      ⟨⟨us, hus, hinp⟩, hc.idle⟩, .inr ⟨not_accepts_of_refused hnone, rfl⟩⟩
  · obtain ⟨out, hsub⟩ := Client.transactSub_unanswered hinp hus hrecv hfs
    exact ⟨_, _, Client.acked_failed hsub, ⟨⟨[], rfl, rfl⟩, hI⟩,
      .inr ⟨not_accepts_of_no_reply hrecv hfs, hacc⟩⟩
  · obtain ⟨gs, out, hsub, hgs⟩ := Client.transactSub_answered hinp hus hrecv hfs
    refine ⟨_, _, Client.acked_replied hsub, ⟨⟨gs, hgs, rfl⟩, hI⟩, ?_⟩
    rw [accepts_iff hrecv hfs]
    by_cases hcode : respCode reply = respErr
    · rw [if_pos hcode] at hacc
      exact .inr ⟨not_not.mpr hcode, hacc⟩
    · rw [if_neg hcode] at hacc
      exact .inl ⟨hcode, hacc⟩

/-! ## One call -/

/-- The session and the target agree on the table. -/
def Agree (accepted : σ → Option Bytes) (q : QnxSession σ) : Prop :=
  q.table = (accepted q.client.peer).getD interceptAll

/-- Between two calls. -/
structure Steady (I : σ → Prop) (accepted : σ → Option Bytes) (q : QnxSession σ) : Prop where
  idle : Idle I q.client
  size : q.table.length = numSignals
  agree : Agree accepted q

/-- The value that a call asks for. -/
def entry (stop : Bool) : UInt8 := if stop then 1 else 0

/-- The signal is out of range, the target accepts the table with the new entry,
or the entry is there already. -/
def Harmless (P : Peer σ) (q : QnxSession σ) (call : Int × Bool) : Prop :=
  (call.1 < 1 ∨ numSignals < call.1) ∨
    Accepts P q.client.peer (tableRequest (q.client.mid + 1)
      (q.table.set (call.1 - 1).toNat (entry call.2))) ∨
    q.table[(call.1 - 1).toNat]? = some (entry call.2)

/-- The session behind a call. -/
def signalStep (P : Peer σ) (q : QnxSession σ) (call : Int × Bool) : Option (QnxSession σ) :=
  some ((handleSignal P call.1 call.2).run q).2

theorem handleSignal_out_of_range {signal : Int} (h : signal < 1 ∨ numSignals < signal)
    (stop : Bool) (q : QnxSession σ) : ((handleSignal P signal stop).run q).2 = q := by
  rw [handleSignal, if_pos h]
  rfl

theorem handleSignal_in_range {signal : Int} (h : ¬ (signal < 1 ∨ numSignals < signal))
    (stop : Bool) (q : QnxSession σ) :
    ((handleSignal P signal stop).run q).2 =
      { q with
        client := ((Client.handleSig P (q.table.set (signal - 1).toNat (entry stop))).run q.client).2
        sigTable := some (q.table.set (signal - 1).toNat (entry stop)) } := by
  rw [handleSignal, if_neg h, run_bind]
  show ((storeTable (q.table.set (signal - 1).toNat (entry stop)) >>= fun _ =>
    acknowledge (Client.handleSig P (q.table.set (signal - 1).toNat (entry stop)))).run
      { q with sigTable := some q.table }).2 = _
  rw [run_bind, acknowledge_run]
  rfl

theorem set_eq_self_iff {l : Bytes} {i : Nat} (hi : i < l.length) (v : UInt8) :
    l.set i v = l ↔ l[i]? = some v := by
  refine ⟨?_, ?_⟩
  · intro h
    rw [← h]
    exact List.getElem?_set_self hi
  · intro h
    obtain ⟨hi, rfl⟩ := List.getElem?_eq_some_iff.mp h
    exact List.set_getElem_self hi

/-- What a call leaves of a steady session: the idle client, a whole table, and
agreement exactly when the call was harmless. -/
theorem handleSignal_steady (hP : TakesTables P I accepted) {q : QnxSession σ}
    (hq : Steady I accepted q) (call : Int × Bool) :
    Idle I ((handleSignal P call.1 call.2).run q).2.client ∧
      ((handleSignal P call.1 call.2).run q).2.table.length = numSignals ∧
      (Agree accepted ((handleSignal P call.1 call.2).run q).2 ↔ Harmless P q call) := by
  obtain ⟨signal, stop⟩ := call
  by_cases hrange : signal < 1 ∨ numSignals < signal
  · rw [handleSignal_out_of_range hrange]
    exact ⟨hq.idle, hq.size, fun _ => .inl hrange, fun _ => hq.agree⟩
  · have hsize : (q.table.set (signal - 1).toNat (entry stop)).length = numSignals := by
      rw [List.length_set, hq.size]
    have hi : (signal - 1).toNat < q.table.length := by
      rw [hq.size]
      omega
    obtain ⟨e, c', hrun, hidle, hacc⟩ := handleSig_run hP hsize hq.idle
    rw [handleSignal_in_range hrange, hrun]
    refine ⟨hidle, hsize, ?_⟩
    show q.table.set (signal - 1).toNat (entry stop) = (accepted c'.peer).getD interceptAll ↔ _
    rcases hacc with ⟨htakes, hacc⟩ | ⟨hnot, hacc⟩
    · rw [hacc]
      exact ⟨fun _ => .inr (.inl htakes), fun _ => rfl⟩
    · -- the target has what it had, which is the table before the call
      rw [hacc, ← hq.agree, set_eq_self_iff hi]
      refine ⟨fun h => .inr (.inr h), ?_⟩
      rintro (h | h | h)
      · exact absurd h hrange
      · exact absurd h hnot
      · exact h

/-! ## Runs -/

/-- **When the tables agree.** In a run of calls on a session, the session's table
is the last one the target accepted (every signal intercepted before it accepts
any) after each call, exactly when each call is harmless: it names no signal, the
target accepts it, or it asks for what the table says already. -/
theorem tables_agree_iff (hP : TakesTables P I accepted) {q : QnxSession σ}
    (hq : Steady I accepted q) (calls : List (Int × Bool)) :
    Along (signalStep P)
        (fun q call => Agree accepted ((handleSignal P call.1 call.2).run q).2) q calls ↔
      Along (signalStep P) (Harmless P) q calls := by
  refine Along.congr_of_invariant (Steady I accepted) ?_ ?_ hq
  · intro q call hq
    exact (handleSignal_steady hP hq call).2.2
  · intro q call q' hq hagree hstep
    obtain rfl := Option.some.inj hstep
    obtain ⟨hidle, hsize, -⟩ := handleSignal_steady hP hq call
    exact ⟨hidle, hsize, hagree⟩

end

/-! ## A target that goes by a list -/

inductive Outcome where
  | accept
  | refuse
  /-- The request is lost on its way. -/
  | lose
  deriving DecidableEq, Repr

structure SigTarget where
  plan : List Outcome
  accepted : Option Bytes
  deriving DecidableEq, Repr

def sigTarget : Peer SigTarget where
  recv s b :=
    match (readFrame .timeout b).1 with
    | .error _ => none
    | .ok p =>
        match s.plan.headD .accept with
        | .accept => some (⟨s.plan.tail, some (respBody p)⟩, frame (message 0x21 0 0 []))
        | .refuse => some (⟨s.plan.tail, s.accepted⟩, frame (message respErr 0 0 [22, 0, 0, 0]))
        | .lose => some (⟨s.plan.tail, s.accepted⟩, [])
  fin _ := .timeout

theorem takesTables_sigTarget : TakesTables sigTarget (fun _ => True) SigTarget.accepted := by
  intro s mid tbl _ _
  right
  have hread : (readFrame .timeout (frame (tableRequest mid tbl))).1 = .ok (tableRequest mid tbl) := by
    have := readFrame_frame .timeout (tableRequest mid tbl) []
    rw [List.append_nil] at this
    rw [this]
  simp only [sigTarget, hread]
  cases s.plan.headD .accept with
  | accept =>
      refine ⟨_, [message 0x21 0 0 []], rfl, trivial, .inr ⟨_, debugFrames_message _ _ _ _, ?_⟩⟩
      rw [if_neg (by decide)]
      rfl
  | refuse =>
      refine ⟨_, [message respErr 0 0 [22, 0, 0, 0]], rfl, trivial,
        .inr ⟨_, debugFrames_message _ _ _ _, ?_⟩⟩
      rw [if_pos (by decide)]
  | lose => exact ⟨_, [], rfl, trivial, .inl ⟨rfl, rfl⟩⟩

/-- A session on a target with some outcomes ahead of it. -/
def sigSession (plan : List Outcome) : QnxSession SigTarget :=
  ⟨⟨[], .timeout, ⟨plan, none⟩, 1, [], []⟩, 7, none⟩

theorem tables_agree_iff_refused :
    TakesTables sigTarget (fun _ => True) SigTarget.accepted ∧
      Steady (fun _ => True) SigTarget.accepted (sigSession [.refuse]) ∧
      (Along (signalStep sigTarget)
          (fun q call => Agree SigTarget.accepted ((handleSignal sigTarget call.1 call.2).run q).2)
          (sigSession [.refuse]) [(11, true), (2, false)] ↔
        Along (signalStep sigTarget) (Harmless sigTarget) (sigSession [.refuse])
          [(11, true), (2, false)]) := by
  have hsteady : Steady (fun _ => True) SigTarget.accepted (sigSession [.refuse]) :=
    ⟨⟨⟨[], rfl, rfl⟩, trivial⟩, rfl, rfl⟩
  exact ⟨takesTables_sigTarget, hsteady, tables_agree_iff takesTables_sigTarget hsteady _⟩

/-- The target refuses to pass signal 11 through, and the table keeps the entry;
the call for signal 2 then sends both. -/
theorem refused_entry_smuggled :
    let q := sigSession [.refuse]
    let q₁ := ((handleSignal sigTarget 11 false).run q).2
    let q₂ := ((handleSignal sigTarget 2 false).run q₁).2
    (q₁.client.peer.accepted = none ∧ q₁.table = interceptAll.set 10 0) ∧
      q₂.client.peer.accepted = some ((interceptAll.set 10 0).set 1 0) ∧
      ¬ Along (signalStep sigTarget)
        (fun q call => Agree SigTarget.accepted ((handleSignal sigTarget call.1 call.2).run q).2)
        q [(11, false), (2, false)] := by
  intro q q₁ q₂
  have hfirst : q₁.client.peer.accepted = none ∧ q₁.table = interceptAll.set 10 0 := by
    decide +kernel
  refine ⟨hfirst, by decide +kernel, ?_⟩
  intro h
  have hagree : Agree SigTarget.accepted q₁ := h.1
  rw [Agree, hfirst.1, hfirst.2] at hagree
  exact absurd hagree (by decide)

end QconnMcp.Tools
