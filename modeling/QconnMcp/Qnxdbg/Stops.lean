import QconnMcp.Qnxdbg.Exchange

/-!
# What `Continue` and `Step` report

Both send a Run request and take two frames off the debug channel: the reply,
whose code they do not look at, and the next frame, which they report as the
stop whatever its code. `reports_iff` says for which frames the report is a real
stop.
-/

namespace QconnMcp.Qnxdbg

open Kit

/-! ## Run requests -/

namespace Client

variable {σ : Type} {P : Peer σ} {subcmd : UInt8} {tid : Nat} {c : Client σ} {us fs : List Bytes}
  {s : σ} (hinp : c.inp = us.flatMap frame) (hus : debugFrames us = [])
  (hrecv : P.recv c.peer (frame (message cmdRun subcmd (c.mid + 1) (runMsg 0 tid))) =
    some (s, fs.flatMap frame))

include hinp hus hrecv

/-- Without a frame on the debug channel there is no reply. -/
theorem resume_unanswered (hfs : debugFrames fs = []) :
    ∃ e c', (resume P subcmd tid).run c = ((.nothing, some e), c') := by
  obtain ⟨out, hrun⟩ := transactSub_unanswered hinp hus hrecv hfs
  rw [resume, run_bind, hrun]
  exact ⟨_, _, rfl⟩

/-- A reply and nothing behind it: the wait fails. -/
theorem resume_no_stop {reply : Bytes} (hfs : debugFrames fs = [reply]) :
    ∃ e c', (resume P subcmd tid).run c = ((.nothing, some e), c') ∧ c'.inp = [] := by
  obtain ⟨gs, out, hrun, hgs⟩ := transactSub_answered hinp hus hrecv hfs
  obtain ⟨out', hread⟩ := readResponse_no_debug
    (⟨gs.flatMap frame, P.fin s, s, c.mid + 1, out, c.replies ++ [(c.mid + 1, reply)]⟩ : Client σ)
    rfl hgs
  rw [resume, run_bind, hrun]
  show ∃ e c', waitStop.run _ = _ ∧ _
  rw [waitStop, run_bind, hread]
  exact ⟨_, _, rfl, rfl⟩

/-- The frame behind the reply is reported as the stop, whatever both of them
are. -/
theorem resume_stop {reply notice : Bytes} {ds : List Bytes}
    (hfs : debugFrames fs = reply :: notice :: ds) :
    ∃ c', (resume P subcmd tid).run c =
      ((.stop ⟨respCode notice, (pidTid (respBody notice)).1, (pidTid (respBody notice)).2, notice⟩,
        none), c') := by
  obtain ⟨gs, out, hrun, hgs⟩ := transactSub_answered hinp hus hrecv hfs
  obtain ⟨gs', out', hread, -⟩ := readResponse_debug
    (⟨gs.flatMap frame, P.fin s, s, c.mid + 1, out, c.replies ++ [(c.mid + 1, reply)]⟩ : Client σ)
    rfl hgs
  rw [resume, run_bind, hrun]
  show ∃ c', waitStop.run _ = _
  rw [waitStop, run_bind, hread]
  exact ⟨_, rfl⟩

end Client

/-! ## Real stops -/

/-- The two operations that run the process and wait. -/
inductive RunKind where
  | cont
  | step (tid : Int)

namespace RunKind

def act {σ : Type} (P : Peer σ) : RunKind → Act σ (Value × Option Err)
  | cont => Client.cont P
  | step tid => Client.step P tid

/-- The payload of the Run request. -/
def request (mid : UInt8) : RunKind → Bytes
  | cont => message cmdRun runContinue mid (runMsg 0 1)
  | step tid => message cmdRun runStep mid (runMsg 0 (uint32 (if tid ≤ 0 then 1 else tid)))

/-- Both are the same exchange. -/
theorem eq_resume {σ : Type} (P : Peer σ) (k : RunKind) :
    ∃ subcmd tid, k.act P = Client.resume P subcmd tid ∧
      ∀ mid, k.request mid = message cmdRun subcmd mid (runMsg 0 tid) := by
  cases k with
  | cont => exact ⟨runContinue, 1, rfl, fun _ => rfl⟩
  | step tid => exact ⟨runStep, _, rfl, fun _ => rfl⟩

end RunKind

/-- The stop describes the frame, a notification that names its process and its
thread in the first two words of its body. -/
structure Describes (st : Stop) (notice : Bytes) : Prop where
  notify : respCode notice = respNotify
  code : st.code = respCode notice
  raw : st.raw = notice
  words : 8 ≤ (respBody notice).length
  pid : st.pid = leNat ((respBody notice).take 4)
  tid : st.tid = leNat (((respBody notice).drop 4).take 4)

/-- What should come of a Run request after which the target sends `fs`: success
only with the stop that the frame behind an accepting reply describes, and a
refusal is an error that takes no frame but itself. -/
structure Reports {σ : Type} (fs : List Bytes) (r : Value × Option Err) (c : Client σ) : Prop where
  real : ∀ v, r = (v, none) → ∃ reply notice ds st, debugFrames fs = reply :: notice :: ds ∧
    respCode reply ≠ respErr ∧ v = .stop st ∧ Describes st notice
  refused : ∀ reply ds, debugFrames fs = reply :: ds → respCode reply = respErr →
    r.2 ≠ none ∧ ∃ gs, c.inp = gs.flatMap frame ∧ debugFrames gs = ds

/-- The second frame on the debug channel, if there is one, is a full stop
notification, and the first one no refusal. -/
def StopFollows (fs : List Bytes) : Prop :=
  ∀ reply notice ds, debugFrames fs = reply :: notice :: ds →
    respCode reply ≠ respErr ∧ respCode notice = respNotify ∧ 8 ≤ (respBody notice).length

theorem describes_of_words {notice : Bytes} (hcode : respCode notice = respNotify)
    (hlen : 8 ≤ (respBody notice).length) :
    Describes ⟨respCode notice, (pidTid (respBody notice)).1, (pidTid (respBody notice)).2, notice⟩
      notice := by
  refine ⟨hcode, rfl, rfl, hlen, ?_, ?_⟩
  · rw [pidTid, if_pos hlen]
  · rw [pidTid, if_pos hlen]

/-- With an error nothing is reported, and one frame at most promises nothing. -/
theorem reports_error_iff {σ : Type} {fs : List Bytes} {e : Err} {c : Client σ}
    (hfs : (debugFrames fs).length ≤ 1)
    (hleft : ∀ reply, debugFrames fs = [reply] → c.inp = []) :
    Reports fs (.nothing, some e) c ↔ StopFollows fs := by
  have hone : ∀ reply ds, debugFrames fs = reply :: ds → ds = [] := by
    intro reply ds h
    rw [h, List.length_cons] at hfs
    exact List.eq_nil_of_length_eq_zero (by omega)
  refine ⟨fun _ => ?_, fun _ => ⟨?_, ?_⟩⟩
  · intro reply notice ds h
    exact absurd (hone reply _ h) (List.cons_ne_nil _ _)
  · intro v hv
    exact absurd (congrArg Prod.snd hv) (Option.some_ne_none e)
  · intro reply ds h _
    obtain rfl := hone reply ds h
    exact ⟨Option.some_ne_none e, [], hleft reply h, rfl⟩

/-- The frame behind the reply is the stop it is reported as when `StopFollows`
says so. -/
theorem reports_stop_iff {σ : Type} {fs ds : List Bytes} {reply notice : Bytes} (c : Client σ)
    (hfs : debugFrames fs = reply :: notice :: ds) :
    Reports fs (.stop ⟨respCode notice, (pidTid (respBody notice)).1, (pidTid (respBody notice)).2,
        notice⟩, none) c ↔ StopFollows fs := by
  refine ⟨fun h => ?_, fun h => ⟨?_, ?_⟩⟩
  · intro reply' notice' ds' heq
    rw [hfs, List.cons.injEq, List.cons.injEq] at heq
    obtain ⟨rfl, rfl, rfl⟩ := heq
    obtain ⟨r', n', ds', st, heq, hcode, -, hdesc⟩ := h.real _ rfl
    rw [hfs, List.cons.injEq, List.cons.injEq] at heq
    obtain ⟨rfl, rfl, -⟩ := heq
    exact ⟨hcode, hdesc.notify, hdesc.words⟩
  · intro v hv
    obtain ⟨hcode, hnotify, hwords⟩ := h reply notice ds hfs
    rw [Prod.mk.injEq] at hv
    exact ⟨reply, notice, ds, _, hfs, hcode, hv.1.symm, describes_of_words hnotify hwords⟩
  · intro reply' ds' heq hcode
    rw [hfs, List.cons.injEq] at heq
    obtain ⟨rfl, -⟩ := heq
    exact absurd hcode (h reply notice ds hfs).1

/-- **When the report is a real stop.** For every sequence of frames that follows
a Run request, `Continue` and `Step` report as they should exactly when at most
one frame of it is on the debug channel, or the first one there is no refusal and
the second one a stop notification with a process and a thread. -/
theorem reports_iff {σ : Type} {P : Peer σ} {c : Client σ} {us fs : List Bytes} {s : σ}
    (k : RunKind) (hinp : c.inp = us.flatMap frame) (hus : debugFrames us = [])
    (hrecv : P.recv c.peer (frame (k.request (c.mid + 1))) = some (s, fs.flatMap frame)) :
    Reports fs ((k.act P).run c).1 ((k.act P).run c).2 ↔ StopFollows fs := by
  obtain ⟨subcmd, tid, hact, hreq⟩ := k.eq_resume P
  rw [hact]
  rw [hreq] at hrecv
  -- by the number of frames on the debug channel
  rcases hfs : debugFrames fs with _ | ⟨reply, _ | ⟨notice, ds⟩⟩
  · obtain ⟨e, c', hrun⟩ := Client.resume_unanswered hinp hus hrecv hfs
    rw [hrun]
    apply reports_error_iff
    · simp [hfs]
    · intro reply h
      simp [hfs] at h
  · obtain ⟨e, c', hrun, hinp'⟩ := Client.resume_no_stop hinp hus hrecv hfs
    rw [hrun]
    apply reports_error_iff
    · simp [hfs]
    · exact fun _ _ => hinp'
  · obtain ⟨c', hrun⟩ := Client.resume_stop hinp hus hrecv hfs
    rw [hrun]
    exact reports_stop_iff c' hfs

/-- A target that answers whatever it gets with the same frames. -/
def sending (fs : List Bytes) : Peer Unit where
  recv _ _ := some ((), fs.flatMap frame)
  fin _ := .timeout

theorem reports_iff_step :
    let fs := [message 0x21 0 2 [], ascii "out\x02hello", message respNotify 0 0 (pidTidBody 7 3)]
    let c : Client Unit := ⟨[], .timeout, (), 1, [], []⟩
    (sending fs).recv c.peer (frame ((RunKind.step 3).request (c.mid + 1))) =
        some ((), fs.flatMap frame) ∧
      (Reports fs (((RunKind.step 3).act (sending fs)).run c).1
        (((RunKind.step 3).act (sending fs)).run c).2 ↔ StopFollows fs) := by
  intro fs c
  exact ⟨rfl, reports_iff (.step 3) (show c.inp = [].flatMap frame from rfl) rfl rfl⟩

/-- The target refuses the Run request, and the notification behind the refusal
is reported as the stop of a process that never ran. -/
theorem refused_run_reported :
    let notice := message respNotify 0 0 (pidTidBody 7 3)
    let fs := [message respErr 0 2 [3, 0, 0, 0], notice]
    let c : Client Unit := ⟨[], .timeout, (), 1, [], []⟩
    ((RunKind.cont.act (sending fs)).run c).1 = (.stop ⟨respNotify, 7, 3, notice⟩, none) ∧
      ¬ Reports fs ((RunKind.cont.act (sending fs)).run c).1
        ((RunKind.cont.act (sending fs)).run c).2 := by
  intro notice fs c
  have hstop : ((RunKind.cont.act (sending fs)).run c).1 =
      (.stop ⟨respNotify, 7, 3, notice⟩, none) := by
    decide +kernel
  refine ⟨hstop, ?_⟩
  intro h
  have herr := (h.refused _ _ rfl rfl).1
  rw [hstop] at herr
  exact herr rfl

end QconnMcp.Qnxdbg
