import QconnMcp.Qnxdbg.Commands

/-!
# Requests and replies on the debug channel

What a target sends is a sequence of frames: control frames and program output,
which `readResponse` skips (`Aside`), notifications, and replies. `Answered` is
the contract for one request: one reply with its message id, with the frames
before and behind it restricted by a shape. Under the shape `Orderly`, where only
a Run request is followed by a notification, every command keeps the connection
`Settled`: nothing but skippable frames is unread, and all replies so far have
been replies to their own requests.
-/

namespace QconnMcp.Qnxdbg

open Kit

/-! ## Kinds of frames -/

/-- A frame that `readResponse` skips. -/
def Aside (p : Bytes) : Prop := p.length < 4 ∨ p[3]? = some chanText

instance : DecidablePred Aside := fun p =>
  inferInstanceAs (Decidable (p.length < 4 ∨ p[3]? = some chanText))

/-- The program output in a skipped frame. -/
def textOf (p : Bytes) : Bytes := if p.length < 4 then [] else p.drop 4

/-- The reply to the request with message id `mid`. -/
structure IsReply (mid : UInt8) (p : Bytes) : Prop where
  debug : ¬ Aside p
  mid_eq : p[2]? = some mid
  code_ne : respCode p ≠ respNotify

/-- An asynchronous notification. -/
structure IsNotice (p : Bytes) : Prop where
  debug : ¬ Aside p
  code_eq : respCode p = respNotify

/-- The frames that `readResponse` does not skip. -/
def debugFrames (ps : List Bytes) : List Bytes := ps.filter fun p => !decide (Aside p)

theorem debugFrames_append (ps qs : List Bytes) :
    debugFrames (ps ++ qs) = debugFrames ps ++ debugFrames qs := List.filter_append ..

theorem debugFrames_eq_nil {ps : List Bytes} : debugFrames ps = [] ↔ ∀ p ∈ ps, Aside p := by
  simp [debugFrames, List.filter_eq_nil_iff]

theorem debugFrames_eq_cons {ps ds : List Bytes} {p : Bytes} (h : debugFrames ps = p :: ds) :
    ∃ as gs, ps = as ++ p :: gs ∧ (∀ a ∈ as, Aside a) ∧ ¬ Aside p ∧ debugFrames gs = ds := by
  obtain ⟨as, gs, hps, has, hp, hgs⟩ := List.filter_eq_cons_iff.mp h
  refine ⟨as, gs, hps, ?_, by simpa using hp, hgs⟩
  intro a ha
  simpa using has a ha

theorem not_aside_message (cmd subcmd mid : UInt8) (body : Bytes) :
    ¬ Aside (message cmd subcmd mid body) := by
  simp [Aside, message, chanDebug, chanText]

theorem debugFrames_message (cmd subcmd mid : UInt8) (body : Bytes) :
    debugFrames [message cmd subcmd mid body] = [message cmd subcmd mid body] := by
  simp [debugFrames, not_aside_message]

theorem isReply_message {code : UInt8} (hcode : code ≠ respNotify) (subcmd mid : UInt8)
    (body : Bytes) : IsReply mid (message code subcmd mid body) :=
  ⟨not_aside_message code subcmd mid body, rfl, hcode⟩

/-! ## Reading frames -/

theorem length_le_frames (ps : List Bytes) : ps.length ≤ (ps.flatMap frame).length := by
  induction ps with
  | nil => exact le_rfl
  | cons p ps ih =>
      rw [List.flatMap_cons, List.length_append, List.length_cons, frame, List.length_cons]
      omega

namespace Client

variable {σ : Type}

theorem readFrame_frame (c : Client σ) (p rest : Bytes) (h : c.inp = frame p ++ rest) :
    readFrame.run c = (.ok p, { c with inp := rest }) := by
  show ((Qnxdbg.readFrame c.fin c.inp).1, _) = _
  rw [h, Qnxdbg.readFrame_frame]

/-- A frame that is skipped leaves its text in the output. -/
theorem readResponseLoop_aside {a : Bytes} (ha : Aside a) (rest : Bytes) (fuel : Nat)
    (c : Client σ) (h : c.inp = frame a ++ rest) :
    (readResponseLoop (fuel + 1)).run c =
      (readResponseLoop fuel).run { c with inp := rest, output := c.output ++ textOf a } := by
  rw [readResponseLoop, run_bind, readFrame_frame c a rest h]
  by_cases hlen : a.length < 4
  · simp only [if_pos hlen, textOf, List.append_nil]
  · have htext : a[3]? = some chanText := ha.resolve_left hlen
    simp only [if_neg hlen, if_pos htext, textOf]
    rfl

theorem readResponseLoop_asides {as : List Bytes} (has : ∀ a ∈ as, Aside a) (rest : Bytes)
    (fuel : Nat) (c : Client σ) (h : c.inp = as.flatMap frame ++ rest) :
    (readResponseLoop (as.length + fuel)).run c =
      (readResponseLoop fuel).run
        { c with inp := rest, output := c.output ++ as.flatMap textOf } := by
  induction as generalizing c with
  | nil =>
      rw [List.flatMap_nil, List.nil_append] at h
      rw [List.length_nil, Nat.zero_add, List.flatMap_nil, List.append_nil, ← h]
  | cons a as ih =>
      rw [List.flatMap_cons, List.append_assoc] at h
      rw [List.length_cons, Nat.add_right_comm,
        readResponseLoop_aside (has a List.mem_cons_self) _ _ c h,
        ih (fun b hb => has b (List.mem_cons_of_mem _ hb)) _ rfl, List.flatMap_cons,
        List.append_assoc]

/-- The frames in front of the reply are skipped, their text is kept. -/
theorem readResponse_frames {as ps : List Bytes} (has : ∀ a ∈ as, Aside a) {p : Bytes}
    (hp : ¬ Aside p) (c : Client σ) (h : c.inp = (as ++ p :: ps).flatMap frame) :
    readResponse.run c =
      (.ok p, { c with inp := ps.flatMap frame, output := c.output ++ as.flatMap textOf }) := by
  obtain ⟨fuel, hfuel⟩ : ∃ k, c.inp.length + 1 = as.length + (k + 1) := by
    have hlen := length_le_frames (as ++ p :: ps)
    rw [← h, List.length_append] at hlen
    exact ⟨c.inp.length - as.length, by omega⟩
  obtain ⟨hlen, htext⟩ := not_or.mp hp
  rw [List.flatMap_append] at h
  show (readResponseLoop (c.inp.length + 1)).run c = _
  rw [hfuel, readResponseLoop_asides has _ _ c h, readResponseLoop, run_bind,
    readFrame_frame _ p (ps.flatMap frame) rfl]
  simp only [if_neg hlen, if_neg htext]
  rfl

/-- When nothing else is there, the read fails behind the skipped frames. -/
theorem readResponse_asides {as : List Bytes} (has : ∀ a ∈ as, Aside a) (c : Client σ)
    (h : c.inp = as.flatMap frame) :
    readResponse.run c =
      (.error (.io c.fin), { c with inp := [], output := c.output ++ as.flatMap textOf }) := by
  obtain ⟨fuel, hfuel⟩ : ∃ k, c.inp.length + 1 = as.length + (k + 1) := by
    have hlen := length_le_frames as
    rw [← h] at hlen
    exact ⟨c.inp.length - as.length, by omega⟩
  rw [← List.append_nil (as.flatMap frame)] at h
  show (readResponseLoop (c.inp.length + 1)).run c = _
  rw [hfuel, readResponseLoop_asides has _ _ c h]
  rfl

/-- The next frame of the debug channel, and only that one, is taken. -/
theorem readResponse_debug {ps ds : List Bytes} {p : Bytes} (c : Client σ)
    (h : c.inp = ps.flatMap frame) (hp : debugFrames ps = p :: ds) :
    ∃ gs out, readResponse.run c = (.ok p, { c with inp := gs.flatMap frame, output := out }) ∧
      debugFrames gs = ds := by
  obtain ⟨as, gs, rfl, has, hp, hgs⟩ := debugFrames_eq_cons hp
  exact ⟨gs, _, readResponse_frames has hp c h, hgs⟩

theorem readResponse_no_debug {ps : List Bytes} (c : Client σ) (h : c.inp = ps.flatMap frame)
    (hps : debugFrames ps = []) :
    ∃ out, readResponse.run c = (.error (.io c.fin), { c with inp := [], output := out }) :=
  ⟨_, readResponse_asides (debugFrames_eq_nil.mp hps) c h⟩

theorem waitStop_frames {as ps : List Bytes} (has : ∀ a ∈ as, Aside a) {p : Bytes}
    (hp : ¬ Aside p) (c : Client σ) (h : c.inp = (as ++ p :: ps).flatMap frame) :
    (waitStop.run c).1 =
      (.stop ⟨respCode p, (pidTid (respBody p)).1, (pidTid (respBody p)).2, p⟩, none) := by
  rw [waitStop, run_bind, readResponse_frames has hp c h]
  rfl

/-! ## One request -/

section Transact

variable {P : Peer σ} {cmd subcmd : UInt8} {body : Bytes} {c : Client σ}

theorem writeFrame_refused {p : Bytes} (h : P.recv c.peer (frame p) = none) :
    (writeFrame P p).run c = (some .closed, c) := by
  show writeFrame P p c = _
  rw [writeFrame, h]

theorem writeFrame_sent {p out : Bytes} {s : σ} (h : P.recv c.peer (frame p) = some (s, out)) :
    (writeFrame P p).run c =
      (none, { c with peer := s, inp := c.inp ++ out, fin := P.fin s }) := by
  show writeFrame P p c = _
  rw [writeFrame, h]

/-- The part of `transactSub` behind the write. -/
def awaitReply : Act σ (Except Err Bytes) := do
  match ← readResponse with
  | .error e => pure (.error (.read e))
  | .ok p =>
      noteReply p
      pure (.ok p)

/-- The part of `transactSub` behind the new message id. -/
theorem transactSub_eq : (transactSub P cmd subcmd body).run c =
    (writeFrame P (message cmd subcmd (c.mid + 1) body) >>= fun e =>
      match e with
      | some e => (pure (.error (.write e)) : Act σ (Except Err Bytes))
      | none => awaitReply).run { c with mid := c.mid + 1 } := rfl

theorem transactSub_refused
    (h : P.recv c.peer (frame (message cmd subcmd (c.mid + 1) body)) = none) :
    (transactSub P cmd subcmd body).run c =
      (.error (.write .closed), { c with mid := c.mid + 1 }) := by
  rw [transactSub_eq, run_bind, writeFrame_refused (c := { c with mid := c.mid + 1 }) h]
  rfl

theorem transactSub_sent {s : σ} {out : Bytes}
    (h : P.recv c.peer (frame (message cmd subcmd (c.mid + 1) body)) = some (s, out)) :
    (transactSub P cmd subcmd body).run c =
      awaitReply.run { c with
        mid := c.mid + 1, peer := s, inp := c.inp ++ out, fin := P.fin s } := by
  rw [transactSub_eq, run_bind, writeFrame_sent (c := { c with mid := c.mid + 1 }) h]

/-- A reply behind frames that are skipped is returned and noted. -/
theorem transactSub_run {as pre post : List Bytes} {reply : Bytes} {s : σ}
    (hinp : c.inp = as.flatMap frame) (has : ∀ a ∈ as, Aside a)
    (hrecv : P.recv c.peer (frame (message cmd subcmd (c.mid + 1) body)) =
      some (s, (pre ++ reply :: post).flatMap frame))
    (hpre : ∀ a ∈ pre, Aside a) (hreply : ¬ Aside reply) :
    (transactSub P cmd subcmd body).run c =
      (.ok reply, ⟨post.flatMap frame, P.fin s, s, c.mid + 1,
        c.output ++ (as ++ pre).flatMap textOf, c.replies ++ [(c.mid + 1, reply)]⟩) := by
  have hskip : ∀ a ∈ as ++ pre, Aside a := by
    intro a ha
    rcases List.mem_append.mp ha with ha | ha
    · exact has a ha
    · exact hpre a ha
  have hunread : c.inp ++ (pre ++ reply :: post).flatMap frame =
      ((as ++ pre) ++ reply :: post).flatMap frame := by
    rw [hinp, ← List.flatMap_append, List.append_assoc]
  rw [transactSub_sent hrecv, awaitReply, run_bind, readResponse_frames hskip hreply _ hunread]
  rfl

/-- A command whose request fails in transport fails with its error. -/
theorem acked_failed {refused : Bytes → Err} {e : Err} {c' : Client σ}
    (h : (transactSub P cmd subcmd body).run c = (.error e, c')) :
    (acked P cmd subcmd body refused).run c = (some e, c') := by
  rw [acked, run_bind, command, run_bind, h]
  rfl

/-- The code of the reply decides. -/
theorem acked_replied {refused : Bytes → Err} {p : Bytes} {c' : Client σ}
    (h : (transactSub P cmd subcmd body).run c = (.ok p, c')) :
    (acked P cmd subcmd body refused).run c =
      (if respCode p = respErr then some (refused p) else none, c') := by
  rw [acked, run_bind, command, run_bind, h]
  by_cases hcode : respCode p = respErr
  · simp only [if_pos hcode]
    rfl
  · simp only [if_neg hcode]
    rfl

section Idle

variable {us fs : List Bytes} {s : σ} (hinp : c.inp = us.flatMap frame) (hus : debugFrames us = [])
  (hrecv : P.recv c.peer (frame (message cmd subcmd (c.mid + 1) body)) =
    some (s, fs.flatMap frame))

/-- What is unread once the answer has come. -/
theorem unread_answer {us fs : List Bytes} (hinp : c.inp = us.flatMap frame)
    (hus : debugFrames us = []) : c.inp ++ fs.flatMap frame = (us ++ fs).flatMap frame ∧
      debugFrames (us ++ fs) = debugFrames fs := by
  rw [hinp, List.flatMap_append, debugFrames_append, hus]
  exact ⟨rfl, rfl⟩

include hinp hus hrecv

/-- The first frame that comes back on the debug channel is the reply. -/
theorem transactSub_answered {reply : Bytes} {ds : List Bytes}
    (hfs : debugFrames fs = reply :: ds) :
    ∃ gs out, (transactSub P cmd subcmd body).run c =
        (.ok reply, ⟨gs.flatMap frame, P.fin s, s, c.mid + 1, out,
          c.replies ++ [(c.mid + 1, reply)]⟩) ∧ debugFrames gs = ds := by
  obtain ⟨hunread, hdebug⟩ := unread_answer hinp hus
  obtain ⟨gs, out, hread, hgs⟩ := readResponse_debug
    { c with mid := c.mid + 1, peer := s, inp := c.inp ++ fs.flatMap frame, fin := P.fin s }
    hunread (hdebug.trans hfs)
  rw [transactSub_sent hrecv, awaitReply, run_bind, hread]
  exact ⟨gs, out, rfl, hgs⟩

/-- When none comes back, the request fails in transport. -/
theorem transactSub_unanswered (hfs : debugFrames fs = []) :
    ∃ out, (transactSub P cmd subcmd body).run c =
      (.error (.read (.io (P.fin s))), ⟨[], P.fin s, s, c.mid + 1, out, c.replies⟩) := by
  obtain ⟨hunread, hdebug⟩ := unread_answer hinp hus
  obtain ⟨out, hread⟩ := readResponse_no_debug
    { c with mid := c.mid + 1, peer := s, inp := c.inp ++ fs.flatMap frame, fin := P.fin s }
    hunread (hdebug.trans hfs)
  rw [transactSub_sent hrecv, awaitReply, run_bind, hread]
  exact ⟨out, rfl⟩

end Idle

end Transact

/-! ## What a request sends -/

section Sends

/-- Reading a response touches the input and the output only. -/
theorem readResponseLoop_keeps {K : Client σ → Prop}
    (hK : ∀ c inp output, K c → K { c with inp := inp, output := output }) (fuel : Nat) :
    Holds K (readResponseLoop fuel) fun _ => K := by
  induction fuel with
  | zero => exact fun _ h => h
  | succ fuel ih =>
      refine Holds.bind (Q := fun _ => K) (fun c h => hK c _ c.output h) ?_
      intro r
      cases r with
      | error e => exact .pure fun _ h => h
      | ok p =>
          by_cases hlen : p.length < 4
          · simp only [if_pos hlen]
            exact ih
          · simp only [if_neg hlen]
            by_cases htext : p[3]? = some chanText
            · simp only [if_pos htext]
              exact Holds.bind (Q := fun _ => K) (fun c h => hK c c.inp _ h) fun _ => ih
            · simp only [if_neg htext]
              exact .pure fun _ h => h

theorem readResponse_keeps {K : Client σ → Prop}
    (hK : ∀ c inp output, K c → K { c with inp := inp, output := output }) :
    Holds K readResponse fun _ => K :=
  fun c h => readResponseLoop_keeps hK _ c h

theorem readResponse_sends_nothing (s : σ) :
    Holds (fun c : Client σ => c.peer = s) readResponse fun _ c => c.peer = s :=
  readResponse_keeps fun _ _ _ h => h

theorem waitStop_sends_nothing (s : σ) :
    Holds (fun c : Client σ => c.peer = s) waitStop fun _ c => c.peer = s := by
  refine (readResponse_sends_nothing s).bind ?_
  intro r
  cases r <;> exact .pure fun _ h => h

/-- Behind the write, a request changes neither the other end nor the message id. -/
theorem awaitReply_keeps {K : Client σ → Prop}
    (hK : ∀ c inp output log, K c → K { c with inp := inp, output := output, replies := log }) :
    Holds K awaitReply fun _ => K := by
  refine (readResponse_keeps fun c inp output h => hK c inp output c.replies h).bind ?_
  intro r
  cases r with
  | error e => exact .pure fun _ h => h
  | ok p =>
      exact Holds.bind (Q := fun _ => K) (fun c h => hK c c.inp c.output _ h) fun _ =>
        .pure fun _ h => h

theorem awaitReply_sends_nothing (s : σ) :
    Holds (fun c : Client σ => c.peer = s) awaitReply fun _ c => c.peer = s :=
  awaitReply_keeps fun _ _ _ _ h => h

/-- A request takes the next message id. -/
theorem transactSub_mid (P : Peer σ) (cmd subcmd : UInt8) (body : Bytes) (c : Client σ) :
    ((transactSub P cmd subcmd body).run c).2.mid = c.mid + 1 := by
  cases hrecv : P.recv c.peer (frame (message cmd subcmd (c.mid + 1) body)) with
  | none => rw [transactSub_refused hrecv]
  | some r =>
      rw [transactSub_sent hrecv]
      exact awaitReply_keeps (K := fun c' => c'.mid = c.mid + 1) (fun _ _ _ _ h => h) _ rfl

theorem awaitReply_noted (c : Client σ) :
    (∃ e, (awaitReply.run c).1 = .error e) ∧ (awaitReply.run c).2.replies = c.replies ∨
      ∃ p, (awaitReply.run c).1 = .ok p ∧
        (awaitReply.run c).2.replies = c.replies ++ [(c.mid, p)] := by
  have hkeeps := readResponse_keeps (K := fun c' : Client σ => c'.mid = c.mid ∧ c'.replies = c.replies)
    (fun _ _ _ h => h) c ⟨rfl, rfl⟩
  rcases hrun : readResponse.run c with ⟨r, c'⟩
  rw [hrun] at hkeeps
  rw [awaitReply, run_bind, hrun]
  cases r with
  | error e => exact .inl ⟨⟨_, rfl⟩, hkeeps.2⟩
  | ok p =>
      refine .inr ⟨p, rfl, ?_⟩
      show c'.replies ++ [(c'.mid, p)] = _
      rw [hkeeps.1, hkeeps.2]

/-- A request notes its reply, if one comes. -/
theorem transactSub_noted (P : Peer σ) (cmd subcmd : UInt8) (body : Bytes) (c : Client σ) :
    (∃ e, ((transactSub P cmd subcmd body).run c).1 = .error e) ∧
        ((transactSub P cmd subcmd body).run c).2.replies = c.replies ∨
      ∃ p, ((transactSub P cmd subcmd body).run c).1 = .ok p ∧
        ((transactSub P cmd subcmd body).run c).2.replies = c.replies ++ [(c.mid + 1, p)] := by
  cases hrecv : P.recv c.peer (frame (message cmd subcmd (c.mid + 1) body)) with
  | none =>
      rw [transactSub_refused hrecv]
      exact .inl ⟨⟨_, rfl⟩, rfl⟩
  | some r =>
      rw [transactSub_sent hrecv]
      exact awaitReply_noted _

variable {P : Peer σ} {c : Client (σ × Bytes)} {cmd subcmd : UInt8} {body : Bytes}

theorem transactSub_taped {t : σ} {out : Bytes}
    (h : P.recv c.peer.1 (frame (message cmd subcmd (c.mid + 1) body)) = some (t, out)) :
    ((transactSub P.taped cmd subcmd body).run c).2.peer =
      (t, c.peer.2 ++ frame (message cmd subcmd (c.mid + 1) body)) := by
  have htaped : P.taped.recv c.peer (frame (message cmd subcmd (c.mid + 1) body)) =
      some ((t, c.peer.2 ++ frame (message cmd subcmd (c.mid + 1) body)), out) := by
    simp only [Peer.taped, h, Option.map_some]
  rw [transactSub_sent htaped]
  exact awaitReply_sends_nothing _ _ rfl

theorem transactSub_untaped
    (h : P.recv c.peer.1 (frame (message cmd subcmd (c.mid + 1) body)) = none) :
    ((transactSub P.taped cmd subcmd body).run c).2.peer = c.peer := by
  have htaped : P.taped.recv c.peer (frame (message cmd subcmd (c.mid + 1) body)) = none := by
    simp only [Peer.taped, h, Option.map_none]
  rw [transactSub_refused htaped]

end Sends

end Client

/-- Nothing but skippable frames is unread, and the target has `I`. -/
structure Idle {σ : Type} (I : σ → Prop) (c : Client σ) : Prop where
  unread : ∃ us : List Bytes, debugFrames us = [] ∧ c.inp = us.flatMap frame
  idle : I c.peer

/-! ## Targets -/

/-- The target answers the request from every state with `I`: it refuses it, or
sends one reply, with frames before and behind it as `shape` says, and then has
`J`. -/
def Answered {σ : Type} (P : Peer σ) (I J : σ → Prop) (shape : List Bytes → List Bytes → Prop)
    (cmd subcmd : UInt8) (body : Bytes) : Prop :=
  ∀ s mid, I s →
    (P.recv s (frame (message cmd subcmd mid body)) = none ∧ J s) ∨
      ∃ t pre reply post,
        P.recv s (frame (message cmd subcmd mid body)) =
          some (t, (pre ++ reply :: post).flatMap frame) ∧
        J t ∧ IsReply mid reply ∧ shape pre post

/-- The same for the requests behind which the target has `G`. -/
def AnsweredUnder {ρ : Type} (Q : Peer ρ) (G I J : ρ → Prop)
    (shape : List Bytes → List Bytes → Prop) (cmd subcmd : UInt8) (body : Bytes) : Prop :=
  ∀ s mid, I s → (Q.recv s (frame (message cmd subcmd mid body)) = none → J s) ∧
    ∀ t out, Q.recv s (frame (message cmd subcmd mid body)) = some (t, out) → G t →
      ∃ pre reply post, out = (pre ++ reply :: post).flatMap frame ∧ J t ∧ IsReply mid reply ∧
        shape pre post

theorem Answered.under {σ : Type} {P : Peer σ} {I J : σ → Prop}
    {shape : List Bytes → List Bytes → Prop} {cmd subcmd : UInt8} {body : Bytes}
    (h : Answered P I J shape cmd subcmd body) :
    AnsweredUnder P (fun _ => True) I J shape cmd subcmd body := by
  intro s mid hs
  rcases h s mid hs with ⟨hnone, hJ⟩ | ⟨t, pre, reply, post, hrecv, hJ, hreply, hshape⟩
  · refine ⟨fun _ => hJ, ?_⟩
    intro t out hsome
    exact absurd (hnone.symm.trans hsome) (Option.some_ne_none _).symm
  · refine ⟨fun hnone => absurd (hrecv.symm.trans hnone) (Option.some_ne_none _), ?_⟩
    intro t' out hsome _
    obtain ⟨rfl, rfl⟩ := Prod.mk.inj (Option.some.inj (hrecv.symm.trans hsome))
    exact ⟨pre, reply, post, rfl, hJ, hreply, hshape⟩

/-- Frames of the kind `A` before the reply and behind it, and at most one
notification behind the reply to a Run request. -/
def Orderly (A : Bytes → Prop) (cmd : UInt8) (pre post : List Bytes) : Prop :=
  (∀ a ∈ pre, A a) ∧
    ((∀ a ∈ post, A a) ∨
      cmd = cmdRun ∧
        ∃ l notice r, post = l ++ notice :: r ∧ (∀ a ∈ l, A a) ∧ IsNotice notice ∧ ∀ a ∈ r, A a)

/-- Only frames of the kind `A` are unread, the target has `I`, and every reply
so far was the reply to its request. -/
structure Settled {σ : Type} (A : Bytes → Prop) (I : σ → Prop) (c : Client σ) : Prop where
  unread : ∃ as : List Bytes, (∀ a ∈ as, A a) ∧ c.inp = as.flatMap frame
  idle : I c.peer
  matched : ∀ r ∈ c.replies, IsReply r.1 r.2

/-- The client on the peer that `π` shows. -/
def Client.map {ρ σ : Type} (π : ρ → σ) (c : Client ρ) : Client σ :=
  ⟨c.inp, c.fin, π c.peer, c.mid, c.output, c.replies⟩

/-- `P` is what `π` shows of `Q`, and `Q` had `G` before a request if it has it behind
it. -/
structure Shows {ρ σ : Type} (π : ρ → σ) (G : ρ → Prop) (Q : Peer ρ) (P : Peer σ) : Prop where
  recv : ∀ s b, P.recv (π s) b = (Q.recv s b).map fun r => (π r.1, r.2)
  fin : ∀ s, P.fin (π s) = Q.fin s
  back : ∀ {s t b out}, Q.recv s b = some (t, out) → G t → G s

theorem Shows.refl {σ : Type} (P : Peer σ) : Shows id (fun _ => True) P P where
  recv _ _ := Option.map_id'.symm
  fin _ := rfl
  back _ h := h

/-- A settled connection, and the same connection as `π` shows it. -/
def Shown {ρ σ : Type} (π : ρ → σ) (A : Bytes → Prop) (I : ρ → Prop) (c : Client ρ) (d : Client σ) :
    Prop :=
  d = c.map π ∧ Settled A I c

/-- Two runs side by side, where the left one has `G` at its end: settled connections stay
settled. -/
abbrev Keeps {ρ σ α : Type} (π : ρ → σ) (G : ρ → Prop) (A : Bytes → Prop) (I J : ρ → Prop)
    (m : Act ρ α) (n : Act σ α) : Prop :=
  SimUnder (fun c => G c.peer) (Shown π A I) m n fun _ => Shown π A J

/-- One run for itself. -/
theorem Keeps.holds {σ α : Type} {A : Bytes → Prop} {I J : σ → Prop} {m : Act σ α}
    (h : Keeps id (fun _ => True) A I J m m) : Holds (Settled A I) m fun _ c => Settled A J c :=
  fun c hc => (h.ends c c ⟨rfl, hc⟩ trivial).2.2

/-- A request that neither runs nor changes the process being debugged. -/
def Plain (cmd : UInt8) : Prop := cmd ≠ cmdRun ∧ cmd ≠ cmdAttach ∧ cmd ≠ cmdLoad

instance : DecidablePred Plain := fun cmd =>
  inferInstanceAs (Decidable (cmd ≠ cmdRun ∧ cmd ≠ cmdAttach ∧ cmd ≠ cmdLoad))

/-! ## Commands on a settled connection -/

namespace Client

section Settled

variable {ρ σ α : Type} {Q : Peer ρ} {P : Peer σ} {π : ρ → σ} {G : ρ → Prop} {A : Bytes → Prop}
  {I J : ρ → Prop}

theorem matched_concat {log : List (UInt8 × Bytes)} (h : ∀ r ∈ log, IsReply r.1 r.2) {mid : UInt8}
    {p : Bytes} (hp : IsReply mid p) : ∀ r ∈ log ++ [(mid, p)], IsReply r.1 r.2 := by
  intro r hr
  rcases List.mem_append.mp hr with hr | hr
  · exact h r hr
  · rw [List.mem_singleton] at hr
    subst hr
    exact hp

variable (hP : Shows π G Q P) (hA : ∀ p, A p → Aside p)

include hP

theorem transactSub_back (cmd subcmd : UInt8) (body : Bytes) :
    Backs (fun c : Client ρ => G c.peer) (transactSub Q cmd subcmd body) := by
  intro c hG
  cases hrecv : Q.recv c.peer (frame (message cmd subcmd (c.mid + 1) body)) with
  | none =>
      rw [transactSub_refused hrecv] at hG
      exact hG
  | some r =>
      rw [transactSub_sent hrecv, awaitReply_sends_nothing r.1 _ rfl] at hG
      exact hP.back hrecv hG

include hA

/-- After a request that is answered in order, the frames behind the reply are
unread, on both sides. -/
theorem transactSub_orderly {cmd subcmd : UInt8} {body : Bytes}
    (h : AnsweredUnder Q G I J (Orderly A cmd) cmd subcmd body) {c : Client ρ} (hc : Settled A I c)
    (hG : G ((transactSub Q cmd subcmd body).run c).2.peer) :
    (∃ e c', (transactSub Q cmd subcmd body).run c = (.error e, c') ∧
        (transactSub P cmd subcmd body).run (c.map π) = (.error e, c'.map π) ∧ Settled A J c') ∨
      ∃ p c' pre post, (transactSub Q cmd subcmd body).run c = (.ok p, c') ∧
        (transactSub P cmd subcmd body).run (c.map π) = (.ok p, c'.map π) ∧
        c'.inp = post.flatMap frame ∧ J c'.peer ∧ (∀ r ∈ c'.replies, IsReply r.1 r.2) ∧
        Orderly A cmd pre post := by
  obtain ⟨as, has, hinp⟩ := hc.unread
  obtain ⟨hrefused, htaken⟩ := h c.peer (c.mid + 1) hc.idle
  have hmirror := hP.recv c.peer (frame (message cmd subcmd (c.mid + 1) body))
  cases hrecv : Q.recv c.peer (frame (message cmd subcmd (c.mid + 1) body)) with
  | none =>
      rw [hrecv] at hmirror
      exact .inl ⟨_, _, transactSub_refused hrecv, transactSub_refused (c := c.map π) hmirror,
        ⟨as, has, hinp⟩, hrefused hrecv, hc.matched⟩
  | some r =>
      obtain ⟨t, out⟩ := r
      rw [transactSub_sent hrecv, awaitReply_sends_nothing t _ rfl] at hG
      obtain ⟨pre, reply, post, rfl, hJ, hreply, hshape⟩ := htaken t out hrecv hG
      rw [hrecv] at hmirror
      have hasides := fun a ha => hA a (has a ha)
      have hpre := fun a ha => hA a (hshape.1 a ha)
      have hleft := transactSub_run hinp hasides hrecv hpre hreply.debug
      have hright := transactSub_run (c := c.map π) hinp hasides hmirror hpre hreply.debug
      rw [hP.fin] at hright
      exact .inr ⟨reply, _, pre, post, hleft, hright, rfl, hJ, matched_concat hc.matched hreply, hshape⟩

theorem transactSub_settled {cmd subcmd : UInt8} {body : Bytes} (hcmd : cmd ≠ cmdRun)
    (h : AnsweredUnder Q G I J (Orderly A cmd) cmd subcmd body) :
    Keeps π G A I J (transactSub Q cmd subcmd body) (transactSub P cmd subcmd body) where
  back := transactSub_back hP cmd subcmd body
  ends := by
    rintro c d ⟨rfl, hc⟩ hG
    rcases transactSub_orderly hP hA h hc hG with ⟨e, c', hleft, hright, hc'⟩ |
      ⟨p, c', pre, post, hleft, hright, hinp, hJ, hlog, hshape⟩
    · rw [hleft, hright]
      exact ⟨rfl, rfl, hc'⟩
    · rw [hleft, hright]
      rcases hshape.2 with hpost | ⟨heq, -⟩
      · exact ⟨rfl, rfl, ⟨post, hpost, hinp⟩, hJ, hlog⟩
      · exact absurd heq hcmd

theorem command_settled {cmd subcmd : UInt8} {body : Bytes} (refused : Bytes → Err)
    (hcmd : cmd ≠ cmdRun) (h : AnsweredUnder Q G I J (Orderly A cmd) cmd subcmd body) :
    Keeps π G A I J (command Q cmd subcmd body refused) (command P cmd subcmd body refused) := by
  refine (transactSub_settled hP hA hcmd h).bind ?_
  intro r
  cases r with
  | error e => exact .pure fun _ _ hc => hc
  | ok p => exact .ite (fun _ => .pure fun _ _ hc => hc) fun _ => .pure fun _ _ hc => hc

theorem acked_settled {cmd subcmd : UInt8} {body : Bytes} (refused : Bytes → Err)
    (hcmd : cmd ≠ cmdRun) (h : AnsweredUnder Q G I J (Orderly A cmd) cmd subcmd body) :
    Keeps π G A I J (acked Q cmd subcmd body refused) (acked P cmd subcmd body refused) := by
  refine (command_settled hP hA refused hcmd h).bind ?_
  intro r
  cases r <;> exact .pure fun _ _ hc => hc

theorem fetched_settled {cmd subcmd : UInt8} {body : Bytes} (refused : Bytes → Err)
    (hcmd : cmd ≠ cmdRun) (h : AnsweredUnder Q G I J (Orderly A cmd) cmd subcmd body) :
    Keeps π G A I J (fetched Q cmd subcmd body refused) (fetched P cmd subcmd body refused) := by
  refine (command_settled hP hA refused hcmd h).bind ?_
  intro r
  cases r <;> exact .pure fun _ _ hc => hc

/-- The wait behind a Run request takes the notification out of the stream. -/
theorem resume_settled {subcmd : UInt8} {tid : Nat}
    (h : AnsweredUnder Q G I J (Orderly A cmdRun) cmdRun subcmd (runMsg 0 tid)) :
    Keeps π G A I J (resume Q subcmd tid) (resume P subcmd tid) where
  back := by
    refine (transactSub_back hP cmdRun subcmd (runMsg 0 tid)).bind ?_
    intro r
    cases r with
    | error e => exact .pure _
    | ok p =>
        intro c hG
        have hsame : (waitStop.run c).2.peer = c.peer := waitStop_sends_nothing c.peer c rfl
        rw [← hsame]
        exact hG
  ends := by
    rintro c d ⟨rfl, hc⟩ hG
    have hsent : G ((transactSub Q cmdRun subcmd (runMsg 0 tid)).run c).2.peer := by
      rw [resume, run_bind] at hG
      cases hrun : (transactSub Q cmdRun subcmd (runMsg 0 tid)).run c with
      | mk r c' =>
          rw [hrun] at hG
          cases r with
          | error e => exact hG
          | ok p =>
              have hsame : (waitStop.run c').2.peer = c'.peer := waitStop_sends_nothing c'.peer c' rfl
              rw [← hsame]
              exact hG
    rcases transactSub_orderly hP hA h hc hsent with ⟨e, c', hleft, hright, hc'⟩ |
      ⟨p, c', pre, post, hleft, hright, hinp, hJ, hlog, hshape⟩
    · rw [resume, resume, run_bind, run_bind, hleft, hright]
      exact ⟨rfl, rfl, hc'⟩
    · rw [resume, resume, run_bind, run_bind, hleft, hright]
      show (waitStop.run c').1 = (waitStop.run (c'.map π)).1 ∧
        Shown π A J (waitStop.run c').2 (waitStop.run (c'.map π)).2
      rcases hshape.2 with hpost | ⟨-, l, notice, r, rfl, hl, hnotice, hr⟩
      · -- no notification: the wait skips what is there and fails
        have hasides := fun a ha => hA a (hpost a ha)
        rw [waitStop, waitStop, run_bind, run_bind, readResponse_asides hasides c' hinp,
          readResponse_asides hasides (c'.map π) hinp]
        exact ⟨rfl, rfl, ⟨[], nofun, rfl⟩, hJ, hlog⟩
      · have hasides := fun a ha => hA a (hl a ha)
        rw [waitStop, waitStop, run_bind, run_bind, readResponse_frames hasides hnotice.debug c' hinp,
          readResponse_frames hasides hnotice.debug (c'.map π) hinp]
        exact ⟨rfl, rfl, ⟨r, hr, rfl⟩, hJ, hlog⟩

/-! ### Loops -/

section Loops

variable (hkeep : ∀ cmd subcmd body, cmd ≠ cmdAttach → cmd ≠ cmdLoad →
  AnsweredUnder Q G I I (Orderly A cmd) cmd subcmd body)

include hkeep

theorem readMemoryLoop_settled (addr : UInt64) (n : Int) (fuel : Nat) : ∀ out : Bytes,
    Keeps π G A I I (readMemoryLoop Q addr n fuel out) (readMemoryLoop P addr n fuel out) := by
  induction fuel with
  | zero => exact fun _ => .pure fun _ _ hc => hc
  | succ fuel ih =>
      intro out
      rw [readMemoryLoop, readMemoryLoop]
      refine .ite (fun _ => ?_) fun _ => .pure fun _ _ hc => hc
      refine (transactSub_settled hP hA (by decide) (hkeep _ _ _ (by decide) (by decide))).bind ?_
      intro r
      cases r with
      | error e => exact .pure fun _ _ hc => hc
      | ok p =>
          refine .ite (fun _ => ?_) fun _ => .ite (fun _ => .pure fun _ _ hc => hc) fun _ => ?_
          · exact .ite (fun _ => .pure fun _ _ hc => hc) fun _ => .pure fun _ _ hc => hc
          · exact .ite (fun _ => .pure fun _ _ hc => hc) fun _ => ih _

theorem writeMemoryLoop_settled (addr : UInt64) (data : Bytes) (fuel : Nat) : ∀ total : Nat,
    Keeps π G A I I (writeMemoryLoop Q addr data fuel total)
      (writeMemoryLoop P addr data fuel total) := by
  induction fuel with
  | zero => exact fun _ => .pure fun _ _ hc => hc
  | succ fuel ih =>
      intro total
      rw [writeMemoryLoop, writeMemoryLoop]
      refine .ite (fun _ => ?_) fun _ => .pure fun _ _ hc => hc
      refine (transactSub_settled hP hA (by decide) (hkeep _ _ _ (by decide) (by decide))).bind ?_
      intro r
      cases r with
      | error e => exact .pure fun _ _ hc => hc
      | ok p => exact .ite (fun _ => .pure fun _ _ hc => hc) fun _ => ih _

theorem envEach_settled (sub : UInt8) (strings : List Bytes) :
    Keeps π G A I I (envEach Q sub strings) (envEach P sub strings) := by
  induction strings with
  | nil => exact .pure fun _ _ hc => hc
  | cons e es ih =>
      refine (acked_settled hP hA _ (by decide) (hkeep _ _ _ (by decide) (by decide))).bind ?_
      intro r
      cases r with
      | some err => exact .pure fun _ _ hc => hc
      | none => exact ih

theorem stage_settled (reset sub : UInt8) (strings : List Bytes) :
    Keeps π G A I I (stage Q reset sub strings) (stage P reset sub strings) := by
  refine (acked_settled hP hA _ (by decide) (hkeep _ _ _ (by decide) (by decide))).bind ?_
  intro r
  cases r with
  | some err => exact .pure fun _ _ hc => hc
  | none => exact envEach_settled hP hA hkeep sub strings

end Loops

end Settled

end Client

/-! ## Runs -/

section Runs

variable {ρ σ : Type} {Q : Peer ρ} {P : Peer σ} {π : ρ → σ} {G : ρ → Prop} {A : Bytes → Prop}
  {I J : ρ → Prop}

theorem errOnly_keeps {m : Act ρ (Option Err)} {n : Act σ (Option Err)}
    (h : Keeps π G A I J m n) : Keeps π G A I J (errOnly m) (errOnly n) :=
  h.bind fun _ => .pure fun _ _ hc => hc

theorem bytesOf_keeps {m : Act ρ (Bytes × Option Err)} {n : Act σ (Bytes × Option Err)}
    (h : Keeps π G A I J m n) : Keeps π G A I J (bytesOf m) (bytesOf n) :=
  h.bind fun _ => .pure fun _ _ hc => hc

variable (hP : Shows π G Q P) (hA : ∀ p, A p → Aside p)

include hP hA

theorem exec_attach_settled {pid : Int}
    (h : AnsweredUnder Q G I J (Orderly A cmdAttach) cmdAttach 0 (le32 (uint32 pid))) :
    Keeps π G A I J ((Op.attach pid).exec Q) ((Op.attach pid).exec P) :=
  errOnly_keeps (Client.acked_settled hP hA _ (by decide) h)

theorem exec_launch_settled
    (hall : ∀ cmd subcmd body, AnsweredUnder Q G I I (Orderly A cmd) cmd subcmd body)
    (path : Bytes) (args : List Bytes) (env : Option (List Bytes)) :
    Keeps π G A I I ((Op.launch path args env).exec Q) ((Op.launch path args env).exec P) := by
  have hstage := fun reset sub strings =>
    Client.stage_settled hP hA (fun cmd subcmd body _ _ => hall cmd subcmd body) reset sub strings
  refine (hstage _ _ _).bind ?_
  intro e
  cases e with
  | some err => exact .pure fun _ _ hc => hc
  | none =>
      refine (hstage _ _ _).bind ?_
      intro e
      cases e with
      | some err => exact .pure fun _ _ hc => hc
      | none =>
          refine (Client.fetched_settled hP hA _ (by decide) (hall _ _ _)).bind ?_
          intro r
          rcases r with ⟨b, _ | err⟩ <;> exact .pure fun _ _ hc => hc

/-- Every operation that neither attaches nor loads keeps the connection
settled. -/
theorem exec_settled
    (hkeep : ∀ cmd subcmd body, cmd ≠ cmdAttach → cmd ≠ cmdLoad →
      AnsweredUnder Q G I I (Orderly A cmd) cmd subcmd body)
    {op : Op} (hattach : ∀ pid, op ≠ .attach pid)
    (hlaunch : ∀ path args env, op ≠ .launch path args env) :
    Keeps π G A I I (op.exec Q) (op.exec P) := by
  have hack : ∀ cmd subcmd body refused, Plain cmd →
      Keeps π G A I I (errOnly (Client.acked Q cmd subcmd body refused))
        (errOnly (Client.acked P cmd subcmd body refused)) :=
    fun _ _ _ refused h =>
      errOnly_keeps (Client.acked_settled hP hA refused h.1 (hkeep _ _ _ h.2.1 h.2.2))
  have hfetch : ∀ cmd subcmd body refused, Plain cmd →
      Keeps π G A I I (Client.fetched Q cmd subcmd body refused)
        (Client.fetched P cmd subcmd body refused) :=
    fun _ _ _ refused h => Client.fetched_settled hP hA refused h.1 (hkeep _ _ _ h.2.1 h.2.2)
  cases op with
  | attach pid => exact absurd rfl (hattach pid)
  | launch path args env => exact absurd rfl (hlaunch path args env)
  | detach pid => exact hack _ _ _ _ (by decide)
  | kill pid => exact hack _ _ _ _ (by decide)
  | select pid tid => exact hack _ _ _ _ (by decide)
  | writeRegisters offset data => exact hack _ _ _ _ (by decide)
  | setBreakpoint addr size => exact hack _ _ _ _ (by decide)
  | clearBreakpoint addr => exact hack _ _ _ _ (by decide)
  | setWatchpoint typ addr size => exact hack _ _ _ _ (by decide)
  | handleSig table => exact hack _ _ _ _ (by decide)
  | readRegisters offset size => exact bytesOf_keeps (hfetch _ _ _ _ (by decide))
  | mapInfo pid => exact bytesOf_keeps (hfetch _ _ _ _ (by decide))
  | cpuInfo => exact bytesOf_keeps (hfetch _ _ _ _ (by decide))
  | threadNames => exact bytesOf_keeps (hfetch _ _ _ _ (by decide))
  | procInfo pid tid => exact bytesOf_keeps (hfetch _ _ _ _ (by decide))
  | pidlist pid tid next =>
      refine (hfetch _ _ _ _ (by decide)).bind ?_
      intro r
      rcases r with ⟨b, _ | err⟩ <;> exact .pure fun _ _ hc => hc
  | readMemory addr n => exact bytesOf_keeps (Client.readMemoryLoop_settled hP hA hkeep addr n _ _)
  | writeMemory addr data =>
      refine (Client.writeMemoryLoop_settled hP hA hkeep addr data _ _).bind ?_
      exact fun _ => .pure fun _ _ hc => hc
  | cont => exact Client.resume_settled hP hA (hkeep _ _ _ (by decide) (by decide))
  | step tid => exact Client.resume_settled hP hA (hkeep _ _ _ (by decide) (by decide))
  | stop =>
      refine errOnly_keeps ((Client.transactSub_settled hP hA (by decide)
        (hkeep _ _ _ (by decide) (by decide))).bind ?_)
      intro r
      cases r <;> exact .pure fun _ _ hc => hc

theorem runOps_settled
    (hall : ∀ cmd subcmd body, AnsweredUnder Q G I I (Orderly A cmd) cmd subcmd body)
    (ops : List Op) : Keeps π G A I I (runOps Q ops) (runOps P ops) := by
  have hop : ∀ op : Op, Keeps π G A I I (op.exec Q) (op.exec P) := by
    intro op
    cases op with
    | attach pid => exact exec_attach_settled hP hA (hall _ _ _)
    | launch path args env => exact exec_launch_settled hP hA hall path args env
    | _ => exact exec_settled hP hA (fun cmd subcmd body _ _ => hall cmd subcmd body) nofun nofun
  induction ops with
  | nil => exact .pure fun _ _ hc => hc
  | cons op ops ih => exact (hop op).bind fun _ => ih.bind fun _ => .pure fun _ _ hc => hc

end Runs

end QconnMcp.Qnxdbg
