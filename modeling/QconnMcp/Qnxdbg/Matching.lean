import QconnMcp.Mock.Pdebug

/-!
# Replies and the requests they answer

`transactSub` does not compare the message id of what it reads with the one it
sent, nor does it look for the notification code. A target that answers every
request once may still send notifications between its replies (`Interleaved`),
and its answers may arrive after the deadline of the command that waits for them
(`Peer.delayed`). Either puts a frame in front of the reply, and from then on
every command takes the answer to an earlier one for its own.

The commands match replies to requests as long as the answers to the requests that are made
arrive in time and notifications come only behind the reply to a Run request, where
`Continue` and `Step` wait for them (`replies_matched`).
-/

namespace QconnMcp.Qnxdbg

open Kit

/-! ## Targets that answer every request once -/

/-- Beside the reply, a target sends skippable frames and notifications. -/
def Interleaved (pre post : List Bytes) : Prop := ∀ p ∈ pre ++ post, Aside p ∨ IsNotice p

theorem Orderly.mono {A B : Bytes → Prop} (h : ∀ p, A p → B p) {cmd : UInt8} {pre post : List Bytes}
    (ho : Orderly A cmd pre post) : Orderly B cmd pre post := by
  refine ⟨fun a ha => h a (ho.1 a ha), ?_⟩
  rcases ho.2 with hpost | ⟨hrun, l, notice, r, rfl, hl, hnotice, hr⟩
  · exact .inl fun a ha => h a (hpost a ha)
  · exact .inr ⟨hrun, l, notice, r, rfl, fun a ha => h a (hl a ha), hnotice,
      fun a ha => h a (hr a ha)⟩

section Targets

variable {σ : Type} {P : Peer σ} {I J : σ → Prop} {shape shape' : List Bytes → List Bytes → Prop}
  {cmd subcmd : UInt8} {body : Bytes}

theorem Answered.mono (h : Answered P I J shape cmd subcmd body)
    (hshape : ∀ pre post, shape pre post → shape' pre post) :
    Answered P I J shape' cmd subcmd body := by
  intro s mid hs
  rcases h s mid hs with hnone | ⟨t, pre, reply, post, hrecv, hJ, hreply, hpost⟩
  · exact .inl hnone
  · exact .inr ⟨t, pre, reply, post, hrecv, hJ, hreply, hshape pre post hpost⟩

end Targets

/-! ## Matching -/

section Matching

variable {σ : Type}

/-- The requests that the target takes in a run of commands, each with the state in which it
takes it. -/
def requests (P : Peer σ) (c : Client σ) (ops : List Op) : List (σ × Bytes) :=
  ((runOps P.recorded ops).run (⟨c.inp, c.fin, (c.peer, []), c.mid, c.output, c.replies⟩)).2.peer.2

/-- In the state `s` the target answers the request `b` with one reply and, but for one
notification behind the reply to a Run request, with skippable frames. -/
def InOrder (P : Peer σ) (s : σ) (b : Bytes) : Prop :=
  ∀ cmd subcmd mid body t out, b = frame (message cmd subcmd mid body) → P.recv s b = some (t, out) →
    ∃ pre reply post, out = (pre ++ reply :: post).flatMap frame ∧ IsReply mid reply ∧
      Orderly Aside cmd pre post

/-- The answer to a request comes in time and in order. -/
def Answerable (P : Peer σ) (e : InFlight σ × Bytes) : Prop :=
  OnTime e.1 ∧ InOrder P e.1.inner e.2

variable {P : Peer σ}

theorem recorded_shows (Good : σ × Bytes → Prop) :
    Shows Prod.fst (fun s : Recorded σ => ∀ e ∈ s.2, Good e) P.recorded P where
  recv := Peer.recv_recorded
  fin _ := rfl
  back := Peer.recorded_back

/-- A request on record is answered as the record says. -/
theorem recorded_answered (cmd subcmd : UInt8) (body : Bytes) :
    AnsweredUnder P.delayed.recorded (fun s => ∀ e ∈ s.2, Answerable P e) (fun _ => True)
      (fun _ => True) (Orderly Aside cmd) cmd subcmd body := by
  intro s mid _
  refine ⟨fun _ => trivial, ?_⟩
  intro t out hrecv hall
  obtain ⟨htaken, hlog⟩ := Peer.recorded_some hrecv
  rw [hlog] at hall
  obtain ⟨htime, horder⟩ := hall _ (List.mem_append_right _ List.mem_cons_self)
  obtain ⟨hinner, -⟩ := Peer.delayed_onTime htime htaken
  obtain ⟨pre, reply, post, hout, hreply, hshape⟩ := horder cmd subcmd mid body _ _ rfl hinner
  exact ⟨pre, reply, post, hout, trivial, hreply, hshape⟩

/-- **Own replies.** In every run of commands from a settled connection whose requests the
target answers in order and in time, all that `transactSub` has returned are replies to
their own requests. -/
theorem replies_matched {c : Client (InFlight σ)} (hc : Settled Aside (fun _ => True) c)
    {ops : List Op} (hP : ∀ e ∈ requests P.delayed c ops, Answerable P e) :
    ∀ r ∈ ((runOps P.delayed ops).run c).2.replies,
      r.2[2]? = some r.1 ∧ respCode r.2 ≠ respNotify := by
  have hrun := runOps_settled (recorded_shows (Answerable P)) (fun _ h => h) recorded_answered ops
  obtain ⟨-, hshown, hend⟩ := hrun.ends _ c ⟨rfl, hc.unread, trivial, hc.matched⟩ hP
  intro r hr
  rw [hshown] at hr
  have hreply := hend.matched r hr
  exact ⟨hreply.mid_eq, hreply.code_ne⟩

/-- A target that answers every request in order, on a link that holds nothing back. -/
theorem requests_answerable {Idle : σ → Prop}
    (hP : ∀ cmd subcmd body, Answered P Idle Idle (Orderly Aside cmd) cmd subcmd body)
    {c : Client (InFlight σ)} (hc : Settled Aside (fun s => Idle s.inner ∧ InTime s) c)
    (ops : List Op) : ∀ e ∈ requests P.delayed c ops, Answerable P e := by
  have hanswered : ∀ cmd subcmd body, AnsweredUnder P.delayed.recorded (fun _ => True)
      (fun s => (Idle s.1.inner ∧ InTime s.1) ∧ ∀ e ∈ s.2, Answerable P e)
      (fun s => (Idle s.1.inner ∧ InTime s.1) ∧ ∀ e ∈ s.2, Answerable P e)
      (Orderly Aside cmd) cmd subcmd body := by
    rintro cmd subcmd body s mid ⟨⟨hidle, htime⟩, hlog⟩
    refine ⟨fun _ => ⟨⟨hidle, htime⟩, hlog⟩, ?_⟩
    intro t out hrecv _
    obtain ⟨htaken, hnext⟩ := Peer.recorded_some hrecv
    obtain ⟨hinner, htime'⟩ := Peer.delayed_some htime htaken
    have horder : InOrder P s.1.inner (frame (message cmd subcmd mid body)) := by
      intro cmd' subcmd' mid' body' t' out' heq hsome
      rw [heq] at hsome
      obtain ⟨pre, reply, post, hout, -, hreply, hshape⟩ :=
        ((hP cmd' subcmd' body').under s.1.inner mid' hidle).2 t' out' hsome trivial
      exact ⟨pre, reply, post, hout, hreply, hshape⟩
    obtain ⟨pre, reply, post, hout, hidle', hreply, hshape⟩ :=
      ((hP cmd subcmd body).under s.1.inner mid hidle).2 _ out hinner trivial
    refine ⟨pre, reply, post, hout, ⟨⟨hidle', htime'⟩, ?_⟩, hreply, hshape⟩
    intro e he
    rw [hnext] at he
    rcases List.mem_append.mp he with he | he
    · exact hlog e he
    · obtain rfl := List.mem_singleton.mp he
      exact ⟨htime.onTime, horder⟩
  have hrun := runOps_settled (.refl P.delayed.recorded) (fun _ h => h) hanswered ops
  have hstart : ∀ e ∈ ([] : List (InFlight σ × Bytes)), Answerable P e := nofun
  exact (hrun.holds _ ⟨hc.unread, ⟨hc.idle, hstart⟩, hc.matched⟩).idle.2

end Matching

/-! ## A target for the witness -/

/-- A new connection to the mock, whose answers are released as `plan` says. -/
def mockConn (plan : List (Option Nat)) : Client (InFlight (Served Mock.Pdebug)) :=
  ⟨[], .timeout, ⟨⟨.start, []⟩, [], plan⟩, 1, [], []⟩

theorem mock_answers (cmd subcmd : UInt8) (body : Bytes) :
    Answered Mock.serveDSMSG (fun s => s.pending = []) (fun s => s.pending = [])
      (Orderly Aside cmd) cmd subcmd body :=
  (Mock.serveDSMSG_answers (fun _ h => h) fun _ _ _ => rfl).mono fun _ _ h =>
    h.mono fun _ hp => hp.elim

theorem replies_matched_session :
    let ops : List Op := [.attach 7, .cont, .readMemory 0x4000 8]
    Settled Aside (fun _ => True) (mockConn []) ∧
      (∀ e ∈ requests Mock.serveDSMSG.delayed (mockConn []) ops, Answerable Mock.serveDSMSG e) ∧
      ∀ r ∈ ((runOps Mock.serveDSMSG.delayed ops).run (mockConn [])).2.replies,
        r.2[2]? = some r.1 ∧ respCode r.2 ≠ respNotify := by
  intro ops
  have hunread : ∃ as : List Bytes, (∀ a ∈ as, Aside a) ∧ (mockConn []).inp = as.flatMap frame :=
    ⟨[], nofun, rfl⟩
  have hreqs := requests_answerable mock_answers (c := mockConn [])
    ⟨hunread, ⟨rfl, rfl, nofun⟩, nofun⟩ ops
  exact ⟨⟨hunread, trivial, nofun⟩, hreqs, replies_matched ⟨hunread, trivial, nofun⟩ hreqs⟩

/-! ## Frames that overtake a reply -/

/-- A target that follows every reply with a stop notification. -/
def restlessHandle (_ : Unit) (content : Bytes) : Unit × Bytes :=
  match decode content with
  | .ok (_ :: _ :: mid :: _) =>
      ((), [message 0x21 0 mid [], message respNotify 0 0 (le32 7 ++ le32 1)].flatMap frame)
  | _ => ((), [])

def restless : Peer (Served Unit) := stuffing.toPeer restlessHandle

theorem restless_answers (cmd subcmd : UInt8) (body : Bytes) :
    Answered restless (fun s => s.pending = []) (fun s => s.pending = []) Interleaved cmd subcmd
      body := by
  intro t mid ht
  obtain ⟨⟨⟩, pending⟩ := t
  obtain rfl : pending = [] := ht
  have hrecv := stuffing.recv_framed restlessHandle (stuffing.delim_not_mem_escape _)
    (escape_checked_ne_nil (message cmd subcmd mid body)) ()
  rw [restlessHandle, decode_escape, ← frame_eq] at hrecv
  refine .inr ⟨_, [], message 0x21 0 mid [], [message respNotify 0 0 (le32 7 ++ le32 1)], hrecv, rfl,
    isReply_message (by decide) 0 mid [], ?_⟩
  intro p hp
  rw [List.nil_append, List.mem_singleton] at hp
  subst hp
  exact .inr ⟨not_aside_message _ _ _ _, rfl⟩

def restlessConn : Client (Served Unit) := ⟨[], .timeout, ⟨(), []⟩, 1, [], []⟩

/-- What `transactSub` has returned: the id sent, and the id and code received. -/
def noted {σ : Type} (c : Client σ) : List (UInt8 × Option UInt8 × UInt8) :=
  c.replies.map fun m => (m.1, m.2[2]?, respCode m.2)

/-- `ReadMemory` returns a stop notification, or the late reply to `Attach`, as
the contents of memory. -/
theorem overtaken_replies :
    (∀ cmd subcmd body, Answered restless (fun s => s.pending = []) (fun s => s.pending = [])
      Interleaved cmd subcmd body) ∧
      let ops : List Op := [.attach 7, .readMemory 0x4000 8]
      let stray := (runOps restless ops).run restlessConn
      let late := (runOps Mock.serveDSMSG.delayed ops).run (mockConn [some 0])
      stray.1 = [(.nothing, none), (.data [7, 0, 0, 0, 1, 0, 0, 0], none)] ∧
        noted stray.2 = [(2, some 2, 0x21), (3, some 0, respNotify)] ∧
        late.1 = [(.nothing, some (.read (.io .timeout))), (.data [0, 0, 0, 0, 0, 0, 0, 0], none)] ∧
        noted late.2 = [(3, some 2, 0x23)] := by
  refine ⟨restless_answers, ?_⟩
  decide +kernel

end QconnMcp.Qnxdbg
