import QconnMcp.Kit.Run
import QconnMcp.Mock.Pdebug
import QconnMcp.Tools.Debug

/-!
# The selected thread

`qconn_debug_select_thread` and the two ways of opening a session tell the target
which thread is meant, but the session does not remember it, and
`qconn_debug_step` always asks for thread 1. A tape of what goes out on the
connection shows the thread of each step request; `selection_honoured_iff` says in
which runs it is the one selected last.
-/

namespace QconnMcp.Tools

open Kit Qnxdbg QnxSession

/-! ## Runs of tools -/

/-- A session beside the thread that was selected last, by a tool that succeeded
or when the session was opened. -/
structure Selecting (σ : Type) where
  session : QnxSession σ
  selected : Option Int

section

variable {σ : Type} (P : Peer σ)

/-- A session as it is opened on a connected client. -/
def Opening.start (c : Client σ) (o : Opening) : Option (Selecting σ) :=
  (o.session P c).map fun r => ⟨r.1, r.2⟩

/-- The selection behind a call. -/
def Selecting.selection (s : Selecting σ) (t : Tool) : Option Int :=
  match t with
  | .selectThread tid => if ((t.exec P).run s.session).1.2 = none then some tid else s.selected
  | _ => s.selected

def Selecting.next (s : Selecting σ) (t : Tool) : Option (Selecting σ) :=
  (t.next P s.session).map fun q => ⟨q, s.selection P t⟩

end

/-! ## What a step sends -/

/-- The payload of a step request for a thread. -/
def stepRequest (mid : UInt8) (tid : Int) : Bytes :=
  message cmdRun runStep mid (runMsg 0 (uint32 tid))

section

variable {σ : Type}

/-- What a run request sends is what its transaction sends. -/
theorem resume_peer (P : Peer σ) (c : Client σ) (subcmd : UInt8) (tid : Nat) :
    ((Client.resume P subcmd tid).run c).2.peer =
      ((Client.transactSub P cmdRun subcmd (runMsg 0 tid)).run c).2.peer := by
  rw [Client.resume, run_bind]
  cases ((Client.transactSub P cmdRun subcmd (runMsg 0 tid)).run c).1 with
  | error e => rfl
  | ok p => exact Client.waitStop_sends_nothing _ _ rfl

theorem awaitStop_client (m : Qnxdbg.Act σ (Value × Option Err)) (q : QnxSession σ) :
    ((awaitStop m).run q).2.client = (m.run q.client).2 := by
  rw [awaitStop, run_bind, show (onClient m).run q = ((m.run q.client).1, _) from rfl]
  rcases (m.run q.client).1 with ⟨v, e⟩
  cases v <;> cases e <;> rfl

/-- The step tool asks for thread 1. -/
theorem step_peer (P : Peer σ) (q : QnxSession σ) :
    ((Tool.step.exec P).run q).2.client.peer =
      ((Client.transactSub P cmdRun runStep (runMsg 0 (uint32 1))).run q.client).2.peer := by
  show ((awaitStop (Client.step P 1)).run q).2.client.peer = _
  rw [awaitStop_client]
  exact resume_peer P q.client _ _

end

/-- A step request tells its thread. -/
theorem frame_stepRequest_inj {mid : UInt8} {tid tid' : Int} :
    frame (stepRequest mid tid) = frame (stepRequest mid tid') ↔ uint32 tid = uint32 tid' := by
  refine ⟨?_, ?_⟩
  · intro h
    have hflat : [stepRequest mid tid].flatMap frame = [stepRequest mid tid'].flatMap frame := by
      simpa using h
    have hreq : stepRequest mid tid = stepRequest mid tid' := by
      simpa using flatMap_frame_injective hflat
    have hfield : le32 (uint32 tid) = le32 (uint32 tid') := by
      simpa [stepRequest, message, runMsg] using hreq
    have hnat := congrArg leNat hfield
    rw [le32, le32, leNat_leBytes, leNat_leBytes] at hnat
    simp only [uint32] at hnat ⊢
    omega
  · intro h
    rw [stepRequest, stepRequest, h]

/-! ## Which runs honour the selection -/

section

variable {σ : Type}

/-- A step while a thread is selected sends nothing but a step request for it. -/
def Honours (P : Peer σ) (s : Selecting (σ × Bytes)) (t : Tool) : Prop :=
  t = .step → ∀ tid, s.selected = some tid →
    ((t.exec P.taped).run s.session).2.client.peer.2 ∈
      [s.session.client.peer.2,
        s.session.client.peer.2 ++ frame (stepRequest (s.session.client.mid + 1) tid)]

/-- Thread 1 is selected, or the request does not go out. -/
def FirstThread (P : Peer σ) (s : Selecting (σ × Bytes)) (t : Tool) : Prop :=
  t = .step → ∀ tid, s.selected = some tid →
    uint32 tid = 1 ∨
      P.recv s.session.client.peer.1 (frame (stepRequest (s.session.client.mid + 1) 1)) = none

theorem honours_iff (P : Peer σ) (s : Selecting (σ × Bytes)) (t : Tool) :
    Honours P s t ↔ FirstThread P s t := by
  refine forall_congr' ?_
  rintro rfl
  refine forall_congr' fun tid => forall_congr' fun _ => ?_
  rw [step_peer, List.mem_pair]
  cases hrecv : P.recv s.session.client.peer.1
      (frame (stepRequest (s.session.client.mid + 1) 1)) with
  | none =>
      -- the write fails, and the tape stays as it is
      rw [Client.transactSub_untaped hrecv]
      simp
  | some r =>
      rw [Client.transactSub_taped hrecv]
      have hsent : s.session.client.peer.2 ++ frame (stepRequest (s.session.client.mid + 1) 1) ≠
          s.session.client.peer.2 := by
        simp [frame]
      simp only [reduceCtorEq, or_false]
      refine (or_iff_right hsent).trans ?_
      refine (List.append_cancel_left_eq _ _ _).to_iff.trans ?_
      exact frame_stepRequest_inj.trans eq_comm

/-- **When the selection is honoured.** In a run of tools on a session, each step
asks for the thread selected last exactly when, at each step, that is thread 1 or
the connection takes no request. -/
theorem selection_honoured_iff (P : Peer σ) (s : Selecting (σ × Bytes)) (tools : List Tool) :
    Along (Selecting.next P.taped) (Honours P) s tools ↔
      Along (Selecting.next P.taped) (FirstThread P) s tools :=
  Along.congr_of_invariant (fun _ => True) (fun s t _ => honours_iff P s t)
    (fun _ _ _ _ _ _ => trivial) trivial

end

/-- A client that has shaken hands with the mock. -/
def mockClient : Client (Served Mock.Pdebug × Bytes) :=
  ⟨[], .timeout, (⟨Mock.Pdebug.start, []⟩, []), 1, [], []⟩

/-- On the mock, thread 5 is selected and thread 1 is stepped. -/
theorem selected_thread_not_stepped :
    ∃ s s', (Opening.attach 7).start Mock.serveDSMSG.taped mockClient = some s ∧
      s.next Mock.serveDSMSG.taped (.selectThread 5) = some s' ∧
      s'.selected = some 5 ∧
      ((Tool.step.exec Mock.serveDSMSG.taped).run s'.session).2.client.peer.2 =
        s'.session.client.peer.2 ++ frame (stepRequest (s'.session.client.mid + 1) 1) ∧
      ¬ Along (Selecting.next Mock.serveDSMSG.taped) (Honours Mock.serveDSMSG) s
        [.selectThread 5, .step] := by
  -- the run up to the step, and what the step adds to the tape
  have hrun : (((Opening.attach 7).start Mock.serveDSMSG.taped mockClient).bind fun s =>
      (s.next Mock.serveDSMSG.taped (.selectThread 5)).map fun s' =>
        (s'.selected, decide
          (((Tool.step.exec Mock.serveDSMSG.taped).run s'.session).2.client.peer.2 =
            s'.session.client.peer.2 ++ frame (stepRequest (s'.session.client.mid + 1) 1)))) =
      some (some 5, true) := by
    decide +kernel
  obtain ⟨s, hstart, hrun⟩ := Option.bind_eq_some_iff.mp hrun
  obtain ⟨s', hselect, hrun⟩ := Option.map_eq_some_iff.mp hrun
  obtain ⟨hselected, hsent⟩ := Prod.mk.inj hrun
  have hsent := of_decide_eq_true hsent
  refine ⟨s, s', hstart, hselect, hselected, hsent, ?_⟩
  intro hall
  have hhonours := (hall.2 s' hselect).1 rfl 5 hselected
  rw [hsent, List.mem_pair] at hhonours
  rcases hhonours with hnone | hfive
  · exact absurd hnone (by simp [frame])
  · have := frame_stepRequest_inj.mp (List.append_cancel_left hfive)
    exact absurd this (by decide)

end QconnMcp.Tools
