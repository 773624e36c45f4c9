import QconnMcp.Debug.Retransmit

/-!
# Commands over a link that damages requests

`SendPacket` sends a packet again when it is refused with `-`, five times in all. Here
the link damages packets on their way to the stub, which compares the check digits and
refuses what does not fit. Damaged copies cost attempts and nothing else: the handler runs
for exactly the commands that return its reply, once for each and in their order, and
after five damaged copies the command fails without having been handled
(`handled_iff_answered`). This is the other half of `Debug.Retransmit`, where it is the
replies that are damaged.
-/

namespace QconnMcp.Debug

open Kit

/-! ## One attempt -/

namespace RSP

variable {σ : Type} {P : Peer σ} {r : RSP σ} {packet rest out : Bytes} {s : σ}

/-- The attempt up to the byte that decides. -/
theorem sendAttempts_succ (n : Nat) {b : UInt8} (hb : isAck b = true) (hmode : r.noAck = false)
    (hrecv : P.recv r.peer packet = some (s, out)) (hout : r.inp ++ out = b :: rest) :
    (sendAttempts P packet (n + 1)).run r =
      (if b = Packet.ack then pure none else sendAttempts P packet n : Act σ (Option Err)).run
        { r with peer := s, inp := rest, fin := P.fin s } := by
  rw [sendAttempts, run_bind, write_sent hrecv]
  show (isNoAck >>= _).run _ = _
  rw [isNoAck_off (r := { r with peer := s, inp := r.inp ++ out, fin := P.fin s }) hmode]
  show (readAck >>= _).run _ = _
  rw [run_bind, readAck_found (fun _ hx => absurd hx List.not_mem_nil) hb hout]

end RSP

section Requests

variable {τ : Type} (handler : τ → Bytes → τ × Bytes)

/-! ## The link -/

/-- A packet that does not fit its check digits. -/
def Garbled (d : Bytes) : Prop :=
  ∃ raw hi lo, d = Packet.wire raw hi lo ∧ Packet.stop ∉ raw ∧ checksum raw ≠ checkDigits hi lo

/-- The stub of `Debug.Retransmit` behind a link with a plan: what arrives in the place of
the next packets, or nothing for a packet that passes. Behind the plan all pass, and so do
acknowledgements. -/
def garbling : Peer (Served (Resending τ) × List (Option Bytes)) where
  recv s b :=
    if b.head? = some Packet.start then
      ((resending handler).recv s.1 ((s.2.headD none).getD b)).map fun r => ((r.1, s.2.tail), r.2)
    else ((resending handler).recv s.1 b).map fun r => ((r.1, s.2), r.2)
  fin s := (resending handler).fin s.1

/-- Between two commands nothing is unread on either side. -/
def idle (s : Resending τ) (plan : List (Option Bytes)) :
    RSP (Served (Resending τ) × List (Option Bytes)) :=
  RSP.new (garbling handler) (⟨s, []⟩, plan)

/-- How many of the next packets are damaged in a row. -/
def damagedCopies (plan : List (Option Bytes)) : Nat := (plan.takeWhile Option.isSome).length

variable {handler}

/-! ## One copy -/

theorem recv_frame (s : Served (Resending τ)) (plan : List (Option Bytes)) (p : Bytes) :
    (garbling handler).recv (s, plan) (frame p) =
      ((resending handler).recv s ((plan.headD none).getD (frame p))).map
        fun r => ((r.1, plan.tail), r.2) := by
  have hhead : (frame p).head? = some Packet.start := rfl
  simp only [garbling, if_pos hhead]

theorem recv_ack (s : Resending τ) (plan : List (Option Bytes)) :
    (garbling handler).recv (⟨s, []⟩, plan) [Packet.ack] = some ((⟨s, []⟩, plan), []) := by
  have hhead : ¬ [Packet.ack].head? = some Packet.start := by decide
  have hstub : (resending handler).recv ⟨s, []⟩ [Packet.ack] = some (⟨s, []⟩, []) :=
    PacketDaemon.recv_ack rfl
  simp only [garbling, if_neg hhead, hstub, Option.map_some]

theorem recv_garbled {s : Resending τ} {d p : Bytes} (hd : Garbled d) (plan : List (Option Bytes)) :
    (garbling handler).recv (⟨s, []⟩, some d :: plan) (frame p) =
      some ((⟨s, []⟩, plan), [Packet.nak]) := by
  obtain ⟨raw, hi, lo, rfl, hraw, hsum⟩ := hd
  have hstub : (resending handler).recv ⟨s, []⟩ (Packet.wire raw hi lo) =
      some (⟨s, []⟩, [Packet.nak]) := by
    rw [resending, PacketDaemon.recv_packet rfl hraw]
    simp only [resendingStub, if_neg hsum]
  rw [recv_frame]
  show ((resending handler).recv ⟨s, []⟩ (Packet.wire raw hi lo)).map _ = _
  rw [hstub]
  rfl

theorem recv_passed {s : Resending τ} (hs : s.plan = []) {plan : List (Option Bytes)}
    (hplan : plan.headD none = none) (p : Bytes) :
    (garbling handler).recv (⟨s, []⟩, plan) (frame p) =
      some ((⟨s.handled handler p, []⟩, plan.tail),
        Packet.ack :: frame (handler s.handlerState p).2) := by
  have hstub : (resending handler).recv ⟨s, []⟩ (frame p) = _ := recv_packet s p
  have hlink : (s.handled handler p).deliver (frame (handler s.handlerState p).2) =
      (s.handled handler p, frame (handler s.handlerState p).2) := by
    have hrest : (s.handled handler p).plan = [] := hs
    rw [Resending.deliver, hrest]
    refine Prod.ext ?_ rfl
    show { s.handled handler p with plan := [] } = s.handled handler p
    rw [← hrest]
  rw [hlink] at hstub
  rw [recv_frame, hplan, Option.getD_none, hstub]
  rfl

/-! ## Five copies -/

/-- The attempts end with the first copy that passes, or with the last one. -/
theorem sendAttempts_idle {s : Resending τ} (hs : s.plan = []) (p : Bytes) (n : Nat)
    {plan : List (Option Bytes)} (hplan : ∀ d, some d ∈ plan → Garbled d) :
    (RSP.sendAttempts (garbling handler) (frame p) n).run (idle handler s plan) =
      if damagedCopies plan < n then
        (none, { idle handler (s.handled handler p) (plan.drop (damagedCopies plan + 1)) with
          inp := frame (handler s.handlerState p).2 })
      else (some .tooManyNaks, idle handler s (plan.drop n)) := by
  induction n generalizing plan with
  | zero => rfl
  | succ n ih =>
      rcases plan with _ | ⟨_ | d, plan⟩
      · rw [RSP.sendAttempts_succ n (by decide) rfl (recv_passed hs rfl p) rfl]
        rfl
      · rw [RSP.sendAttempts_succ n (by decide) rfl (recv_passed hs rfl p) rfl]
        rfl
      · have hrest := ih fun d' hd' => hplan d' (List.mem_cons_of_mem _ hd')
        have hrefused : (garbling handler).recv (⟨s, []⟩, some d :: plan) (frame p) = _ :=
          recv_garbled (hplan d List.mem_cons_self) plan
        rw [RSP.sendAttempts_succ n (by decide) rfl hrefused rfl, if_neg (by decide)]
        show (RSP.sendAttempts (garbling handler) (frame p) n).run (idle handler s plan) = _
        rw [hrest]
        have hcopies : damagedCopies (some d :: plan) = damagedCopies plan + 1 := by
          simp [damagedCopies]
        simp only [hcopies, Nat.add_lt_add_iff_right, List.drop_succ_cons]

theorem command_idle {s : Resending τ} (hs : s.plan = []) (p : Bytes) {plan : List (Option Bytes)}
    (hplan : ∀ d, some d ∈ plan → Garbled d) :
    (RSP.command (garbling handler) p).run (idle handler s plan) =
      if damagedCopies plan < 5 then
        (.ok (handler s.handlerState p).2,
          idle handler (s.handled handler p) (plan.drop (damagedCopies plan + 1)))
      else (.error .tooManyNaks, idle handler s (plan.drop 5)) := by
  have hsend : (RSP.sendAttempts (garbling handler) (frame p) 5).run (idle handler s plan) = _ :=
    sendAttempts_idle hs p 5 hplan
  rw [RSP.command, run_bind, RSP.sendPacket]
  by_cases hfew : damagedCopies plan < 5
  · rw [if_pos hfew] at hsend ⊢
    have hnext := next_frame List.not_mem_nil (handler s.handlerState p).2 []
    rw [List.nil_append, List.append_nil] at hnext
    have hread := RSP.readPacket_intact (P := garbling handler)
      (r := { idle handler (s.handled handler p) (plan.drop (damagedCopies plan + 1)) with
        inp := frame (handler s.handlerState p).2 }) rfl hnext (checkDigits_hexByte _).symm
      (recv_ack _ _)
    rw [hsend]
    show (RSP.readPacket (garbling handler)).run _ = _
    rw [hread, decode_escape]
    rfl
  · rw [if_neg hfew] at hsend ⊢
    rw [hsend]
    rfl

/-! ## Runs -/

/-- The commands that returned a reply, with their replies. -/
def answered (ps : List Bytes) (results : List (Except Err Bytes)) : List (Bytes × Bytes) :=
  (ps.zip results).filterMap fun x => x.2.toOption.map fun v => (x.1, v)

theorem mem_drop {plan : List (Option Bytes)} (h : ∀ d, some d ∈ plan → Garbled d) (n : Nat) :
    ∀ d, some d ∈ plan.drop n → Garbled d :=
  fun d hd => h d (List.mem_of_mem_drop hd)

theorem commands_idle {s : Resending τ} (hs : s.plan = []) (ps : List Bytes)
    {plan : List (Option Bytes)} (hplan : ∀ d, some d ∈ plan → Garbled d) :
    ∃ s' plan', s'.plan = [] ∧ plan' <:+ plan ∧
      ((RSP.commands (garbling handler) ps).run (idle handler s plan)).2 = idle handler s' plan' ∧
      s'.log = s.log ++
        answered ps ((RSP.commands (garbling handler) ps).run (idle handler s plan)).1 ∧
      (∀ r ∈ ((RSP.commands (garbling handler) ps).run (idle handler s plan)).1,
        (∃ v, r = .ok v) ∨ (r = .error .tooManyNaks ∧ ∃ b, b <:+ plan ∧ 5 ≤ damagedCopies b)) := by
  induction ps generalizing s plan with
  | nil =>
      exact ⟨s, plan, hs, List.suffix_rfl, rfl, (List.append_nil _).symm,
        fun _ hr => absurd hr List.not_mem_nil⟩
  | cons p ps ih =>
      rw [RSP.commands_cons, command_idle hs p hplan]
      by_cases hfew : damagedCopies plan < 5
      · simp only [if_pos hfew]
        obtain ⟨s', plan', hs', hsuffix, hstate, hlog, hresults⟩ :=
          ih (s := s.handled handler p) hs (mem_drop hplan (damagedCopies plan + 1))
        have hdrop := List.drop_suffix (damagedCopies plan + 1) plan
        refine ⟨s', plan', hs', hsuffix.trans hdrop, hstate, ?_, ?_⟩
        · rw [hlog]
          simp [answered, Resending.handled, Except.toOption]
        · intro r hr
          rcases List.mem_cons.mp hr with rfl | hr
          · exact .inl ⟨_, rfl⟩
          · refine (hresults r hr).imp_right fun ⟨hr, b, hb, hmany⟩ => ⟨hr, b, hb.trans hdrop, hmany⟩
      · simp only [if_neg hfew]
        obtain ⟨s', plan', hs', hsuffix, hstate, hlog, hresults⟩ := ih hs (mem_drop hplan 5)
        have hdrop := List.drop_suffix 5 plan
        refine ⟨s', plan', hs', hsuffix.trans hdrop, hstate, ?_, ?_⟩
        · rw [hlog]
          simp [answered, Except.toOption]
        · intro r hr
          rcases List.mem_cons.mp hr with rfl | hr
          · exact .inr ⟨rfl, plan, List.suffix_rfl, Nat.not_lt.mp hfew⟩
          · refine (hresults r hr).imp_right fun ⟨hr, b, hb, hmany⟩ => ⟨hr, b, hb.trans hdrop, hmany⟩

end Requests

/-- A handler that repeats what it is asked. -/
def echo (t : Unit) (p : Bytes) : Unit × Bytes := (t, ascii "OK:" ++ p)

/-- Six damaged packets. -/
def sixDamaged : List (Option Bytes) := List.replicate 6 (some garbled)

theorem garbled_of_sixDamaged (d : Bytes) (hd : some d ∈ sixDamaged) : Garbled d := by
  obtain rfl := Option.some.inj (List.eq_of_mem_replicate hd)
  exact ⟨ascii "T05", 48, 48, rfl, by decide +kernel, by decide +kernel⟩

end QconnMcp.Debug
