import QconnMcp.Kit.Run
import QconnMcp.Mock.Rsp

/-!
# Commands over a link that damages replies

A stub that acknowledges each intact packet, hands it to its handler once, and
sends its last reply again on every `-`; between it and the client a link that
may replace any reply packet on its way. `ReadPacket` asks for a damaged reply
again but does not wait for it, so the second copy is still unread when the next
command looks for its acknowledgement. As long as no byte of it can be mistaken
for one, every command takes the stub's own acknowledgement, is handled exactly
once, and every reply returned is its own (`handled_exactly_once`).
-/

namespace QconnMcp.Debug

open Kit

/-! ## Stub and link -/

/-- The stub and the link. `log` is a ghost: what the handler got and what it
replied. -/
structure Resending (τ : Type) where
  handlerState : τ
  /-- The last reply packet. -/
  last : Option Bytes
  /-- What the link makes of the next reply packets: the bytes that arrive in its
  place, or nothing when it lets the packet pass. Behind the list all pass. -/
  plan : List (Option Bytes)
  log : List (Bytes × Bytes)
  deriving DecidableEq

namespace Resending

variable {τ : Type}

/-- A reply packet on its way. -/
def deliver (s : Resending τ) (packet : Bytes) : Resending τ × Bytes :=
  ({ s with plan := s.plan.tail }, (s.plan.headD none).getD packet)

/-- The stub after its handler has run on a payload. -/
def handled (handler : τ → Bytes → τ × Bytes) (s : Resending τ) (payload : Bytes) : Resending τ :=
  let r := handler s.handlerState payload
  { s with handlerState := r.1, last := some (frame r.2), log := s.log ++ [(payload, r.2)] }

end Resending

section Stub

variable {τ : Type} (handler : τ → Bytes → τ × Bytes)

def resendingStub : PacketDaemon (Resending τ) where
  isOpen _ := true
  handle s raw hi lo :=
    if checksum raw = checkDigits hi lo then
      let payload := Mock.rspDecode raw
      let r := (s.handled handler payload).deliver (frame (handler s.handlerState payload).2)
      (r.1, Packet.ack :: r.2)
    else (s, [Packet.nak])
  again s :=
    match s.last with
    | none => (s, [])
    | some packet => s.deliver packet
  lingers _ := false

def resending : Peer (Served (Resending τ)) := (resendingStub handler).toPeer

/-- The client and the stub on a new connection, for some choice of the link. -/
def connected (t : τ) (plan : List (Option Bytes)) : RSP (Served (Resending τ)) :=
  RSP.new (resending handler) ⟨⟨t, none, plan, []⟩, []⟩

end Stub

/-! ## What can be mistaken -/

/-- No `+` and no `-` is among the unread bytes. -/
def unmistakable (unread : Bytes) : Bool := unread.all fun b => !RSP.isAck b

/-- The bytes hold no complete packet, or their first one has wrong digits. -/
def damaged (d : Bytes) : Bool :=
  (Packet.next d).all fun p => checksum p.1 != checkDigits p.2.1 p.2.2.1

/-- Nothing unread can be mistaken, and if the link damages the next reply, it
shows. -/
structure Clear {τ : Type} (r : RSP (Served (Resending τ))) : Prop where
  unread : unmistakable r.inp = true
  link : (r.peer.state.plan.headD none).all damaged = true

/-! ## One command -/

section Command

variable {τ : Type} {handler : τ → Bytes → τ × Bytes}

/-- Between commands: acknowledgements are on and the stub has read everything. -/
structure Ready (r : RSP (Served (Resending τ))) : Prop where
  ackMode : r.noAck = false
  pending : r.peer.pending = []

theorem recv_packet (s : Resending τ) (p : Bytes) :
    (resending handler).recv ⟨s, []⟩ (frame p) =
      some (⟨((s.handled handler p).deliver (frame (handler s.handlerState p).2)).1, []⟩,
        Packet.ack :: ((s.handled handler p).deliver (frame (handler s.handlerState p).2)).2) := by
  rw [frame, resending, PacketDaemon.recv_packet rfl (escape_framed p)]
  simp only [resendingStub, checkDigits_hexByte, if_true, Mock.rspDecode_escape]

theorem log_again (s : Resending τ) : ((resendingStub handler).again s).1.log = s.log := by
  simp only [resendingStub]
  split <;> rfl

/-- `SendPacket` takes the acknowledgement that the stub sends for this packet: what
was unread is gone, the packet went out once, and all that is left to read is what
the stub sent behind its `+`. -/
def OwnAck (handler : τ → Bytes → τ × Bytes) (r : RSP (Served (Resending τ))) (p : Bytes) : Prop :=
  ∃ s out, (resending handler).recv r.peer (frame p) = some (s, Packet.ack :: out) ∧
    (RSP.sendPacket (resending handler) p).run r =
      (none, { r with peer := s, inp := out, fin := (resending handler).fin s })

theorem sendPacket_own {r : RSP (Served (Resending τ))} (hr : Ready r)
    (hclear : unmistakable r.inp = true) (p : Bytes) :
    (RSP.sendPacket (resending handler) p).run r =
      (none, { r with
        peer := ⟨((r.peer.state.handled handler p).deliver
          (frame (handler r.peer.state.handlerState p).2)).1, []⟩
        inp := ((r.peer.state.handled handler p).deliver
          (frame (handler r.peer.state.handlerState p).2)).2
        fin := .timeout }) := by
  obtain ⟨inp, fin, ⟨s, pending⟩, noAck⟩ := r
  obtain ⟨rfl, rfl⟩ : noAck = false ∧ pending = [] := ⟨hr.ackMode, hr.pending⟩
  have hnoise : ∀ x ∈ inp, RSP.isAck x = false := by
    intro x hx
    simpa using List.all_eq_true.mp hclear x hx
  exact RSP.sendPacket_acked inp (P := resending handler) rfl (recv_packet s p) hnoise rfl

theorem ownAck_of_clear {r : RSP (Served (Resending τ))} (hr : Ready r)
    (hclear : unmistakable r.inp = true) (p : Bytes) : OwnAck handler r p := by
  obtain ⟨inp, fin, ⟨s, pending⟩, noAck⟩ := r
  obtain rfl : pending = [] := hr.pending
  exact ⟨_, _, recv_packet s p, sendPacket_own hr hclear p⟩

/-- What a command comes to when nothing can be mistaken. -/
structure Handled (handler : τ → Bytes → τ × Bytes) (r r' : RSP (Served (Resending τ))) (p : Bytes)
    (res : Except Err Bytes) : Prop where
  once : r'.peer.state.log =
    r.peer.state.log ++ [(p, (handler r.peer.state.handlerState p).2)]
  own : ∀ v, res = .ok v → v = (handler r.peer.state.handlerState p).2
  ready : Ready r'

theorem command_handled {r : RSP (Served (Resending τ))} (hr : Ready r) (hclear : Clear r)
    (p : Bytes) :
    Handled handler r ((RSP.command (resending handler) p).run r).2 p
      ((RSP.command (resending handler) p).run r).1 := by
  rw [RSP.command, run_bind, sendPacket_own hr hclear.unread]
  obtain ⟨inp, fin, ⟨s, pending⟩, noAck⟩ := r
  obtain ⟨rfl, rfl⟩ : noAck = false ∧ pending = [] := ⟨hr.ackMode, hr.pending⟩
  show Handled handler _ ((RSP.readPacket (resending handler)).run _).2 p
    ((RSP.readPacket (resending handler)).run _).1
  rcases hplan : s.plan.headD none with _ | d
  · -- the reply passes
    have hintact : ((s.handled handler p).deliver (frame (handler s.handlerState p).2)).2 =
        frame (handler s.handlerState p).2 := by
      show (s.plan.headD none).getD _ = _
      rw [hplan]
      rfl
    rw [hintact]
    have hnext := next_frame List.not_mem_nil (handler s.handlerState p).2 []
    rw [List.nil_append, List.append_nil] at hnext
    rw [RSP.readPacket_intact rfl hnext (checkDigits_hexByte _).symm (PacketDaemon.recv_ack rfl),
      decode_escape]
    refine ⟨rfl, ?_, rfl, rfl⟩
    rintro v ⟨⟩
    rfl
  · -- it is damaged: an error either way
    have hdamaged : damaged d = true := by
      have hlink : (s.plan.headD none).all damaged = true := hclear.link
      rwa [hplan] at hlink
    have harrives : ((s.handled handler p).deliver (frame (handler s.handlerState p).2)).2 = d := by
      show (s.plan.headD none).getD _ = _
      rw [hplan]
      rfl
    rw [harrives]
    rcases hnext : Packet.next d with _ | ⟨raw, hi, lo, rest⟩
    · rw [RSP.readPacket_dry hnext]
      refine ⟨rfl, ?_, rfl, rfl⟩
      rintro v ⟨⟩
    · have hsum : checksum raw ≠ checkDigits hi lo := by
        rw [damaged, hnext] at hdamaged
        simpa using hdamaged
      rw [RSP.readPacket_damaged rfl hnext hsum (PacketDaemon.recv_nak rfl)]
      refine ⟨log_again _, ?_, rfl, rfl⟩
      rintro v ⟨⟩

/-! ## Runs -/

/-- One command as a step of the whole system. -/
def commandStep (handler : τ → Bytes → τ × Bytes) (r : RSP (Served (Resending τ))) (p : Bytes) :
    Option (RSP (Served (Resending τ))) :=
  some ((RSP.command (resending handler) p).run r).2

theorem commands_handled {r : RSP (Served (Resending τ))} (hr : Ready r) {ps : List Bytes}
    (h : Along (commandStep handler) (fun r _ => Clear r) r ps) :
    ∃ entries : List (Bytes × Bytes), entries.map Prod.fst = ps ∧
      ((RSP.commands (resending handler) ps).run r).2.peer.state.log =
        r.peer.state.log ++ entries ∧
      ∀ (i : Nat) v, ((RSP.commands (resending handler) ps).run r).1[i]? = some (.ok v) →
        (entries.map Prod.snd)[i]? = some v := by
  induction ps generalizing r with
  | nil =>
      refine ⟨[], rfl, (List.append_nil _).symm, ?_⟩
      intro i v hi
      exact absurd hi nofun
  | cons p ps ih =>
      obtain ⟨hclear, hrest⟩ := h
      have hcmd : Handled handler r _ p _ := command_handled hr hclear p
      obtain ⟨entries, hfst, hlog, hown⟩ := ih hcmd.ready (hrest _ rfl)
      refine ⟨(p, (handler r.peer.state.handlerState p).2) :: entries, ?_, ?_, ?_⟩
      · rw [List.map_cons, hfst]
      · rw [RSP.commands_cons]
        show ((RSP.commands (resending handler) ps).run
          ((RSP.command (resending handler) p).run r).2).2.peer.state.log = _
        rw [hlog, hcmd.once, List.append_assoc]
        rfl
      · intro i v hi
        rw [RSP.commands_cons] at hi
        cases i with
        | zero => exact congrArg some (hcmd.own v (Option.some.inj hi)).symm
        | succ i => exact hown i v hi

/-- **Exactly once.** In every run in which, before each command, nothing unread
can be mistaken for its acknowledgement and damage to its reply shows, the handler
gets each payload once and in order, a command that returns without an error
returns the reply the handler gave to it, and no command takes a byte of an earlier
reply for its acknowledgement. -/
theorem handled_exactly_once (handler : τ → Bytes → τ × Bytes) (t : τ) (plan : List (Option Bytes))
    (ps : List Bytes)
    (h : Along (commandStep handler) (fun r _ => Clear r) (connected handler t plan) ps) :
    let out := (RSP.commands (resending handler) ps).run (connected handler t plan)
    out.2.peer.state.log.map Prod.fst = ps ∧
      (∀ (i : Nat) v, out.1[i]? = some (.ok v) →
        (out.2.peer.state.log.map Prod.snd)[i]? = some v) ∧
      Along (commandStep handler) (OwnAck handler) (connected handler t plan) ps := by
  obtain ⟨entries, hfst, hlog, hown⟩ := commands_handled ⟨rfl, rfl⟩ h
  rw [show (connected handler t plan).peer.state.log = [] from rfl, List.nil_append] at hlog
  simp only [hlog]
  have hready : Ready (connected handler t plan) := ⟨rfl, rfl⟩
  refine ⟨hfst, hown, h.of_invariant ?_ ?_ hready⟩
  · intro r p r' hr hclear hstep
    obtain rfl := Option.some.inj hstep
    exact (command_handled hr hclear p).ready
  · exact fun r p hr hclear => ownAck_of_clear hr hclear.unread p

end Command

/-- A packet whose digits do not fit. -/
def garbled : Bytes := Packet.wire (ascii "T05") 48 48

/-- The first reply is damaged and comes again; it holds neither `+` nor `-`. -/
theorem handled_exactly_once_damaged :
    let handler : Unit → Bytes → Unit × Bytes := fun _ p => ((), ascii "OK:" ++ p)
    let ps := [ascii "c", ascii "s"]
    Along (commandStep handler) (fun r _ => Clear r) (connected handler () [some garbled]) ps ∧
      ((RSP.commands (resending handler) ps).run
        (connected handler () [some garbled])).2.peer.state.log.map Prod.fst = ps ∧
      Along (commandStep handler) (OwnAck handler) (connected handler () [some garbled]) ps := by
  intro handler ps
  have hrun : Along (commandStep handler) (fun r _ => Clear r)
      (connected handler () [some garbled]) ps := by
    refine ⟨⟨rfl, by decide +kernel⟩, ?_⟩
    intro r hr
    obtain rfl := Option.some.inj hr
    exact ⟨⟨by decide +kernel, by decide +kernel⟩, fun _ _ => trivial⟩
  have hout := handled_exactly_once handler () [some garbled] ps hrun
  exact ⟨hrun, hout.1, hout.2.2⟩

/-- A reply with a `-` is damaged and comes again. The next command takes the `-`
of the copy for a refusal of its own packet and sends it twice. When the reply has a
`+`, the next command takes that for its acknowledgement, and the stub's is unread. -/
theorem handled_twice_after_damage :
    let handler : Bytes → Unit → Bytes → Unit × Bytes := fun reply _ _ => ((), reply)
    let ps := [ascii "c", ascii "s"]
    let out := fun reply => (RSP.commands (resending (handler reply)) ps).run
      (connected (handler reply) () [some garbled])
    let later := fun reply => ((RSP.sendPacket (resending (handler reply)) (ascii "s")).run
      ((RSP.command (resending (handler reply)) (ascii "c")).run
        (connected (handler reply) () [some garbled])).2)
    (out (ascii "T05thread:p1.-1;")).2.peer.state.log.map Prod.fst =
        [ascii "c", ascii "s", ascii "s"] ∧
      (out (ascii "T05thread:p1.-1;")).2.peer.state.log.map Prod.fst ≠ ps ∧
      (later (ascii "a+b")).1 = none ∧
      (later (ascii "a+b")).2.inp.take 6 = ascii "b#ee+$" := by
  decide +kernel

end QconnMcp.Debug
