import QconnMcp.Kit.Bytes

/-!
# The other end of a connection

A `Peer` reacts to the bytes written to it by sending bytes back; it may refuse
the write. Two ways of building peers:

* `LineDaemon.toPeer` — a daemon that reads LF-terminated command lines, some
  of them followed by a counted payload, from an unstructured byte stream;
* `Peer.delayed` — any peer behind a link that may hold its bytes back until a
  later write, which is how a response that misses the reader's deadline looks
  to the reader.

`Peer.taped` records the bytes a client writes, `Peer.recorded` every write with
the state in which the peer took it.
-/

namespace QconnMcp.Kit

/-- How a read or a write on a connection fails. -/
inductive IoErr where
  | eof
  | unexpectedEof
  | timeout
  | closed
  deriving DecidableEq, Repr

structure Peer (σ : Type) where
  /-- The bytes sent back once a write has arrived; `none` refuses the write. -/
  recv : σ → Bytes → Option (σ × Bytes)
  /-- What a read reports once everything sent has been read. -/
  fin : σ → IoErr

/-! ## Line daemons -/

structure LineDaemon (σ : Type) where
  isOpen : σ → Bool
  /-- How many raw bytes follow this command line. -/
  payload : σ → Bytes → Nat
  /-- One command with its payload: the next state and the bytes sent back. -/
  handle : σ → Bytes → Bytes → σ × Bytes

/-- A daemon's state beside the input it has not consumed yet. -/
structure Served (σ : Type) where
  state : σ
  pending : Bytes
  deriving DecidableEq, Repr

namespace LineDaemon

variable {σ : Type}

/-- Consume every complete command of the pending input. -/
def drain (d : LineDaemon σ) : Nat → σ → Bytes → σ × Bytes × Bytes
  | 0, s, buf => (s, buf, [])
  | fuel + 1, s, buf =>
      if d.isOpen s then
        match cut 10 buf with
        | none => (s, buf, [])
        | some (line, rest) =>
            if rest.length < d.payload s line then (s, buf, [])
            else
              let r := d.handle s line (rest.take (d.payload s line))
              let t := d.drain fuel r.1 (rest.drop (d.payload s line))
              (t.1, t.2.1, r.2 ++ t.2.2)
      else (s, buf, [])

def toPeer (d : LineDaemon σ) : Peer (Served σ) where
  recv s b :=
    if d.isOpen s.state then
      let r := d.drain (s.pending ++ b).length s.state (s.pending ++ b)
      some (⟨r.1, r.2.1⟩, r.2.2)
    else none
  fin s := if d.isOpen s.state then .timeout else .eof

theorem drain_nil (d : LineDaemon σ) (fuel : Nat) (s : σ) : d.drain fuel s [] = (s, [], []) := by
  cases fuel <;> simp [drain, cut]

/-- A buffer that holds exactly one command with its payload. -/
theorem drain_one (d : LineDaemon σ) {s : σ} (ho : d.isOpen s = true) {line data : Bytes}
    (hl : (10 : UInt8) ∉ line) (hp : d.payload s line = data.length) (fuel : Nat) :
    d.drain (fuel + 1) s (line ++ 10 :: data) =
      ((d.handle s line data).1, [], (d.handle s line data).2) := by
  simp [drain, ho, cut_append hl, hp, drain_nil]

/-- A command that arrives with its payload is answered at once. -/
theorem recv_command (d : LineDaemon σ) {s : σ} (ho : d.isOpen s = true) {line data : Bytes}
    (hl : (10 : UInt8) ∉ line) (hp : d.payload s line = data.length) :
    d.toPeer.recv ⟨s, []⟩ (line ++ 10 :: data) =
      some (⟨(d.handle s line data).1, []⟩, (d.handle s line data).2) := by
  have hlen : (line ++ 10 :: data).length = line.length + data.length + 1 := by
    rw [List.length_append, List.length_cons]
    omega
  simp only [toPeer, ho, if_true, List.nil_append, hlen, d.drain_one ho hl hp]

/-- A command line without payload. -/
theorem recv_line (d : LineDaemon σ) {s : σ} (ho : d.isOpen s = true) {line : Bytes}
    (hl : (10 : UInt8) ∉ line) (hp : d.payload s line = 0) :
    d.toPeer.recv ⟨s, []⟩ (line ++ [10]) =
      some (⟨(d.handle s line []).1, []⟩, (d.handle s line []).2) :=
  d.recv_command ho hl hp

/-- A command line whose payload is still to come is kept. -/
theorem recv_request (d : LineDaemon σ) {s : σ} (ho : d.isOpen s = true) {line : Bytes}
    (hl : (10 : UInt8) ∉ line) (hp : 0 < d.payload s line) :
    d.toPeer.recv ⟨s, []⟩ (line ++ [10]) = some (⟨s, line ++ [10]⟩, []) := by
  simp [toPeer, ho, drain, cut_append hl, hp]

/-- The payload completes the command that announced it. -/
theorem recv_payload (d : LineDaemon σ) {s : σ} (ho : d.isOpen s = true) {line data : Bytes}
    (hl : (10 : UInt8) ∉ line) (hp : d.payload s line = data.length) :
    d.toPeer.recv ⟨s, line ++ [10]⟩ data =
      some (⟨(d.handle s line data).1, []⟩, (d.handle s line data).2) := by
  have h := d.drain_one ho hl hp (line.length + data.length)
  have hlen : (line ++ [10] ++ data).length = line.length + data.length + 1 := by
    simp only [List.length_append, List.length_singleton]
    omega
  simp only [toPeer, ho, if_true, hlen]
  rw [List.append_assoc, List.singleton_append, h]

end LineDaemon

/-! ## Late delivery -/

/-- A peer whose bytes are held back: `held` has been sent and not delivered,
`plan` says for each coming write how many of the held bytes it releases
(`none` for all of them, also once the plan is used up). -/
structure InFlight (σ : Type) where
  inner : σ
  held : Bytes
  plan : List (Option Nat)
  deriving DecidableEq, Repr

/-- Reads between two writes see only what has been released; the rest looks
like a deadline that expires. -/
def Peer.delayed {σ : Type} (P : Peer σ) : Peer (InFlight σ) where
  recv s b :=
    match P.recv s.inner b with
    | none => none
    | some (t, out) =>
        let sent := s.held ++ out
        match s.plan.headD none with
        | none => some (⟨t, [], s.plan.tail⟩, sent)
        | some k => some (⟨t, sent.drop k, s.plan.tail⟩, sent.take k)
  fin s := if s.held = [] then P.fin s.inner else .timeout

def InFlight.map {σ τ : Type} (f : σ → τ) (s : InFlight σ) : InFlight τ := ⟨f s.inner, s.held, s.plan⟩

theorem Peer.delayed_mirror {σ τ : Type} {P : Peer σ} {Q : Peer τ} {f : σ → τ}
    (h : ∀ s b, Q.recv (f s) b = (P.recv s b).map fun r => (f r.1, r.2)) (s : InFlight σ) (b : Bytes) :
    Q.delayed.recv (s.map f) b = (P.delayed.recv s b).map fun r => (r.1.map f, r.2) := by
  simp only [Peer.delayed, InFlight.map, h]
  cases P.recv s.inner b with
  | none => rfl
  | some r =>
      dsimp only [Option.map_some]
      cases s.plan.headD none with
      | none => rfl
      | some k => rfl

section InTime

variable {σ : Type}

/-- Nothing is held back, and the answer to the next write will not be. -/
structure OnTime (s : InFlight σ) : Prop where
  held : s.held = []
  next : s.plan.headD none = none

/-- Nothing is held back, now or later. -/
structure InTime (s : InFlight σ) : Prop where
  held : s.held = []
  plan : ∀ x ∈ s.plan, x = none

theorem Peer.delayed_refused {P : Peer σ} {s : InFlight σ} {b : Bytes} (h : P.recv s.inner b = none) :
    P.delayed.recv s b = none := by
  simp only [Peer.delayed, h]

theorem InTime.onTime {s : InFlight σ} (hs : InTime s) : OnTime s := by
  refine ⟨hs.held, ?_⟩
  cases hplan : s.plan with
  | nil => rfl
  | cons x xs => exact hs.plan x (by simp [hplan])

theorem Peer.delayed_released {P : Peer σ} {s : InFlight σ} (hs : OnTime s) {b out : Bytes} {t : σ}
    (h : P.recv s.inner b = some (t, out)) :
    P.delayed.recv s b = some (⟨t, [], s.plan.tail⟩, out) := by
  simp only [Peer.delayed, h, hs.next, hs.held, List.nil_append]

/-- The peer behind the link has taken what the link has taken. -/
theorem Peer.delayed_taken {P : Peer σ} {s s' : InFlight σ} {b out : Bytes}
    (h : P.delayed.recv s b = some (s', out)) : ∃ out', P.recv s.inner b = some (s'.inner, out') := by
  cases hrecv : P.recv s.inner b with
  | none =>
      rw [Peer.delayed_refused hrecv] at h
      cases h
  | some r =>
      simp only [Peer.delayed, hrecv] at h
      cases hhead : s.plan.headD none with
      | none =>
          simp only [hhead, Option.some.injEq, Prod.mk.injEq] at h
          exact ⟨r.2, by rw [← h.1]⟩
      | some k =>
          simp only [hhead, Option.some.injEq, Prod.mk.injEq] at h
          exact ⟨r.2, by rw [← h.1]⟩

theorem InTime.tail {s : InFlight σ} (hs : InTime s) (t : σ) : InTime ⟨t, [], s.plan.tail⟩ :=
  ⟨rfl, fun x hx => hs.plan x (List.mem_of_mem_tail hx)⟩

/-- On time, an answer arrives as it was given. -/
theorem Peer.delayed_onTime {P : Peer σ} {s s' : InFlight σ} (hs : OnTime s) {b out : Bytes}
    (h : P.delayed.recv s b = some (s', out)) :
    P.recv s.inner b = some (s'.inner, out) ∧ s' = ⟨s'.inner, [], s.plan.tail⟩ := by
  obtain ⟨out', hrecv⟩ := Peer.delayed_taken h
  rw [Peer.delayed_released hs hrecv] at h
  obtain ⟨hs', rfl⟩ := Prod.mk.inj (Option.some.inj h)
  exact ⟨hrecv, hs'.symm⟩

theorem Peer.delayed_some {P : Peer σ} {s s' : InFlight σ} (hs : InTime s) {b out : Bytes}
    (h : P.delayed.recv s b = some (s', out)) :
    P.recv s.inner b = some (s'.inner, out) ∧ InTime s' := by
  obtain ⟨hrecv, hs'⟩ := Peer.delayed_onTime hs.onTime h
  exact ⟨hrecv, hs' ▸ hs.tail s'.inner⟩

end InTime

/-! ## Recording -/

/-- A peer beside everything that has been written to it. -/
def Peer.taped {σ : Type} (P : Peer σ) : Peer (σ × Bytes) where
  recv s b := (P.recv s.1 b).map fun r => ((r.1, s.2 ++ b), r.2)
  fin s := P.fin s.1

/-- A peer's state beside the writes it has taken so far, each with the state in
which it took it. -/
abbrev Recorded (σ : Type) := σ × List (σ × Bytes)

def Peer.recorded {σ : Type} (P : Peer σ) : Peer (Recorded σ) where
  recv s b := (P.recv s.1 b).map fun r => ((r.1, s.2 ++ [(s.1, b)]), r.2)
  fin s := P.fin s.1

section Recorded

variable {σ : Type} {P : Peer σ}

theorem Peer.recorded_some {s s' : Recorded σ} {b out : Bytes}
    (h : P.recorded.recv s b = some (s', out)) :
    P.recv s.1 b = some (s'.1, out) ∧ s'.2 = s.2 ++ [(s.1, b)] := by
  obtain ⟨r, hr, heq⟩ := Option.map_eq_some_iff.mp h
  obtain ⟨rfl, rfl⟩ := Prod.mk.inj heq
  exact ⟨hr, rfl⟩

/-- Recording changes nothing for the client. -/
theorem Peer.recv_recorded (s : Recorded σ) (b : Bytes) :
    P.recv s.1 b = (P.recorded.recv s b).map fun r => (r.1.1, r.2) := by
  show _ = ((P.recv s.1 b).map _).map _
  rw [Option.map_map]
  exact Option.map_id'.symm

/-- What holds of every write recorded held of those recorded before. -/
theorem Peer.recorded_back {Q : σ × Bytes → Prop} {s s' : Recorded σ} {b out : Bytes}
    (h : P.recorded.recv s b = some (s', out)) (hall : ∀ e ∈ s'.2, Q e) : ∀ e ∈ s.2, Q e := by
  intro e he
  refine hall e ?_
  rw [(Peer.recorded_some h).2]
  exact List.mem_append_left _ he

/-- So a record that is part of a longer one was so before the last write. -/
theorem Peer.recorded_prefix {W : List (σ × Bytes)} {s s' : Recorded σ} {b out : Bytes}
    (h : P.recorded.recv s b = some (s', out)) (hs : s'.2 <+: W) : s.2 <+: W := by
  rw [(Peer.recorded_some h).2] at hs
  exact (List.prefix_append _ _).trans hs

end Recorded

end QconnMcp.Kit
