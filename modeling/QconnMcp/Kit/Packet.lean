import QconnMcp.Kit.Peer

/-!
# Packets with acknowledgements

The framing of the GDB remote serial protocol: a packet is `$`, a raw body
without `#`, `#` and two check digits; `+` and `-` between packets acknowledge
the last one or ask for it again. A `PacketDaemon` reads packets and requests for
retransmission from an unstructured byte stream and skips everything else.
-/

namespace QconnMcp.Kit

namespace Packet

def start : UInt8 := 36
def stop : UInt8 := 35
def ack : UInt8 := 43
def nak : UInt8 := 45

/-- A packet as it travels. -/
def wire (raw : Bytes) (hi lo : UInt8) : Bytes := start :: (raw ++ stop :: [hi, lo])

/-- The first packet of a stream: its body, its check digits and what follows.
`none` when no packet is complete. -/
def next (s : Bytes) : Option (Bytes × UInt8 × UInt8 × Bytes) :=
  match s.dropWhile (· != start) with
  | [] => none
  | _ :: s =>
      match cut stop s with
      | some (raw, hi :: lo :: rest) => some (raw, hi, lo, rest)
      | _ => none

/-- Whatever holds no `$` in front of a packet is skipped. -/
theorem next_wire {noise raw : Bytes} (hnoise : start ∉ noise) (hraw : stop ∉ raw) (hi lo : UInt8)
    (rest : Bytes) : next (noise ++ wire raw hi lo ++ rest) = some (raw, hi, lo, rest) := by
  have hdrop : (noise ++ wire raw hi lo ++ rest).dropWhile (· != start) =
      start :: (raw ++ stop :: hi :: lo :: rest) := by
    rw [List.append_assoc, List.dropWhile_append_of_pos (forall_bne hnoise)]
    simp [wire]
  rw [next, hdrop]
  simp only [cut_append hraw]

/-- The packet that is found stands behind bytes that are no `$`. -/
theorem next_some {s raw rest : Bytes} {hi lo : UInt8} (h : next s = some (raw, hi, lo, rest)) :
    ∃ noise, start ∉ noise ∧ stop ∉ raw ∧ s = noise ++ wire raw hi lo ++ rest := by
  rw [next] at h
  cases hdrop : s.dropWhile (· != start) with
  | nil =>
      rw [hdrop] at h
      cases h
  | cons x t =>
      have hx : x = start := by
        have hhead := List.head?_dropWhile_not (· != start) s
        rw [hdrop] at hhead
        simpa using hhead
      have hnoise : start ∉ s.takeWhile (· != start) := by
        intro hmem
        simpa using List.mem_takeWhile_imp hmem
      have hs : s = s.takeWhile (· != start) ++ x :: t := by
        rw [← hdrop, List.takeWhile_append_dropWhile]
      simp only [hdrop] at h
      split at h
      · rename_i hcut
        obtain ⟨hraw, ht⟩ := cut_some hcut
        cases h
        refine ⟨s.takeWhile (· != start), hnoise, hraw, ?_⟩
        rw [hx, ht] at hs
        simpa [wire] using hs
      · cases h

end Packet

/-- A daemon that reads packets. -/
structure PacketDaemon (σ : Type) where
  isOpen : σ → Bool
  /-- One packet with its check digits: the next state and the bytes sent back. -/
  handle : σ → Bytes → UInt8 → UInt8 → σ × Bytes
  /-- What a request for retransmission makes it send. -/
  again : σ → σ × Bytes
  /-- Whether a connection that it has closed takes one more write, given the bytes that
  were left unread. -/
  lingers : Bytes → Bool

namespace PacketDaemon

variable {σ : Type}

/-- Consume every complete packet of the pending input. -/
def drain (d : PacketDaemon σ) : Nat → σ → Bytes → σ × Bytes × Bytes
  | 0, s, buf => (s, buf, [])
  | _ + 1, s, [] => (s, [], [])
  | fuel + 1, s, b :: buf =>
      if d.isOpen s then
        if b = Packet.start then
          match cut Packet.stop buf with
          | some (raw, hi :: lo :: rest) =>
              let r := d.handle s raw hi lo
              let t := d.drain fuel r.1 rest
              (t.1, t.2.1, r.2 ++ t.2.2)
          | _ => (s, b :: buf, [])
        else if b = Packet.nak then
          let r := d.again s
          let t := d.drain fuel r.1 buf
          (t.1, t.2.1, r.2 ++ t.2.2)
        else d.drain fuel s buf
      else (s, b :: buf, [])

def toPeer (d : PacketDaemon σ) : Peer (Served σ) where
  recv s b :=
    if d.isOpen s.state then
      let r := d.drain (s.pending ++ b).length s.state (s.pending ++ b)
      some (⟨r.1, r.2.1⟩, r.2.2)
    else if d.lingers s.pending then some (⟨s.state, s.pending ++ b⟩, [])
    else none
  fin s := if d.isOpen s.state then .timeout else .eof

variable {d : PacketDaemon σ} {s : σ}

theorem drain_nil (fuel : Nat) (s : σ) : d.drain fuel s [] = (s, [], []) := by
  cases fuel <;> rfl

/-- A whole packet is handled at once. -/
theorem recv_packet (hs : d.isOpen s = true) {raw : Bytes} (hraw : Packet.stop ∉ raw)
    (hi lo : UInt8) :
    d.toPeer.recv ⟨s, []⟩ (Packet.wire raw hi lo) =
      some (⟨(d.handle s raw hi lo).1, []⟩, (d.handle s raw hi lo).2) := by
  simp only [toPeer, List.nil_append, if_pos hs, Packet.wire, List.length_cons, drain, if_true,
    cut_append hraw, drain_nil, List.append_nil]

theorem recv_ack (hs : d.isOpen s = true) :
    d.toPeer.recv ⟨s, []⟩ [Packet.ack] = some (⟨s, []⟩, []) := by
  have hstart : Packet.ack ≠ Packet.start := by decide
  have hnak : Packet.ack ≠ Packet.nak := by decide
  simp only [toPeer, List.nil_append, if_pos hs, List.length_singleton, drain, if_neg hstart,
    if_neg hnak]

theorem recv_nak (hs : d.isOpen s = true) :
    d.toPeer.recv ⟨s, []⟩ [Packet.nak] = some (⟨(d.again s).1, []⟩, (d.again s).2) := by
  have hstart : Packet.nak ≠ Packet.start := by decide
  simp only [toPeer, List.nil_append, if_pos hs, List.length_singleton, drain, if_neg hstart,
    if_true, List.append_nil]

end PacketDaemon

end QconnMcp.Kit
