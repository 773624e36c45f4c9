import QconnMcp.Kit.Numeral
import QconnMcp.Kit.Packet
import QconnMcp.Kit.Triple

/-!
# The GDB remote serial protocol client

`RSP` of `internal/debug/rsp.go`: the packet codec and the exchange of one
command. `SendPacket` writes a packet until it is acknowledged, five times at
most; `ReadPacket` takes the next packet off the stream, answers it with `+` or
`-` and undoes its escapes and run lengths. Acknowledgements and packets share
one stream, and each reader skips what it does not look for.
-/

namespace QconnMcp.Debug

open Kit

/-! ## Codec -/

def checksum (p : Bytes) : UInt8 := p.foldl (· + ·) 0

/-- The bytes `$`, `#`, `}` and `*`. -/
def isSpecial (b : UInt8) : Bool := b == 36 || b == 35 || b == 125 || b == 42

def escape (p : Bytes) : Bytes :=
  p.flatMap fun b => if isSpecial b then [125, b ^^^ 0x20] else [b]

/-- The loop of `decode`, with `out` decoded so far. A `*` repeats the last
decoded byte; where there is none, or no count, it is dropped. -/
def decodeFrom (out : Bytes) : Bytes → Bytes
  | [] => out
  | [b] => if b = 125 ∨ b = 42 then out else out ++ [b]
  | b :: n :: rest =>
      if b = 125 then decodeFrom (out ++ [n ^^^ 0x20]) rest
      else if b = 42 then
        match out.getLast? with
        | some last => decodeFrom (out ++ List.replicate (n.toNat - 29) last) rest
        | none => decodeFrom out (n :: rest)
      else decodeFrom (out ++ [b]) (n :: rest)

def decode (p : Bytes) : Bytes := decodeFrom [] p

/-- `hexByte`. -/
def hexByte (b : UInt8) : UInt8 × UInt8 := (digitByte (b.toNat / 16), digitByte (b.toNat % 16))

def fromHex (b : UInt8) : Nat :=
  if 48 ≤ b ∧ b ≤ 57 then b.toNat - 48
  else if 97 ≤ b ∧ b ≤ 102 then b.toNat - 97 + 10
  else if 65 ≤ b ∧ b ≤ 70 then b.toNat - 65 + 10
  else 0

/-- The checksum that two digits stand for. -/
def checkDigits (hi lo : UInt8) : UInt8 := UInt8.ofNat (fromHex hi <<< 4 ||| fromHex lo)

/-- The packet for a payload. -/
def frame (payload : Bytes) : Bytes :=
  Packet.wire (escape payload) (hexByte (checksum (escape payload))).1
    (hexByte (checksum (escape payload))).2

/-! ## Exchange -/

inductive Err where
  | read (e : IoErr)
  | write (e : IoErr)
  /-- `rsp: too many NAKs` -/
  | tooManyNaks
  /-- `rsp: bad checksum` -/
  | badChecksum
  deriving DecidableEq, Repr

/-- The client beside the other end of its connection: the unread bytes, what a
read reports behind them, and the mode. -/
structure RSP (σ : Type) where
  inp : Bytes
  fin : IoErr
  peer : σ
  noAck : Bool
  deriving DecidableEq

abbrev Act (σ α : Type) := StateM (RSP σ) α

namespace RSP

variable {σ : Type} (P : Peer σ)

/-- `NewRSP` on a connection with nothing to read. -/
def new (s : σ) : RSP σ := ⟨[], P.fin s, s, false⟩

/-- A write on the connection. What the peer sends back becomes readable at once. -/
def write (b : Bytes) : Act σ (Option IoErr) := fun r =>
  match P.recv r.peer b with
  | none => (some .closed, r)
  | some (s, out) => (none, { r with peer := s, inp := r.inp ++ out, fin := P.fin s })

/-- A byte that `readAck` does not skip. -/
def isAck (b : UInt8) : Bool := b == Packet.ack || b == Packet.nak

/-- `readAck`. -/
def readAck : Act σ (Except IoErr UInt8) := fun r =>
  match r.inp.dropWhile fun b => !isAck b with
  | [] => (.error r.fin, { r with inp := [] })
  | b :: rest => (.ok b, { r with inp := rest })

def isNoAck : Act σ Bool := fun r => (r.noAck, r)

/-- The attempts of `SendPacket` that are left. -/
def sendAttempts (packet : Bytes) : Nat → Act σ (Option Err)
  | 0 => pure (some .tooManyNaks)
  | attempts + 1 => do
      match ← write P packet with
      | some e => pure (some (.write e))
      | none =>
          if ← isNoAck then pure none
          else
            match ← readAck with
            | .error e => pure (some (.read e))
            | .ok b => if b = Packet.ack then pure none else sendAttempts packet attempts

/-- `SendPacket`. -/
def sendPacket (payload : Bytes) : Act σ (Option Err) := sendAttempts P (frame payload) 5

/-- The reads of `ReadPacket`, up to the check digits. -/
def nextPacket : Act σ (Except IoErr (Bytes × UInt8 × UInt8)) := fun r =>
  match Packet.next r.inp with
  | none => (.error r.fin, { r with inp := [] })
  | some (raw, hi, lo, rest) => (.ok (raw, hi, lo), { r with inp := rest })

/-- `ReadPacket`. -/
def readPacket : Act σ (Except Err Bytes) := do
  match ← nextPacket with
  | .error e => pure (.error (.read e))
  | .ok (raw, hi, lo) =>
      if checksum raw ≠ checkDigits hi lo then
        if !(← isNoAck) then
          -- a failed write is ignored here
          let _ ← write P [Packet.nak]
        pure (.error .badChecksum)
      else
        if !(← isNoAck) then
          match ← write P [Packet.ack] with
          | some e => pure (.error (.write e))
          | none => pure (.ok (decode raw))
        else pure (.ok (decode raw))

/-- `Command`. -/
def command (payload : Bytes) : Act σ (Except Err Bytes) := do
  match ← sendPacket P payload with
  | some e => pure (.error e)
  | none => readPacket P

/-- One `Command` after another, with what each returned. -/
def commands : List Bytes → Act σ (List (Except Err Bytes))
  | [] => pure []
  | p :: ps => do
      let r ← command P p
      let rs ← commands ps
      pure (r :: rs)

theorem commands_cons {P : Peer σ} (p : Bytes) (ps : List Bytes) (r : RSP σ) :
    (commands P (p :: ps)).run r =
      (((command P p).run r).1 :: ((commands P ps).run ((command P p).run r).2).1,
        ((commands P ps).run ((command P p).run r).2).2) := rfl

end RSP

/-! ## Reading back what was escaped -/

theorem isSpecial_iff {b : UInt8} : isSpecial b = true ↔ b = 36 ∨ b = 35 ∨ b = 125 ∨ b = 42 := by
  simp [isSpecial, or_assoc]

/-- Neither the specials nor their masked copies survive escaping. -/
theorem not_mem_escape {x : UInt8} (hx : x = 36 ∨ x = 35 ∨ x = 42) (p : Bytes) :
    x ∉ escape p := by
  intro h
  obtain ⟨b, -, hb⟩ := List.mem_flatMap.mp h
  by_cases hspecial : isSpecial b = true
  · rw [if_pos hspecial] at hb
    rcases isSpecial_iff.mp hspecial with rfl | rfl | rfl | rfl <;>
      rcases hx with rfl | rfl | rfl <;> revert hb <;> decide
  · rw [if_neg hspecial, List.mem_singleton] at hb
    subst hb
    rcases hx with rfl | rfl | rfl <;> exact hspecial (by decide)

theorem decodeFrom_escaped (out : Bytes) (n : UInt8) (rest : Bytes) :
    decodeFrom out (125 :: n :: rest) = decodeFrom (out ++ [n ^^^ 0x20]) rest := by
  rw [decodeFrom, if_pos rfl]

theorem decodeFrom_plain {b : UInt8} (hb : b ≠ 125) (hb' : b ≠ 42) (out rest : Bytes) :
    decodeFrom out (b :: rest) = decodeFrom (out ++ [b]) rest := by
  cases rest with
  | nil => simp [decodeFrom, hb, hb']
  | cons n rest => rw [decodeFrom, if_neg hb, if_neg hb']

theorem decodeFrom_escape (out p : Bytes) : decodeFrom out (escape p) = out ++ p := by
  induction p generalizing out with
  | nil => simp [escape, decodeFrom]
  | cons b p ih =>
      rw [escape, List.flatMap_cons]
      by_cases hb : isSpecial b = true
      · rw [if_pos hb, List.cons_append, List.singleton_append, decodeFrom_escaped]
        show decodeFrom _ (escape p) = _
        rw [ih, UInt8.xor_assoc, UInt8.xor_self, UInt8.xor_zero, List.append_assoc]
        rfl
      · have hplain := fun h => hb (isSpecial_iff.mpr h)
        rw [if_neg hb, List.singleton_append, decodeFrom_plain (by tauto) (by tauto)]
        show decodeFrom _ (escape p) = _
        rw [ih, List.append_assoc]
        rfl

/-- The receiver decodes what the sender escaped. No run length is in it. -/
theorem decode_escape (p : Bytes) : decode (escape p) = p := decodeFrom_escape [] p

theorem fromHex_digitByte {d : Nat} (h : d < 16) : fromHex (digitByte d) = d := by
  revert h
  revert d
  decide

theorem checkDigits_hexByte (b : UInt8) : checkDigits (hexByte b).1 (hexByte b).2 = b := by
  have hlt := b.toNat_lt
  rw [hexByte, checkDigits, fromHex_digitByte (by omega), fromHex_digitByte (by omega),
    ← Nat.shiftLeft_add_eq_or_of_lt (by omega), Nat.shiftLeft_eq, Nat.mul_comm,
    show 2 ^ 4 = 16 from rfl, Nat.div_add_mod, UInt8.ofNat_toNat]

theorem escape_framed (p : Bytes) : Packet.stop ∉ escape p := not_mem_escape (.inr (.inl rfl)) p

/-- The packet of a payload is read whole, whatever follows it. -/
theorem next_frame {noise : Bytes} (hnoise : Packet.start ∉ noise) (p rest : Bytes) :
    Packet.next (noise ++ frame p ++ rest) = some (escape p, (hexByte (checksum (escape p))).1,
      (hexByte (checksum (escape p))).2, rest) :=
  Packet.next_wire hnoise (escape_framed p) _ _ rest

/-! ## Steps of an exchange -/

namespace RSP

variable {σ : Type} {P : Peer σ} {r : RSP σ}

theorem write_sent {b out : Bytes} {s : σ} (h : P.recv r.peer b = some (s, out)) :
    (write P b).run r = (none, { r with peer := s, inp := r.inp ++ out, fin := P.fin s }) := by
  show write P b r = _
  rw [write, h]

theorem isNoAck_off (h : r.noAck = false) {α : Type} (f : Bool → Act σ α) :
    (isNoAck >>= f).run r = (f false).run r := by
  show (f r.noAck).run r = _
  rw [h]

/-- What stands in front of the acknowledgement is skipped. -/
theorem readAck_found {noise rest : Bytes} {b : UInt8} (hnoise : ∀ x ∈ noise, isAck x = false)
    (hb : isAck b = true) (h : r.inp = noise ++ b :: rest) :
    readAck.run r = (.ok b, { r with inp := rest }) := by
  have hdrop : (r.inp.dropWhile fun x => !isAck x) = b :: rest := by
    rw [h, List.dropWhile_append_of_pos (by simpa using hnoise),
      List.dropWhile_cons_of_neg (by simp [hb])]
  show readAck r = _
  rw [readAck, hdrop]

/-- A packet that is acknowledged at once is sent once. -/
theorem sendPacket_acked (noise : Bytes) {payload rest out : Bytes} {s : σ}
    (hmode : r.noAck = false) (hrecv : P.recv r.peer (frame payload) = some (s, out))
    (hnoise : ∀ x ∈ noise, isAck x = false) (hout : r.inp ++ out = noise ++ Packet.ack :: rest) :
    (sendPacket P payload).run r = (none, { r with peer := s, inp := rest, fin := P.fin s }) := by
  rw [sendPacket, sendAttempts, run_bind, write_sent hrecv]
  show (isNoAck >>= _).run _ = _
  rw [isNoAck_off (r := { r with peer := s, inp := r.inp ++ out, fin := P.fin s }) hmode]
  show (readAck >>= _).run _ = _
  rw [run_bind, readAck_found hnoise (by decide) hout]
  rfl

theorem readPacket_dry (h : Packet.next r.inp = none) :
    (readPacket P).run r = (.error (.read r.fin), { r with inp := [] }) := by
  have hnext : nextPacket.run r = (.error r.fin, { r with inp := [] }) := by
    show nextPacket r = _
    rw [nextPacket, h]
  rw [readPacket, run_bind, hnext]
  rfl

section

variable {raw rest out : Bytes} {hi lo : UInt8} {s : σ}

theorem nextPacket_some (h : Packet.next r.inp = some (raw, hi, lo, rest)) :
    nextPacket.run r = (.ok (raw, hi, lo), { r with inp := rest }) := by
  show nextPacket r = _
  rw [nextPacket, h]

/-- A packet with the right digits is acknowledged and decoded. -/
theorem readPacket_intact (hmode : r.noAck = false)
    (h : Packet.next r.inp = some (raw, hi, lo, rest)) (hsum : checksum raw = checkDigits hi lo)
    (hrecv : P.recv r.peer [Packet.ack] = some (s, out)) :
    (readPacket P).run r =
      (.ok (decode raw), { r with peer := s, inp := rest ++ out, fin := P.fin s }) := by
  rw [readPacket, run_bind, nextPacket_some h]
  simp only [hsum, ne_eq, not_true_eq_false, if_false]
  rw [isNoAck_off (r := { r with inp := rest }) hmode]
  show (write P [Packet.ack] >>= _).run _ = _
  rw [run_bind, write_sent (r := { r with inp := rest }) hrecv]
  rfl

/-- A packet with wrong digits is asked for again, but not waited for. -/
theorem readPacket_damaged (hmode : r.noAck = false)
    (h : Packet.next r.inp = some (raw, hi, lo, rest)) (hsum : checksum raw ≠ checkDigits hi lo)
    (hrecv : P.recv r.peer [Packet.nak] = some (s, out)) :
    (readPacket P).run r =
      (.error .badChecksum, { r with peer := s, inp := rest ++ out, fin := P.fin s }) := by
  rw [readPacket, run_bind, nextPacket_some h]
  simp only [ne_eq, hsum, not_false_eq_true, if_true]
  rw [isNoAck_off (r := { r with inp := rest }) hmode]
  show (write P [Packet.nak] >>= _).run _ = _
  rw [run_bind, write_sent (r := { r with inp := rest }) hrecv]
  rfl

end

end RSP

end QconnMcp.Debug
