import QconnMcp.Debug.Rsp

/-!
# Which packets are accepted

The grammar of a packet on its own terms, and `ReadPacket` against it.

A payload travels as a sequence of tokens: bytes that stand for themselves,
escaped bytes, and runs that repeat the last byte. `decode` expands every such
sequence (`decode_encoding`). A packet ends with its checksum in two hexadecimal
digits. `fromHex` has no value for a byte that is no digit, and takes it for zero:
`ReadPacket` keeps to the grammar exactly where this does not show.
-/

namespace QconnMcp.Debug

open Kit

/-! ## Tokens -/

/-- A unit of an encoded payload. -/
inductive Token where
  | literal (b : UInt8) (hesc : b ≠ 125) (hrun : b ≠ 42)
  /-- `}` and a masked byte. -/
  | escaped (x : UInt8)
  /-- `*` and a count; 29 stands for no further copy. -/
  | run (n : UInt8) (hn : 29 ≤ n)

namespace Token

def bytes : Token → Bytes
  | .literal b .. => [b]
  | .escaped x => [125, x]
  | .run n _ => [42, n]

def isRun : Token → Bool
  | .run .. => true
  | _ => false

/-- What tokens stand for behind a byte `last`. -/
def expandFrom (last : UInt8) : List Token → Bytes
  | [] => []
  | .literal b .. :: ts => b :: expandFrom b ts
  | .escaped x :: ts => (x ^^^ 0x20) :: expandFrom (x ^^^ 0x20) ts
  | .run n _ :: ts => List.replicate (n.toNat - 29) last ++ expandFrom last ts

end Token

/-- A sequence of tokens whose runs all have a byte to repeat. -/
structure Encoding where
  tokens : List Token
  starts : ∀ t ∈ tokens.head?, t.isRun = false

namespace Encoding

def bytes (e : Encoding) : Bytes := e.tokens.flatMap Token.bytes

/-- What the encoding stands for. No run is first, so no byte comes before it. -/
def expand (e : Encoding) : Bytes := Token.expandFrom 0 e.tokens

end Encoding

theorem decodeFrom_run {out : Bytes} {last : UInt8} (h : out.getLast? = some last) (n : UInt8)
    (rest : Bytes) :
    decodeFrom out (42 :: n :: rest) =
      decodeFrom (out ++ List.replicate (n.toNat - 29) last) rest := by
  rw [decodeFrom, if_neg (by decide), if_pos rfl, h]

theorem getLast?_append_replicate {out : Bytes} {last : UInt8} (h : out.getLast? = some last)
    (k : Nat) : (out ++ List.replicate k last).getLast? = some last := by
  rw [List.getLast?_append, List.getLast?_replicate]
  split
  · exact h
  · rfl

/-- Behind a decoded byte, tokens are expanded one by one. -/
theorem decodeFrom_tokens (ts : List Token) {out : Bytes} {last : UInt8}
    (h : out.getLast? = some last) :
    decodeFrom out (ts.flatMap Token.bytes) = out ++ Token.expandFrom last ts := by
  induction ts generalizing out last with
  | nil => simp [decodeFrom, Token.expandFrom]
  | cons t ts ih =>
      rw [List.flatMap_cons]
      cases t with
      | literal b hesc hrun =>
          show decodeFrom out (b :: ts.flatMap Token.bytes) = _
          rw [decodeFrom_plain hesc hrun, ih List.getLast?_concat, List.append_assoc]
          rfl
      | escaped x =>
          show decodeFrom out (125 :: x :: ts.flatMap Token.bytes) = _
          rw [decodeFrom_escaped, ih List.getLast?_concat, List.append_assoc]
          rfl
      | run n hn =>
          -- the last byte stays what it was, also behind a run of no copies
          show decodeFrom out (42 :: n :: ts.flatMap Token.bytes) = _
          rw [decodeFrom_run h, ih (getLast?_append_replicate h _), List.append_assoc]
          rfl

/-- **Decoding expands.** Whatever tokens a payload is encoded with, the decoder
returns what they stand for; an escaped payload comes back as it was. -/
theorem decode_encoding :
    (∀ e : Encoding, decode e.bytes = e.expand) ∧ ∀ p : Bytes, decode (escape p) = p := by
  refine ⟨?_, decode_escape⟩
  rintro ⟨tokens, starts⟩
  show decodeFrom [] (tokens.flatMap Token.bytes) = Token.expandFrom 0 tokens
  cases tokens with
  | nil => rfl
  | cons t ts =>
      rw [List.flatMap_cons]
      cases t with
      | literal b hesc hrun =>
          show decodeFrom [] (b :: ts.flatMap Token.bytes) = _
          rw [decodeFrom_plain hesc hrun, decodeFrom_tokens ts List.getLast?_concat]
          rfl
      | escaped x =>
          show decodeFrom [] (125 :: x :: ts.flatMap Token.bytes) = _
          rw [decodeFrom_escaped, decodeFrom_tokens ts List.getLast?_concat]
          rfl
      | run n hn => exact absurd (starts _ rfl) (by simp [Token.isRun])

/-- A run behind an escaped byte, whose count is itself a `*`. -/
example : decode [125, 10, 42, 42] = List.replicate 14 42 := by decide

/-! ## The grammar of a packet -/

/-- The sum of the bytes modulo 256. -/
def byteSum (raw : Bytes) : Nat := (raw.map UInt8.toNat).sum % 256

/-- The stream starts with a complete packet, behind bytes that are no `$`. -/
def Complete (s raw : Bytes) (hi lo : UInt8) : Prop :=
  ∃ noise rest, Packet.start ∉ noise ∧ Packet.stop ∉ raw ∧
    s = noise ++ Packet.wire raw hi lo ++ rest

/-- The trailer is the checksum, in hexadecimal digits of either case. -/
def Signed (raw : Bytes) (hi lo : UInt8) : Prop :=
  ∃ x y, nibble hi = some x ∧ nibble lo = some y ∧ 16 * x + y = byteSum raw

def WellFormed (s : Bytes) : Prop := ∃ raw hi lo, Complete s raw hi lo ∧ Signed raw hi lo

/-- The trailer has the value of the checksum once everything that is no digit is
taken for zero. -/
def Passes (raw : Bytes) (hi lo : UInt8) : Prop :=
  16 * (nibble hi).getD 0 + (nibble lo).getD 0 = byteSum raw

theorem Signed.passes {raw : Bytes} {hi lo : UInt8} (h : Signed raw hi lo) : Passes raw hi lo := by
  obtain ⟨x, y, hx, hy, hsum⟩ := h
  rw [Passes, hx, hy]
  exact hsum

/-- A stream starts with one complete packet at most. -/
theorem complete_iff {s raw : Bytes} {hi lo : UInt8} :
    Complete s raw hi lo ↔ ∃ rest, Packet.next s = some (raw, hi, lo, rest) := by
  constructor
  · rintro ⟨noise, rest, hnoise, hraw, rfl⟩
    exact ⟨rest, Packet.next_wire hnoise hraw hi lo rest⟩
  · rintro ⟨rest, h⟩
    obtain ⟨noise, hnoise, hraw, hs⟩ := Packet.next_some h
    exact ⟨noise, rest, hnoise, hraw, hs⟩

theorem complete_next {s raw rest : Bytes} {hi lo : UInt8}
    (h : Packet.next s = some (raw, hi, lo, rest)) {raw' : Bytes} {hi' lo' : UInt8} :
    Complete s raw' hi' lo' ↔ raw' = raw ∧ hi' = hi ∧ lo' = lo := by
  rw [complete_iff, h]
  constructor
  · rintro ⟨rest', heq⟩
    obtain ⟨rfl, rfl, rfl, -⟩ : raw = raw' ∧ hi = hi' ∧ lo = lo' ∧ rest = rest' := by
      simpa using heq
    exact ⟨rfl, rfl, rfl⟩
  · rintro ⟨rfl, rfl, rfl⟩
    exact ⟨rest, rfl⟩

/-! ## The check of the source -/

theorem fromHex_eq (b : UInt8) : fromHex b = (nibble b).getD 0 := by
  simp only [fromHex, nibble, isHexDigit, digitVal, Bool.or_eq_true, Bool.and_eq_true,
    decide_eq_true_eq, UInt8.le_iff_toNat_le, UInt8.reduceToNat]
  split_ifs <;> simp <;> omega

theorem fromHex_lt (b : UInt8) : fromHex b < 16 := by
  simp only [fromHex, UInt8.le_iff_toNat_le, UInt8.reduceToNat]
  split_ifs <;> omega

theorem toNat_checkDigits (hi lo : UInt8) :
    (checkDigits hi lo).toNat = 16 * fromHex hi + fromHex lo := by
  have hhi := fromHex_lt hi
  have hlo := fromHex_lt lo
  rw [checkDigits, ← Nat.shiftLeft_add_eq_or_of_lt (by omega), Nat.shiftLeft_eq,
    UInt8.toNat_ofNat', Nat.mod_eq_of_lt (by omega), Nat.mul_comm]

theorem toNat_foldl_add (raw : Bytes) (s : UInt8) :
    (raw.foldl (· + ·) s).toNat = (s.toNat + (raw.map UInt8.toNat).sum) % 256 := by
  induction raw generalizing s with
  | nil => exact (Nat.mod_eq_of_lt s.toNat_lt).symm
  | cons b raw ih =>
      rw [List.foldl_cons, ih, UInt8.toNat_add, List.map_cons, List.sum_cons]
      omega

theorem toNat_checksum (raw : Bytes) : (checksum raw).toNat = byteSum raw := by
  rw [checksum, toNat_foldl_add]
  simp [byteSum]

theorem checksum_eq_checkDigits_iff {raw : Bytes} {hi lo : UInt8} :
    checksum raw = checkDigits hi lo ↔ Passes raw hi lo := by
  rw [← UInt8.toNat_inj, toNat_checksum, toNat_checkDigits, fromHex_eq, fromHex_eq, Passes]
  exact eq_comm

/-! ## Acknowledgements -/

namespace RSP

variable {σ : Type}

/-- The acknowledgement of `ReadPacket`, if it sends one. -/
def acknowledge (P : Peer σ) (b : UInt8) : Act σ (Option IoErr) := do
  if ← isNoAck then pure none else write P [b]

/-- What is written to acknowledge with `b`. -/
def answer (r : RSP σ) (b : UInt8) : Bytes := if r.noAck then [] else [b]

/-- The connection takes an acknowledgement, if one is sent. -/
def Taken (P : Peer σ) (r : RSP (σ × Bytes)) (b : UInt8) : Prop :=
  r.noAck = true ∨ P.recv r.peer.1 [b] ≠ none

theorem readPacket_complete {P : Peer σ} {r : RSP σ} {raw rest : Bytes} {hi lo : UInt8}
    (h : Packet.next r.inp = some (raw, hi, lo, rest)) :
    (readPacket P).run r =
      if checksum raw ≠ checkDigits hi lo then
        (.error .badChecksum, ((acknowledge P Packet.nak).run { r with inp := rest }).2)
      else
        match (acknowledge P Packet.ack).run { r with inp := rest } with
        | (none, r') => (.ok (decode raw), r')
        | (some e, r') => (.error (.write e), r') := by
  rw [readPacket, run_bind, nextPacket_some h]
  by_cases hsum : checksum raw = checkDigits hi lo
  · simp only [hsum, ne_eq, not_true_eq_false, if_false]
    cases hmode : r.noAck with
    | true => rfl
    | false =>
        have hack : (acknowledge P Packet.ack).run ⟨rest, r.fin, r.peer, false⟩ =
            (write P [Packet.ack]).run ⟨rest, r.fin, r.peer, false⟩ := rfl
        rw [isNoAck_off (r := ⟨rest, r.fin, r.peer, false⟩) rfl, hack]
        simp only [Bool.not_false, if_true]
        rw [run_bind]
        rcases (write P [Packet.ack]).run ⟨rest, r.fin, r.peer, false⟩ with ⟨_ | e, r'⟩ <;> rfl
  · simp only [ne_eq, hsum, not_false_eq_true, if_true]
    cases hmode : r.noAck <;> rfl

section Taped

variable {P : Peer σ} {r : RSP (σ × Bytes)} {b : UInt8}

theorem acknowledge_taken (h : Taken P r b) :
    ((acknowledge P.taped b).run r).1 = none ∧
      ((acknowledge P.taped b).run r).2.peer.2 = r.peer.2 ++ answer r b := by
  cases hmode : r.noAck with
  | true =>
      have hrun : (acknowledge P.taped b).run r = (none, r) := by
        show (if r.noAck then pure none else write P.taped [b] : Act _ _).run r = _
        rw [if_pos hmode]
        rfl
      rw [hrun, answer, hmode]
      exact ⟨rfl, (List.append_nil _).symm⟩
  | false =>
      have hrun : (acknowledge P.taped b).run r = (write P.taped [b]).run r := by
        show (if r.noAck then pure none else write P.taped [b] : Act _ _).run r = _
        rw [if_neg (by simp [hmode])]
      rcases h with h | h
      · rw [hmode] at h
        cases h
      · obtain ⟨⟨s, out⟩, hrecv⟩ := Option.ne_none_iff_exists'.mp h
        have htaped : P.taped.recv r.peer [b] = some ((s, r.peer.2 ++ [b]), out) := by
          simp only [Peer.taped, hrecv, Option.map_some]
        rw [hrun, write_sent htaped, answer, hmode]
        exact ⟨rfl, rfl⟩

theorem acknowledge_refused (h : ¬ Taken P r b) :
    ((acknowledge P.taped b).run r).1 = some .closed ∧
      ((acknowledge P.taped b).run r).2.peer.2 = r.peer.2 ∧ answer r b = [b] := by
  obtain ⟨hmode, hrecv⟩ := not_or.mp h
  rw [not_not] at hrecv
  have hrun : (acknowledge P.taped b).run r = (some .closed, r) := by
    show (if r.noAck then pure none else write P.taped [b] : Act _ _).run r = _
    rw [if_neg hmode]
    show write P.taped [b] r = _
    simp only [write, Peer.taped, hrecv, Option.map_none]
  rw [hrun, answer, if_neg hmode]
  exact ⟨rfl, rfl, rfl⟩

end Taped

end RSP

/-! ## Acceptance -/

open RSP in
/-- `ReadPacket` keeps to the grammar on the stream of `r`: it returns a payload
exactly for a well-formed packet, decoded and acknowledged with one `+`, and rejects
a complete packet with another trailer with one `-`. -/
structure Faithful {σ : Type} (P : Peer σ) (r : RSP (σ × Bytes)) : Prop where
  accepts : (∃ p, ((readPacket P.taped).run r).1 = .ok p) ↔ WellFormed r.inp
  decodes : ∀ raw hi lo, Complete r.inp raw hi lo → Signed raw hi lo →
    ((readPacket P.taped).run r).1 = .ok (decode raw) ∧
      ((readPacket P.taped).run r).2.peer.2 = r.peer.2 ++ answer r Packet.ack
  rejects : ∀ raw hi lo, Complete r.inp raw hi lo → ¬ Signed raw hi lo →
    (∃ e, ((readPacket P.taped).run r).1 = .error e) ∧
      ((readPacket P.taped).run r).2.peer.2 = r.peer.2 ++ answer r Packet.nak

section

variable {σ : Type} {P : Peer σ} {r : RSP (σ × Bytes)}

/-- A stream without a complete packet is never accepted. -/
theorem faithful_of_dry (h : Packet.next r.inp = none) : Faithful P r := by
  have hnone : ∀ raw hi lo, ¬ Complete r.inp raw hi lo := by
    intro raw hi lo hcomplete
    obtain ⟨rest, hnext⟩ := complete_iff.mp hcomplete
    rw [h] at hnext
    cases hnext
  refine ⟨?_, fun raw hi lo hc => absurd hc (hnone raw hi lo),
    fun raw hi lo hc => absurd hc (hnone raw hi lo)⟩
  rw [RSP.readPacket_dry h]
  refine ⟨?_, ?_⟩
  · rintro ⟨p, hp⟩
    cases hp
  · rintro ⟨raw, hi, lo, hc, -⟩
    exact absurd hc (hnone raw hi lo)

variable {raw rest : Bytes} {hi lo : UInt8} (h : Packet.next r.inp = some (raw, hi, lo, rest))

include h

theorem wellFormed_next : WellFormed r.inp ↔ Signed raw hi lo := by
  constructor
  · rintro ⟨raw', hi', lo', hc, hsigned⟩
    obtain ⟨rfl, rfl, rfl⟩ := (complete_next h).mp hc
    exact hsigned
  · intro hsigned
    exact ⟨raw, hi, lo, (complete_next h).mpr ⟨rfl, rfl, rfl⟩, hsigned⟩

/-- A packet that passes the check is accepted if its acknowledgement is taken. -/
theorem readPacket_passes (hpass : Passes raw hi lo) (htaken : RSP.Taken P r Packet.ack) :
    ((RSP.readPacket P.taped).run r).1 = .ok (decode raw) ∧
      ((RSP.readPacket P.taped).run r).2.peer.2 = r.peer.2 ++ r.answer Packet.ack := by
  obtain ⟨hnil, htape⟩ := RSP.acknowledge_taken (r := { r with inp := rest }) htaken
  rw [RSP.readPacket_complete h, if_neg (not_not.mpr (checksum_eq_checkDigits_iff.mpr hpass))]
  rcases hrun : (RSP.acknowledge P.taped Packet.ack).run { r with inp := rest } with ⟨e, r'⟩
  rw [hrun] at hnil htape
  obtain rfl : e = none := hnil
  exact ⟨rfl, htape⟩

/-- Otherwise it fails on it, with nothing written. -/
theorem readPacket_unacknowledged (hpass : Passes raw hi lo)
    (htaken : ¬ RSP.Taken P r Packet.ack) :
    (∃ e, ((RSP.readPacket P.taped).run r).1 = .error e) ∧
      ((RSP.readPacket P.taped).run r).2.peer.2 = r.peer.2 := by
  obtain ⟨hclosed, htape, -⟩ := RSP.acknowledge_refused (r := { r with inp := rest }) htaken
  rw [RSP.readPacket_complete h, if_neg (not_not.mpr (checksum_eq_checkDigits_iff.mpr hpass))]
  rcases hrun : (RSP.acknowledge P.taped Packet.ack).run { r with inp := rest } with ⟨e, r'⟩
  rw [hrun] at hclosed htape
  obtain rfl : e = some .closed := hclosed
  exact ⟨⟨_, rfl⟩, htape⟩

theorem readPacket_fails (hpass : ¬ Passes raw hi lo) :
    ((RSP.readPacket P.taped).run r).1 = .error .badChecksum ∧
      (((RSP.readPacket P.taped).run r).2.peer.2 = r.peer.2 ++ r.answer Packet.nak ↔
        RSP.Taken P r Packet.nak) := by
  rw [RSP.readPacket_complete h, if_pos fun heq => hpass (checksum_eq_checkDigits_iff.mp heq)]
  refine ⟨rfl, ?_⟩
  by_cases htaken : RSP.Taken P r Packet.nak
  · exact iff_of_true (RSP.acknowledge_taken (r := { r with inp := rest }) htaken).2 htaken
  · obtain ⟨-, htape, hanswer⟩ := RSP.acknowledge_refused (r := { r with inp := rest }) htaken
    refine iff_of_false ?_ htaken
    rw [htape]
    show ¬ r.peer.2 = r.peer.2 ++ RSP.answer { r with inp := rest } Packet.nak
    rw [hanswer]
    simp

/-- The three ways a complete packet can go. -/
theorem faithful_next :
    Faithful P r ↔ (Passes raw hi lo → Signed raw hi lo) ∧
      (Signed raw hi lo → RSP.Taken P r Packet.ack) ∧
      (¬ Signed raw hi lo → RSP.Taken P r Packet.nak) := by
  have hcomplete : Complete r.inp raw hi lo := (complete_next h).mpr ⟨rfl, rfl, rfl⟩
  by_cases hsigned : Signed raw hi lo
  · -- a well-formed packet: all depends on its acknowledgement
    by_cases htaken : RSP.Taken P r Packet.ack
    · have hread := readPacket_passes h hsigned.passes htaken
      refine iff_of_true ⟨?_, ?_, ?_⟩ ⟨fun _ => hsigned, fun _ => htaken, absurd hsigned⟩
      · exact iff_of_true ⟨_, hread.1⟩ ((wellFormed_next h).mpr hsigned)
      · intro raw' hi' lo' hc _
        obtain ⟨rfl, rfl, rfl⟩ := (complete_next h).mp hc
        exact hread
      · intro raw' hi' lo' hc hnot
        obtain ⟨rfl, rfl, rfl⟩ := (complete_next h).mp hc
        exact absurd hsigned hnot
    · obtain ⟨⟨e, hfail⟩, -⟩ := readPacket_unacknowledged h hsigned.passes htaken
      refine iff_of_false ?_ fun hcond => htaken (hcond.2.1 hsigned)
      intro hfaithful
      obtain ⟨p, hp⟩ := hfaithful.accepts.mpr ((wellFormed_next h).mpr hsigned)
      rw [hfail] at hp
      cases hp
  · by_cases hpass : Passes raw hi lo
    · -- a trailer that is no checksum gets through the check
      refine iff_of_false ?_ fun hcond => hsigned (hcond.1 hpass)
      intro hfaithful
      obtain ⟨⟨e, hfail⟩, htape⟩ := hfaithful.rejects raw hi lo hcomplete hsigned
      by_cases htaken : RSP.Taken P r Packet.ack
      · rw [(readPacket_passes h hpass htaken).1] at hfail
        cases hfail
      · have hmode : ¬ r.noAck = true := fun hmode => htaken (.inl hmode)
        rw [(readPacket_unacknowledged h hpass htaken).2, RSP.answer, if_neg hmode] at htape
        simp at htape
    · obtain ⟨hfail, htape⟩ := readPacket_fails (P := P) h hpass
      refine ⟨?_, ?_⟩
      · intro hfaithful
        refine ⟨fun hp => absurd hp hpass, fun hs => absurd hs hsigned, fun _ => ?_⟩
        exact htape.mp (hfaithful.rejects raw hi lo hcomplete hsigned).2
      · rintro ⟨-, -, htaken⟩
        refine ⟨?_, ?_, ?_⟩
        · refine iff_of_false ?_ fun hwf => hsigned ((wellFormed_next h).mp hwf)
          rintro ⟨p, hp⟩
          rw [hfail] at hp
          cases hp
        · intro raw' hi' lo' hc hs
          obtain ⟨rfl, rfl, rfl⟩ := (complete_next h).mp hc
          exact absurd hs hsigned
        · intro raw' hi' lo' hc _
          obtain ⟨rfl, rfl, rfl⟩ := (complete_next h).mp hc
          exact ⟨⟨_, hfail⟩, htape.mpr (htaken hsigned)⟩

end

/-- **Where `ReadPacket` accepts well-formed packets only.** On any stream, and in
either mode, it keeps to the grammar exactly when a complete packet at the start has
a trailer that is its checksum or does not pass for it, and the connection takes the
acknowledgement that is due. -/
theorem readPacket_faithful_iff {σ : Type} (P : Peer σ) (r : RSP (σ × Bytes)) :
    Faithful P r ↔ ∀ raw hi lo, Complete r.inp raw hi lo →
      (Passes raw hi lo → Signed raw hi lo) ∧
      (Signed raw hi lo → RSP.Taken P r Packet.ack) ∧
      (¬ Signed raw hi lo → RSP.Taken P r Packet.nak) := by
  cases hnext : Packet.next r.inp with
  | none =>
      refine iff_of_true (faithful_of_dry hnext) ?_
      intro raw hi lo hc
      obtain ⟨rest, h⟩ := complete_iff.mp hc
      rw [hnext] at h
      cases h
  | some q =>
      obtain ⟨raw, hi, lo, rest⟩ := q
      rw [faithful_next hnext]
      refine ⟨?_, fun h => h raw hi lo ((complete_next hnext).mpr ⟨rfl, rfl, rfl⟩)⟩
      intro h raw' hi' lo' hc
      obtain ⟨rfl, rfl, rfl⟩ := (complete_next hnext).mp hc
      exact h

/-- A stub that sends nothing more. -/
def silent : Peer Unit := ⟨fun _ _ => some ((), []), fun _ => .eof⟩

/-- A packet with the trailer `5z` is accepted and acknowledged. -/
theorem readPacket_accepts_no_digit :
    let r : RSP (Unit × Bytes) := ⟨ascii "$P#5z", .eof, ((), []), false⟩
    ((RSP.readPacket silent.taped).run r).1 = .ok (ascii "P") ∧
      ((RSP.readPacket silent.taped).run r).2.peer.2 = [Packet.ack] ∧
      ¬ WellFormed r.inp ∧ ¬ Faithful silent r := by
  intro r
  have hnext : Packet.next r.inp = some (ascii "P", 53, 122, []) := by decide
  have hunsigned : ¬ Signed (ascii "P") 53 122 := by
    rintro ⟨x, y, -, hy, -⟩
    rw [nibble_eq_none rfl] at hy
    cases hy
  refine ⟨by decide, by decide, ?_, ?_⟩
  · rw [wellFormed_next hnext]
    exact hunsigned
  · rw [faithful_next hnext]
    intro hcond
    exact hunsigned (hcond.1 (show 16 * 5 + 0 = byteSum (ascii "P") from rfl))

end QconnMcp.Debug
