import QconnMcp.Kit.Quote

/-!
# Byte strings as UTF-8 text

A Go string may hold any bytes. Carried in a JSON document it becomes a sequence of
characters: a rune is decoded, and a byte that is part of no rune becomes the
replacement character. Encoding the characters again gives the string back exactly
when the string is valid UTF-8 in the sense of the core library (`encode_chars_iff`),
and that is so exactly when every byte beyond ASCII is part of a rune
(`validUtf8_iff_wellFormed`).
-/

namespace QconnMcp.Kit

/-- The bytes of a text. -/
def encode (cs : List Char) : Bytes := cs.flatMap String.utf8EncodeChar

/-- The byte string is the encoding of some text. -/
def ValidUtf8 (s : Bytes) : Prop := s.toByteArray.IsValidUTF8

theorem validUtf8_iff {s : Bytes} : ValidUtf8 s ↔ ∃ cs, encode cs = s := by
  constructor
  · rintro ⟨cs, hcs⟩
    have hdata := congrArg (fun a : ByteArray => a.data.toList) hcs
    simp only [List.utf8Encode, List.toList_data_toByteArray] at hdata
    exact ⟨cs, hdata.symm⟩
  · rintro ⟨cs, rfl⟩
    exact ⟨cs, rfl⟩

/-- The character of a rune. -/
def Rune.char : Rune → Char
  | .single b _ => Char.ofNat b.toNat
  | .multi bytes _ _ => Char.ofNat (runeCode bytes)
  | .invalid _ _ => Char.ofNat 0xFFFD

/-- The characters a string is carried as. -/
def chars (s : Bytes) : List Char := (runes s).map Rune.char

def Rune.isInvalid : Rune → Bool
  | .invalid _ _ => true
  | _ => false

/-- Every byte of the string is part of a rune. -/
def WellFormed (s : Bytes) : Prop := ∀ r ∈ runes s, r.isInvalid = false

instance (s : Bytes) : Decidable (WellFormed s) := inferInstanceAs (Decidable (∀ r ∈ runes s, _))

/-! ## Reading an encoded character -/

theorem isContinuation_iff {b : UInt8} : isContinuation b = true ↔ 0x80 ≤ b.toNat ∧ b.toNat ≤ 0xBF := by
  simp only [isContinuation, Bool.and_eq_true, decide_eq_true_eq, UInt8.le_iff_toNat_le]
  exact Iff.rfl

/-- A second byte is a continuation byte; four lead bytes bound it further. -/
theorem isSecond_iff {lead b : UInt8} : isSecond lead b = true ↔
    (0x80 ≤ b.toNat ∧ b.toNat ≤ 0xBF) ∧ (lead.toNat = 0xE0 → 0xA0 ≤ b.toNat) ∧
      (lead.toNat = 0xF0 → 0x90 ≤ b.toNat) ∧ (lead.toNat = 0xED → b.toNat ≤ 0x9F) ∧
      (lead.toNat = 0xF4 → b.toNat ≤ 0x8F) := by
  rw [isSecond, Bool.and_eq_true, decide_eq_true_eq, decide_eq_true_eq, UInt8.le_iff_toNat_le,
    UInt8.le_iff_toNat_le]
  simp only [beq_iff_eq, ← UInt8.toNat_inj]
  split_ifs <;> simp_all <;> omega

theorem multiWidth_two {b c : UInt8} (hb : 0xC2 ≤ b.toNat ∧ b.toNat ≤ 0xDF)
    (hc : isContinuation c = true) (rest : Bytes) : multiWidth (b :: c :: rest) = 2 := by
  have hlead : 0xC2 ≤ b ∧ b ≤ 0xDF := hb.imp UInt8.le_iff_toNat_le.mpr UInt8.le_iff_toNat_le.mpr
  unfold multiWidth
  simp [hlead, hc]

theorem multiWidth_three {b c d : UInt8} (hb : 0xE0 ≤ b.toNat ∧ b.toNat ≤ 0xEF)
    (hc : isSecond b c = true) (hd : isContinuation d = true) (rest : Bytes) :
    multiWidth (b :: c :: d :: rest) = 3 := by
  have hlead : 0xE0 ≤ b ∧ b ≤ 0xEF := hb.imp UInt8.le_iff_toNat_le.mpr UInt8.le_iff_toNat_le.mpr
  have hnot : ¬ b ≤ 0xDF := UInt8.not_le.mpr (UInt8.lt_of_lt_of_le (by decide) hlead.1)
  unfold multiWidth
  simp [hnot, hlead, hc, hd]

theorem multiWidth_four {b c d e : UInt8} (hb : 0xF0 ≤ b.toNat ∧ b.toNat ≤ 0xF4)
    (hc : isSecond b c = true) (hd : isContinuation d = true) (he : isContinuation e = true)
    (rest : Bytes) : multiWidth (b :: c :: d :: e :: rest) = 4 := by
  have hlead : 0xF0 ≤ b ∧ b ≤ 0xF4 := hb.imp UInt8.le_iff_toNat_le.mpr UInt8.le_iff_toNat_le.mpr
  have hnot : ¬ b ≤ 0xDF := UInt8.not_le.mpr (UInt8.lt_of_lt_of_le (by decide) hlead.1)
  have hnot' : ¬ b ≤ 0xEF := UInt8.not_le.mpr (UInt8.lt_of_lt_of_le (by decide) hlead.1)
  unfold multiWidth
  simp [hnot, hnot', hlead, hc, hd, he]

/-- The low six bits of a code point make a continuation byte. -/
theorem toNat_tail (v : Nat) : (UInt8.ofNat (v % 64 + 0x80)).toNat = v % 64 + 0x80 :=
  UInt8.toNat_ofNat_of_lt' (show v % 64 + 0x80 < 256 by omega)

theorem isContinuation_tail (v : Nat) : isContinuation (UInt8.ofNat (v % 64 + 0x80)) = true := by
  rw [isContinuation_iff, toNat_tail]
  omega

/-! A code point is put together again from its groups of six bits. -/

theorem runeCode_two {b c : UInt8} {v : Nat} (hb : b.toNat = v / 64 + 0xC0)
    (hc : c.toNat = v % 64 + 0x80) : runeCode [b, c] = v := by
  show (b.toNat - 0xC0) * 64 + (c.toNat - 0x80) = v
  rw [hb, hc, Nat.add_sub_cancel, Nat.add_sub_cancel, Nat.div_add_mod']

theorem runeCode_three {b c d : UInt8} {v : Nat} (hb : b.toNat = v / 4096 + 0xE0)
    (hc : c.toNat = v / 64 % 64 + 0x80) (hd : d.toNat = v % 64 + 0x80) : runeCode [b, c, d] = v := by
  have hhigh : v / 4096 = v / 64 / 64 := (Nat.div_div_eq_div_mul v 64 64).symm
  show ((b.toNat - 0xE0) * 64 + (c.toNat - 0x80)) * 64 + (d.toNat - 0x80) = v
  rw [hb, hc, hd, Nat.add_sub_cancel, Nat.add_sub_cancel, Nat.add_sub_cancel, hhigh,
    Nat.div_add_mod', Nat.div_add_mod']

theorem runeCode_four {b c d e : UInt8} {v : Nat} (hb : b.toNat = v / 262144 + 0xF0)
    (hc : c.toNat = v / 4096 % 64 + 0x80) (hd : d.toNat = v / 64 % 64 + 0x80)
    (he : e.toNat = v % 64 + 0x80) : runeCode [b, c, d, e] = v := by
  have hhigh : v / 4096 = v / 64 / 64 := (Nat.div_div_eq_div_mul v 64 64).symm
  have hhigher : v / 262144 = v / 64 / 64 / 64 := by
    rw [← hhigh]
    exact (Nat.div_div_eq_div_mul v 4096 64).symm
  show (((b.toNat - 0xF0) * 64 + (c.toNat - 0x80)) * 64 + (d.toNat - 0x80)) * 64 +
    (e.toNat - 0x80) = v
  rw [hb, hc, hd, he, Nat.add_sub_cancel, Nat.add_sub_cancel, Nat.add_sub_cancel,
    Nat.add_sub_cancel, hhigher, hhigh, Nat.div_add_mod', Nat.div_add_mod', Nat.div_add_mod']

/-- A character beyond ASCII is read back from its encoding. -/
theorem multi_utf8EncodeChar {c : Char} (h : 0x80 ≤ c.toNat) (rest : Bytes) :
    multiWidth (String.utf8EncodeChar c ++ rest) = (String.utf8EncodeChar c).length ∧
      runeCode (String.utf8EncodeChar c) = c.toNat := by
  have hvalid : c.toNat < 0xD800 ∨ 0xDFFF < c.toNat ∧ c.toNat < 0x110000 := c.valid
  have hval : c.val.toNat = c.toNat := rfl
  rw [String.utf8EncodeChar, hval]
  generalize c.toNat = v at *
  split_ifs with h1 h2 h3
  · omega
  · have hlead : (UInt8.ofNat (v / 64 % 32 + 0xC0)).toNat = v / 64 + 0xC0 := by
      rw [UInt8.toNat_ofNat']
      omega
    exact ⟨multiWidth_two (by omega) (isContinuation_tail v) rest, runeCode_two hlead (toNat_tail v)⟩
  · have hlead : (UInt8.ofNat (v / 4096 % 16 + 0xE0)).toNat = v / 4096 + 0xE0 := by
      rw [UInt8.toNat_ofNat']
      omega
    have hsecond := toNat_tail (v / 64)
    refine ⟨multiWidth_three (by omega) ?_ (isContinuation_tail v) rest,
      runeCode_three hlead hsecond (toNat_tail v)⟩
    -- overlong forms and surrogates are what the bounds on the second byte exclude
    exact isSecond_iff.mpr (by omega)
  · have hlead : (UInt8.ofNat (v / 262144 % 8 + 0xF0)).toNat = v / 262144 + 0xF0 := by
      rw [UInt8.toNat_ofNat']
      omega
    have hsecond := toNat_tail (v / 4096)
    refine ⟨multiWidth_four (by omega) ?_ (isContinuation_tail (v / 64)) (isContinuation_tail v) rest,
      runeCode_four hlead hsecond (toNat_tail (v / 64)) (toNat_tail v)⟩
    exact isSecond_iff.mpr (by omega)

/-! ## Encoding and decoding -/

theorem runesFrom_multi {piece rest : Bytes} (hne : piece ≠ [])
    (hwidth : multiWidth (piece ++ rest) = piece.length) (fuel : Nat) :
    ∃ hlen hhigh, runesFrom (fuel + 1) (piece ++ rest) =
      .multi piece hlen hhigh :: runesFrom fuel rest := by
  obtain ⟨-, hlen, hhigh⟩ := multiWidth_spec (piece ++ rest)
  rw [hwidth] at hlen
  rw [hwidth, List.take_left] at hhigh
  refine ⟨hlen, hhigh, ?_⟩
  obtain ⟨b, s, rfl⟩ := List.exists_cons_of_ne_nil hne
  have hb : ¬ b < 0x80 := UInt8.not_lt.mpr (hhigh b List.mem_cons_self)
  have hwide : multiWidth (b :: s ++ rest) ≠ 0 := by
    rw [hwidth]
    exact Nat.add_one_ne_zero _
  rw [List.cons_append, runesFrom, dif_neg hb]
  simp only [← List.cons_append, if_neg hwide]
  simp only [hwidth, List.take_left, List.drop_left]

/-- The rune at the head of an encoded text is its first character. -/
theorem runesFrom_encodeChar (c : Char) (rest : Bytes) (fuel : Nat) :
    ∃ r : Rune, r.char = c ∧ r.isInvalid = false ∧
      runesFrom (fuel + 1) (String.utf8EncodeChar c ++ rest) = r :: runesFrom fuel rest := by
  by_cases hascii : c.toNat < 0x80
  · have hbyte : String.utf8EncodeChar c = [UInt8.ofNat c.toNat] := if_pos (Nat.le_of_lt_succ hascii)
    have hnat : (UInt8.ofNat c.toNat).toNat = c.toNat :=
      UInt8.toNat_ofNat_of_lt' (hascii.trans (by decide))
    have hb : UInt8.ofNat c.toNat < 0x80 := by
      rw [UInt8.lt_iff_toNat_lt, hnat]
      exact hascii
    refine ⟨.single _ hb, ?_, rfl, ?_⟩
    · rw [Rune.char, hnat, Char.ofNat_toNat]
    · rw [hbyte, List.singleton_append, runesFrom, dif_pos hb]
  · obtain ⟨hwidth, hcode⟩ := multi_utf8EncodeChar (Nat.le_of_not_lt hascii) rest
    have hne : String.utf8EncodeChar c ≠ [] := by
      rw [← List.length_pos_iff, String.length_utf8EncodeChar]
      exact c.utf8Size_pos
    obtain ⟨hlen, hhigh, hruns⟩ := runesFrom_multi hne hwidth fuel
    refine ⟨_, ?_, rfl, hruns⟩
    rw [Rune.char, hcode, Char.ofNat_toNat]

theorem runesFrom_encode (cs : List Char) : ∀ {fuel : Nat}, (encode cs).length ≤ fuel →
    (runesFrom fuel (encode cs)).map Rune.char = cs ∧
      ∀ r ∈ runesFrom fuel (encode cs), r.isInvalid = false := by
  induction cs with
  | nil =>
      intro fuel _
      cases fuel <;> exact ⟨rfl, fun r hr => absurd hr List.not_mem_nil⟩
  | cons c cs ih =>
      intro fuel hfuel
      have hcons : encode (c :: cs) = String.utf8EncodeChar c ++ encode cs := List.flatMap_cons
      rw [hcons, List.length_append, String.length_utf8EncodeChar] at hfuel
      have hpos := c.utf8Size_pos
      -- a character takes one unit of the fuel, and at least one byte of what bounds it
      obtain ⟨fuel, rfl⟩ := Nat.exists_eq_succ_of_ne_zero (show fuel ≠ 0 by omega)
      obtain ⟨r, hr, hvalid, hruns⟩ := runesFrom_encodeChar c (encode cs) fuel
      obtain ⟨hmap, hall⟩ := ih (show (encode cs).length ≤ fuel by omega)
      rw [hcons, hruns, List.map_cons, hr, hmap]
      exact ⟨rfl, List.forall_mem_cons.mpr ⟨hvalid, hall⟩⟩

/-- A text survives encoding. -/
theorem chars_encode (cs : List Char) : chars (encode cs) = cs :=
  (runesFrom_encode cs (Nat.le_refl _)).1

/-- A string survives being carried as characters if and only if it is valid. -/
theorem encode_chars_iff {s : Bytes} : encode (chars s) = s ↔ ValidUtf8 s := by
  rw [validUtf8_iff]
  constructor
  · intro h
    exact ⟨chars s, h⟩
  · rintro ⟨cs, rfl⟩
    rw [chars_encode]

/-! ## Valid strings by their bytes -/

theorem toNat_char_ofNat {v : Nat} (hv : v < 0xD800 ∨ 0xDFFF < v ∧ v < 0x110000) :
    (Char.ofNat v).val.toNat = v := by
  rw [Char.ofNat, dif_pos hv]
  rfl

theorem ofNat_eq {b : UInt8} {n : Nat} (h : n = b.toNat) : UInt8.ofNat n = b := by
  rw [h, UInt8.ofNat_toNat]

theorem utf8EncodeChar_two {b c : UInt8} (hb : 0xC2 ≤ b.toNat ∧ b.toNat ≤ 0xDF)
    (hc : 0x80 ≤ c.toNat ∧ c.toNat ≤ 0xBF) :
    String.utf8EncodeChar (Char.ofNat (runeCode [b, c])) = [b, c] := by
  have hcode : runeCode [b, c] = (b.toNat - 0xC0) * 64 + (c.toNat - 0x80) := rfl
  generalize hv : runeCode [b, c] = v at *
  have hval := toNat_char_ofNat (v := v) (by omega)
  have hlead : v / 64 % 32 + 0xC0 = b.toNat := by omega
  have htail : v % 64 + 0x80 = c.toNat := by omega
  rw [String.utf8EncodeChar, hval, if_neg (by omega), if_pos (by omega), ofNat_eq hlead, ofNat_eq htail]

theorem utf8EncodeChar_three {b c d : UInt8} (hb : 0xE0 ≤ b.toNat ∧ b.toNat ≤ 0xEF)
    (hc : isSecond b c = true) (hd : 0x80 ≤ d.toNat ∧ d.toNat ≤ 0xBF) :
    String.utf8EncodeChar (Char.ofNat (runeCode [b, c, d])) = [b, c, d] := by
  obtain ⟨hc, hE0, -, hED, -⟩ := isSecond_iff.mp hc
  have hcode : runeCode [b, c, d] =
      ((b.toNat - 0xE0) * 64 + (c.toNat - 0x80)) * 64 + (d.toNat - 0x80) := rfl
  generalize hv : runeCode [b, c, d] = v at *
  have hval := toNat_char_ofNat (v := v) (by omega)
  have hlead : v / 4096 % 16 + 0xE0 = b.toNat := by omega
  have hsecond : v / 64 % 64 + 0x80 = c.toNat := by omega
  have htail : v % 64 + 0x80 = d.toNat := by omega
  rw [String.utf8EncodeChar, hval, if_neg (by omega), if_neg (by omega), if_pos (by omega),
    ofNat_eq hlead, ofNat_eq hsecond, ofNat_eq htail]

theorem utf8EncodeChar_four {b c d e : UInt8} (hb : 0xF0 ≤ b.toNat ∧ b.toNat ≤ 0xF4)
    (hc : isSecond b c = true) (hd : 0x80 ≤ d.toNat ∧ d.toNat ≤ 0xBF)
    (he : 0x80 ≤ e.toNat ∧ e.toNat ≤ 0xBF) :
    String.utf8EncodeChar (Char.ofNat (runeCode [b, c, d, e])) = [b, c, d, e] := by
  obtain ⟨hc, -, hF0, -, hF4⟩ := isSecond_iff.mp hc
  have hcode : runeCode [b, c, d, e] =
      (((b.toNat - 0xF0) * 64 + (c.toNat - 0x80)) * 64 + (d.toNat - 0x80)) * 64 +
        (e.toNat - 0x80) := rfl
  generalize hv : runeCode [b, c, d, e] = v at *
  have hval := toNat_char_ofNat (v := v) (by omega)
  have hlead : v / 262144 % 8 + 0xF0 = b.toNat := by omega
  have hsecond : v / 4096 % 64 + 0x80 = c.toNat := by omega
  have hthird : v / 64 % 64 + 0x80 = d.toNat := by omega
  have htail : v % 64 + 0x80 = e.toNat := by omega
  rw [String.utf8EncodeChar, hval, if_neg (by omega), if_neg (by omega), if_neg (by omega),
    ofNat_eq hlead, ofNat_eq hsecond, ofNat_eq hthird, ofNat_eq htail]

/-- A multi-byte rune is the encoding of its character. -/
theorem utf8EncodeChar_runeCode {s : Bytes} (h : multiWidth s ≠ 0) :
    String.utf8EncodeChar (Char.ofNat (runeCode (s.take (multiWidth s)))) =
      s.take (multiWidth s) := by
  revert h
  fun_cases multiWidth s with
  | case1 b c rest hlead =>
      simp only [Bool.and_eq_true, decide_eq_true_eq, isContinuation_iff, UInt8.le_iff_toNat_le] at hlead
      exact fun _ => utf8EncodeChar_two hlead.1 hlead.2
  | case2 b c d rest _ hlead =>
      simp only [Bool.and_eq_true, decide_eq_true_eq, isContinuation_iff, UInt8.le_iff_toNat_le] at hlead
      exact fun _ => utf8EncodeChar_three hlead.1.1 hlead.1.2 hlead.2
  | case3 b c d e rest _ _ hlead =>
      simp only [Bool.and_eq_true, decide_eq_true_eq, isContinuation_iff, UInt8.le_iff_toNat_le] at hlead
      exact fun _ => utf8EncodeChar_four hlead.1.1.1 hlead.1.1.2 hlead.1.2 hlead.2
  -- no rune starts here, and the width is zero
  | case4 | case5 | case6 | case7 => exact fun h => absurd rfl h

theorem utf8EncodeChar_single {b : UInt8} (hb : b < 0x80) :
    String.utf8EncodeChar (Char.ofNat b.toNat) = [b] := by
  have hlt : b.toNat < 0x80 := UInt8.lt_iff_toNat_lt.mp hb
  have hval := toNat_char_ofNat (v := b.toNat) (by omega)
  rw [String.utf8EncodeChar, hval, if_pos (by omega), UInt8.ofNat_toNat]

theorem utf8EncodeChar_char {fuel : Nat} : ∀ {s : Bytes} {r : Rune}, r ∈ runesFrom fuel s →
    r.isInvalid = false → String.utf8EncodeChar r.char = r.bytes := by
  induction fuel with
  | zero => exact fun hr _ => absurd hr List.not_mem_nil
  | succ fuel ih =>
      intro s r hr hvalid
      cases s with
      | nil => exact absurd hr List.not_mem_nil
      | cons b rest =>
          rw [runesFrom] at hr
          dsimp only at hr
          split_ifs at hr with hb hw
          · rcases List.mem_cons.mp hr with rfl | hr
            · exact utf8EncodeChar_single hb
            · exact ih hr hvalid
          · rcases List.mem_cons.mp hr with rfl | hr
            · cases hvalid
            · exact ih hr hvalid
          · rcases List.mem_cons.mp hr with rfl | hr
            · exact utf8EncodeChar_runeCode hw
            · exact ih hr hvalid

/-- The bytes decide: a string is valid if and only if each of its bytes is part of a
rune. -/
theorem validUtf8_iff_wellFormed {s : Bytes} : ValidUtf8 s ↔ WellFormed s := by
  constructor
  · intro h
    obtain ⟨cs, rfl⟩ := validUtf8_iff.mp h
    exact (runesFrom_encode cs (Nat.le_refl _)).2
  · intro h
    rw [← encode_chars_iff, encode, chars, List.flatMap_map]
    conv_rhs => rw [← runes_bytes s]
    exact List.flatMap_congr fun r hr => utf8EncodeChar_char hr (h r hr)

end QconnMcp.Kit
