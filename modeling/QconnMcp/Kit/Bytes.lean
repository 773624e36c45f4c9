import Mathlib.Data.List.DropRight
import Mathlib.Data.List.Infix
import Mathlib.Tactic

/-!
# Byte strings

Strings are lists of bytes, as Go strings are. This file holds the string
functions the models call (trimming, splitting, white space) and the facts
about infixes that the prompt and delimiter arguments rest on. White space is
Unicode's `White_Space`, recognised on its UTF-8 encoding: every such encoding
starts with a lead byte, so it can be found by looking at the bytes alone.
-/

namespace QconnMcp.Kit

abbrev Bytes := List UInt8

/-- The bytes of an ASCII literal. -/
def ascii (s : String) : Bytes := s.toList.map fun c => UInt8.ofNat c.toNat

/-! ## Trimming and cutting -/

/-- `strings.TrimLeft` for a set of single bytes. -/
def trimLeft (p : UInt8 → Bool) (s : Bytes) : Bytes := s.dropWhile p

/-- `strings.TrimRight` for a set of single bytes. -/
def trimRight (p : UInt8 → Bool) (s : Bytes) : Bytes := s.rdropWhile p

/-- `strings.TrimPrefix`. -/
def trimLead (w s : Bytes) : Bytes := if w.isPrefixOf s then s.drop w.length else s

/-- The text before the first `b`, the whole text when there is none. -/
def before (b : UInt8) (s : Bytes) : Bytes := s.takeWhile (· != b)

/-- `strings.Cut` at a single byte. -/
def cut (b : UInt8) (s : Bytes) : Option (Bytes × Bytes) :=
  if b ∈ s then some (before b s, (s.dropWhile (· != b)).tail) else none

theorem trimLeft_replicate_append {p : UInt8 → Bool} {b : UInt8} (hb : p b = true)
    (n : Nat) (s : Bytes) : trimLeft p (List.replicate n b ++ s) = trimLeft p s := by
  induction n with
  | zero => simp
  | succ n ih =>
      rw [List.replicate_succ, List.cons_append]
      simp only [trimLeft, List.dropWhile_cons, hb, if_true]
      exact ih

theorem trimLeft_cons_of_not {p : UInt8 → Bool} {b : UInt8} (hb : p b = false) (s : Bytes) :
    trimLeft p (b :: s) = b :: s := by
  simp [trimLeft, hb]

theorem trimRight_concat_of {p : UInt8 → Bool} {b : UInt8} (hb : p b = true) (s : Bytes) :
    trimRight p (s ++ [b]) = trimRight p s :=
  List.rdropWhile_concat_pos _ _ _ hb

theorem trimRight_concat_of_not {p : UInt8 → Bool} {b : UInt8} (hb : p b = false) (s : Bytes) :
    trimRight p (s ++ [b]) = s ++ [b] :=
  List.rdropWhile_concat_neg _ _ _ (by simp [hb])

/-- Trimming stops at a byte that stays. -/
theorem trimRight_append_cons_of_not {p : UInt8 → Bool} {b : UInt8} (hb : p b = false)
    (s t : Bytes) : trimRight p (s ++ b :: t) = s ++ b :: trimRight p t := by
  induction t using List.reverseRecOn with
  | nil => exact trimRight_concat_of_not hb s
  | append_singleton t x ih =>
      rw [← List.cons_append, ← List.append_assoc]
      cases hx : p x with
      | true => rw [trimRight_concat_of hx, trimRight_concat_of hx, ih]
      | false =>
          rw [trimRight_concat_of_not hx, trimRight_concat_of_not hx, List.append_assoc]
          rfl

theorem trimRight_replicate_append {p : UInt8 → Bool} {b : UInt8} (hb : p b = false) (n : Nat)
    (s : Bytes) : trimRight p (List.replicate n b ++ s) = List.replicate n b ++ trimRight p s := by
  induction s using List.reverseRecOn with
  | nil =>
      cases n with
      | zero => rfl
      | succ n =>
          rw [List.append_nil, List.replicate_succ', trimRight_concat_of_not hb]
          simp [trimRight]
  | append_singleton s c ih =>
      rw [← List.append_assoc]
      cases hc : p c with
      | true => rw [trimRight_concat_of hc, trimRight_concat_of hc, ih]
      | false => rw [trimRight_concat_of_not hc, trimRight_concat_of_not hc, List.append_assoc]

theorem forall_bne {b : UInt8} {s : Bytes} (hs : b ∉ s) : ∀ x ∈ s, (x != b) = true := by
  intro x hx
  simpa using fun h : x = b => hs (h ▸ hx)

theorem before_append {b : UInt8} {s : Bytes} (hs : b ∉ s) (t : Bytes) :
    before b (s ++ b :: t) = s := by
  rw [before, List.takeWhile_append_of_pos (forall_bne hs)]
  simp

theorem cut_append {b : UInt8} {s : Bytes} (hs : b ∉ s) (t : Bytes) :
    cut b (s ++ b :: t) = some (s, t) := by
  rw [cut, if_pos (by simp), before_append hs, List.dropWhile_append_of_pos (forall_bne hs)]
  simp

theorem cut_some {b : UInt8} {s l r : Bytes} (h : cut b s = some (l, r)) :
    b ∉ l ∧ s = l ++ b :: r := by
  by_cases hb : b ∈ s
  · obtain ⟨l', r', rfl, hl'⟩ := List.eq_append_cons_of_mem hb
    rw [cut_append hl'] at h
    obtain ⟨rfl, rfl⟩ := Prod.mk.inj (Option.some.inj h)
    exact ⟨hl', rfl⟩
  · rw [cut, if_neg hb] at h
    cases h

theorem cut_none {b : UInt8} {s : Bytes} (h : cut b s = none) : b ∉ s := by
  intro hb
  rw [cut, if_pos hb] at h
  cases h

/-- A text is cut at its first separator in one way only. -/
theorem append_sep_inj {b : UInt8} {s s' t t' : Bytes} (hs : b ∉ s) (hs' : b ∉ s')
    (h : s ++ b :: t = s' ++ b :: t') : s = s' ∧ t = t' := by
  have hlead := congrArg (before b) h
  rw [before_append hs, before_append hs'] at hlead
  subst hlead
  exact ⟨rfl, by simpa using h⟩

/-- At its last separator as well. -/
theorem append_sep_inj_right {b : UInt8} {s s' t t' : Bytes} (ht : b ∉ t) (ht' : b ∉ t')
    (h : s ++ b :: t = s' ++ b :: t') : s = s' ∧ t = t' := by
  have hrev := congrArg List.reverse h
  simp only [List.reverse_append, List.reverse_cons, List.append_assoc, List.singleton_append] at hrev
  obtain ⟨htt, hss⟩ := append_sep_inj (by simpa using ht) (by simpa using ht') hrev
  exact ⟨List.reverse_injective hss, List.reverse_injective htt⟩

/-- Splitting at a separator takes the text before its first occurrence off. -/
theorem splitOn_append_cons {b : UInt8} {s : Bytes} (hs : b ∉ s) (t : Bytes) :
    (s ++ b :: t).splitOn b = s :: t.splitOn b := by
  refine List.splitOnP_append_cons_of_forall_mem (p := (· == b)) ?_ b (by simp) t
  intro x hx
  simpa using fun h : x = b => hs (h ▸ hx)

/-- Strings that are each closed by `b` are taken apart again. -/
theorem splitOn_flatMap {b : UInt8} {ss : List Bytes} (hs : ∀ s ∈ ss, b ∉ s) (t : Bytes) :
    ((ss.flatMap fun s => s ++ [b]) ++ t).splitOn b = ss ++ t.splitOn b := by
  induction ss with
  | nil => rfl
  | cons s ss ih =>
      rw [List.flatMap_cons, List.append_assoc, List.append_assoc, List.singleton_append,
        splitOn_append_cons (hs s List.mem_cons_self),
        ih fun s' hs' => hs s' (List.mem_cons_of_mem _ hs'), List.cons_append]

/-- The pieces are free of the separator. -/
theorem not_mem_of_mem_splitOn {b : UInt8} {s x : Bytes} (hx : x ∈ s.splitOn b) : b ∉ x := by
  induction hn : s.length using Nat.strong_induction_on generalizing s with
  | _ n ih =>
      by_cases hb : b ∈ s
      · obtain ⟨l, r, rfl, hl⟩ := List.eq_append_cons_of_mem hb
        rw [splitOn_append_cons hl] at hx
        rcases List.mem_cons.mp hx with rfl | hx
        · exact hl
        · refine ih r.length ?_ hx rfl
          rw [← hn, List.length_append, List.length_cons]
          omega
      · rw [List.splitOn_eq_singleton hb] at hx
        rw [List.mem_singleton.mp hx]
        exact hb

/-- The last place of a byte in a text. -/
theorem exists_last {b : UInt8} {s : Bytes} (h : b ∈ s) : ∃ l r, s = l ++ b :: r ∧ b ∉ r := by
  obtain ⟨r, l, hs, hr⟩ := List.eq_append_cons_of_mem (List.mem_reverse.mpr h)
  refine ⟨l.reverse, r.reverse, ?_, by simpa using hr⟩
  have hs' := congrArg List.reverse hs
  simpa using hs'

theorem isPrefixOf_append (w s : Bytes) : w.isPrefixOf (w ++ s) = true := by
  simp

/-- A terminator outside `w` does not matter to the test for `w`. -/
theorem isPrefixOf_concat {w : Bytes} {b : UInt8} (hb : b ∉ w) (s : Bytes) :
    w.isPrefixOf (s ++ [b]) = w.isPrefixOf s := by
  rw [Bool.eq_iff_iff, List.isPrefixOf_iff_prefix, List.isPrefixOf_iff_prefix,
    List.prefix_concat_iff]
  refine ⟨?_, .inr⟩
  intro h
  rcases h with rfl | h
  · exact absurd (by simp) hb
  · exact h

theorem trimLead_append (w s : Bytes) : trimLead w (w ++ s) = s := by
  simp [trimLead]

/-! ## Buffers -/

/-- Grow a buffer with zeros as far as needed and copy `data` into it at `off`. -/
def overwrite (buf : Bytes) (off : Nat) (data : Bytes) : Bytes :=
  let grown := buf ++ List.replicate (off + data.length - buf.length) 0
  grown.take off ++ data ++ grown.drop (off + data.length)

theorem overwrite_length (buf : Bytes) (off : Nat) (data : Bytes) :
    (overwrite buf off data).length = max buf.length (off + data.length) := by
  simp only [overwrite, List.length_append, List.length_take, List.length_drop,
    List.length_replicate]
  omega

/-- Writing behind `a` replaces as much of the rest as is written. -/
theorem overwrite_splice (a b data : Bytes) :
    overwrite (a ++ b) a.length data = a ++ data ++ b.drop data.length := by
  have hdrop : ∀ l : Bytes, (a ++ l).drop (a.length + data.length) = l.drop data.length := by
    intro l
    rw [List.drop_append, List.drop_eq_nil_of_le (Nat.le_add_right ..), List.nil_append,
      Nat.add_sub_cancel_left]
  have hzeros : (b ++ List.replicate (a.length + data.length - (a ++ b).length) 0).drop data.length =
      b.drop data.length := by
    rw [List.drop_append, List.drop_replicate, List.length_append]
    have hnone : a.length + data.length - (a.length + b.length) - (data.length - b.length) = 0 := by
      omega
    rw [hnone, List.replicate_zero, List.append_nil]
  simp only [overwrite]
  rw [List.append_assoc a b, List.take_left, hdrop, hzeros]

/-- The gap up to the offset is filled with zeros. -/
theorem overwrite_eq (buf : Bytes) (off : Nat) (data : Bytes) :
    overwrite buf off data =
      buf.take off ++ List.replicate (off - buf.length) 0 ++ data ++ buf.drop (off + data.length) := by
  have hzeros : min (off - buf.length) (off + data.length - buf.length) = off - buf.length := by omega
  have hnone : off + data.length - buf.length - (off + data.length - buf.length) = 0 := by omega
  simp only [overwrite, List.take_append, List.drop_append, List.take_replicate, List.drop_replicate,
    hzeros, hnone, List.replicate_zero, List.append_nil]

/-- Writing on behind what has been written. -/
theorem overwrite_append (buf : Bytes) (off : Nat) (a b : Bytes) :
    overwrite (overwrite buf off a) (off + a.length) b = overwrite buf off (a ++ b) := by
  have hlen : (buf.take off ++ List.replicate (off - buf.length) 0 ++ a).length = off + a.length := by
    simp only [List.length_append, List.length_take, List.length_replicate]
    omega
  have hsplice := overwrite_splice (buf.take off ++ List.replicate (off - buf.length) 0 ++ a)
    (buf.drop (off + a.length)) b
  rw [hlen, List.drop_drop] at hsplice
  rw [overwrite_eq buf off a, hsplice, overwrite_eq, List.length_append, Nat.add_assoc]
  simp only [List.append_assoc]

/-! ## White space -/

/-- The ASCII members of `unicode.IsSpace`. -/
def isAsciiSpace (b : UInt8) : Bool := b == 32 || (9 ≤ b && b ≤ 13)

/-- Length of the white-space rune encoded at the head of the text, 0 when the
text starts with something else. -/
def spaceLen : Bytes → Nat
  | [] => 0
  | b :: rest =>
      if isAsciiSpace b then 1
      else match b, rest with
        | 0xC2, 0x85 :: _ => 2
        | 0xC2, 0xA0 :: _ => 2
        | 0xE1, 0x9A :: 0x80 :: _ => 3
        | 0xE2, 0x80 :: c :: _ =>
            if (0x80 ≤ c && c ≤ 0x8A) || c == 0xA8 || c == 0xA9 || c == 0xAF then 3 else 0
        | 0xE2, 0x81 :: 0x9F :: _ => 3
        | 0xE3, 0x80 :: 0x80 :: _ => 3
        | _, _ => 0

/-- `spaceLen` for the last rune of a text given in reverse. -/
def spaceLenRev : Bytes → Nat
  | [] => 0
  | b :: rest =>
      if isAsciiSpace b then 1
      else match b, rest with
        | 0x85, 0xC2 :: _ => 2
        | 0xA0, 0xC2 :: _ => 2
        | 0x80, 0x9A :: 0xE1 :: _ => 3
        | 0x9F, 0x81 :: 0xE2 :: _ => 3
        | 0x80, 0x80 :: 0xE3 :: _ => 3
        | c, 0x80 :: 0xE2 :: _ =>
            if (0x80 ≤ c && c ≤ 0x8A) || c == 0xA8 || c == 0xA9 || c == 0xAF then 3 else 0
        | _, _ => 0

/-- Drop runes measured by `len` from the front, at most `fuel` of them. -/
def dropRunes (len : Bytes → Nat) : Nat → Bytes → Bytes
  | 0, s => s
  | fuel + 1, s => if len s = 0 then s else dropRunes len fuel (s.drop (len s))

/-- `strings.TrimSpace`. -/
def trimSpace (s : Bytes) : Bytes :=
  let t := dropRunes spaceLen s.length s
  (dropRunes spaceLenRev t.length t.reverse).reverse

/-- The scan of `strings.Fields`: `skip` bytes of a white-space rune are still
to be passed, `cur` is the field being collected. -/
def fieldsFrom : Nat → Bytes → Bytes → List Bytes
  | _, cur, [] => if cur = [] then [] else [cur]
  | skip + 1, cur, _ :: rest => fieldsFrom skip cur rest
  | 0, cur, b :: rest =>
      match spaceLen (b :: rest) with
      | 0 => fieldsFrom 0 (cur ++ [b]) rest
      | k + 1 => if cur = [] then fieldsFrom k [] rest else cur :: fieldsFrom k [] rest

/-- `strings.Fields`. -/
def fields (s : Bytes) : List Bytes := fieldsFrom 0 [] s

theorem spaceLen_of_ascii {b : UInt8} (hb : b < 0x80) (hs : isAsciiSpace b = false) (s : Bytes) :
    spaceLen (b :: s) = 0 := by
  simp only [spaceLen, hs, Bool.false_eq_true, if_false]
  split <;> first | rfl | (exfalso; revert hb; decide)

/-- A lead byte of a multi-byte space is never ASCII, so an ASCII last byte is
not part of a trailing space. -/
theorem spaceLenRev_concat_le {b : UInt8} (hb : b < 0x80) (hs : isAsciiSpace b = false)
    (r : Bytes) : spaceLenRev (r ++ [b]) ≤ r.length := by
  match r with
  | [] => simp [spaceLenRev, hs]
  | [x] =>
      simp only [List.cons_append, List.nil_append, spaceLenRev, List.length_singleton]
      split
      · omega
      · split <;> simp_all
  | [x, y] =>
      simp only [List.cons_append, List.nil_append, spaceLenRev, List.length_cons, List.length_nil]
      split
      · omega
      · split <;> simp_all
  | x :: y :: z :: r =>
      simp only [List.cons_append, spaceLenRev, List.length_cons]
      split
      · omega
      · split <;> (try split) <;> omega

theorem dropRunes_of_len_zero {len : Bytes → Nat} {s : Bytes} (h : len s = 0) (fuel : Nat) :
    dropRunes len fuel s = s := by
  cases fuel <;> simp [dropRunes, h]

theorem dropRunes_rev_concat {b : UInt8} (hb : b < 0x80) (hs : isAsciiSpace b = false) :
    ∀ (fuel : Nat) (r : Bytes), ∃ r', dropRunes spaceLenRev fuel (r ++ [b]) = r' ++ [b]
  | 0, r => ⟨r, rfl⟩
  | fuel + 1, r => by
      unfold dropRunes
      split
      · exact ⟨r, rfl⟩
      · have hle := spaceLenRev_concat_le hb hs r
        rw [List.drop_append_of_le_length hle]
        exact dropRunes_rev_concat hb hs fuel _

/-- Trimming a text that starts with a visible ASCII byte keeps that byte. -/
theorem trimSpace_cons {b : UInt8} (hb : b < 0x80) (hs : isAsciiSpace b = false) (s : Bytes) :
    ∃ t, trimSpace (b :: s) = b :: t := by
  obtain ⟨r, hr⟩ := dropRunes_rev_concat hb hs (b :: s).length s.reverse
  refine ⟨r.reverse, ?_⟩
  simp only [trimSpace, dropRunes_of_len_zero (spaceLen_of_ascii hb hs s)]
  rw [List.reverse_cons, hr]
  simp

/-! ## Infixes -/

/-- An infix cannot straddle a byte that it does not contain. -/
theorem infix_append_cons {b : UInt8} {w : Bytes} (hb : b ∉ w) (xs ys : Bytes) :
    w <:+: xs ++ b :: ys ↔ w <:+: xs ∨ w <:+: ys := by
  constructor
  · rintro ⟨pre, post, h⟩
    rw [List.append_assoc, List.append_eq_append_iff] at h
    rcases h with ⟨mid, rfl, h⟩ | ⟨mid, rfl, h⟩
    · -- the infix starts inside `xs`
      rw [List.append_eq_append_iff] at h
      rcases h with ⟨k, rfl, -⟩ | ⟨k, hk, h⟩
      · exact .inl ⟨pre, k, by simp⟩
      · cases k with
        | nil => exact .inl ⟨pre, [], by simp [hk]⟩
        | cons c k =>
            obtain ⟨rfl, -⟩ := List.cons_eq_cons.mp h
            exact absurd (hk ▸ by simp) hb
    · -- the infix starts at or after `b`
      cases mid with
      | nil =>
          cases w with
          | nil => exact .inr (List.nil_infix)
          | cons c w =>
              obtain ⟨rfl, -⟩ := List.cons_eq_cons.mp h
              simp at hb
      | cons c mid =>
          obtain ⟨rfl, h⟩ := List.cons_eq_cons.mp h
          exact .inr ⟨mid, post, by simpa using h.symm⟩
  · rintro (⟨pre, post, rfl⟩ | ⟨pre, post, rfl⟩)
    · exact ⟨pre, post ++ b :: ys, by simp⟩
    · exact ⟨xs ++ b :: pre, post, by simp⟩

end QconnMcp.Kit
