import QconnMcp.Kit.Numeral
import QconnMcp.Kit.Shell

/-!
# Go's quoted strings

`strconv.Quote`, which the verb `%q` of `fmt` uses: a string is decoded rune by rune
and every rune is written as it is, backslashed, or as an escape. Which runes beyond
ASCII are printable is a table of the Go library and a parameter here.

The second part reads a quoted string the way a shell reads double quotes. The shell
knows the backslashes in front of `"` and `\` and none of the escapes, so it keeps an
escape as text, and an escape is longer than what it stands for.
-/

namespace QconnMcp.Kit

/-! ## Runes -/

def isContinuation (b : UInt8) : Bool := 0x80 ≤ b && b ≤ 0xBF

/-- The second byte that may follow a lead byte of three or four: no overlong forms,
no surrogates, nothing beyond the last code point. -/
def isSecond (lead b : UInt8) : Bool :=
  (if lead == 0xE0 then 0xA0 else if lead == 0xF0 then 0x90 else 0x80) ≤ b &&
    b ≤ (if lead == 0xED then 0x9F else if lead == 0xF4 then 0x8F else 0xBF)

/-- Length of the multi-byte rune at the head of the text, 0 when there is none. -/
def multiWidth : Bytes → Nat
  | b :: c :: rest =>
      if 0xC2 ≤ b && b ≤ 0xDF && isContinuation c then 2
      else
        match rest with
        | d :: rest =>
            if 0xE0 ≤ b && b ≤ 0xEF && isSecond b c && isContinuation d then 3
            else
              match rest with
              | e :: _ =>
                  if 0xF0 ≤ b && b ≤ 0xF4 && isSecond b c && isContinuation d && isContinuation e then 4
                  else 0
              | [] => 0
        | [] => 0
  | _ => 0

theorem high_of_continuation {b : UInt8} (h : isContinuation b = true) : 0x80 ≤ b := by
  simp only [isContinuation, Bool.and_eq_true, decide_eq_true_eq] at h
  exact h.1

theorem high_of_second {lead b : UInt8} (h : isSecond lead b = true) : 0x80 ≤ b := by
  simp only [isSecond, Bool.and_eq_true, decide_eq_true_eq] at h
  refine UInt8.le_trans ?_ h.1
  split_ifs <;> decide

/-- A multi-byte rune is part of the text, and none of its bytes is ASCII. -/
theorem multiWidth_spec (s : Bytes) :
    multiWidth s ≤ s.length ∧ multiWidth s ≤ 4 ∧ ∀ b ∈ s.take (multiWidth s), 0x80 ≤ b := by
  have hlead : ∀ {b lo : UInt8}, 0x80 ≤ lo → lo ≤ b → 0x80 ≤ b := UInt8.le_trans
  fun_cases multiWidth s with
  | case1 b c rest h =>
      simp only [Bool.and_eq_true, decide_eq_true_eq] at h
      refine ⟨by simp, by decide, ?_⟩
      simp only [List.take_succ_cons, List.take_zero, List.forall_mem_cons]
      exact ⟨hlead (by decide) h.1.1, high_of_continuation h.2, by simp⟩
  | case2 b c d rest h hlong =>
      simp only [Bool.and_eq_true, decide_eq_true_eq] at hlong
      refine ⟨by simp, by decide, ?_⟩
      simp only [List.take_succ_cons, List.take_zero, List.forall_mem_cons]
      exact ⟨hlead (by decide) hlong.1.1.1, high_of_second hlong.1.2, high_of_continuation hlong.2,
        by simp⟩
  | case3 b c d e rest h hlong hlonger =>
      simp only [Bool.and_eq_true, decide_eq_true_eq] at hlonger
      refine ⟨by simp, by decide, ?_⟩
      simp only [List.take_succ_cons, List.take_zero, List.forall_mem_cons]
      exact ⟨hlead (by decide) hlonger.1.1.1.1, high_of_second hlonger.1.1.2,
        high_of_continuation hlonger.1.2, high_of_continuation hlonger.2, by simp⟩
  | case4 | case5 | case6 | case7 => exact ⟨Nat.zero_le _, Nat.zero_le _, by simp⟩

/-- A piece of a Go string: an ASCII byte, a multi-byte rune, or a byte that is not
part of any rune. -/
inductive Rune where
  | single (b : UInt8) (hb : b < 0x80)
  | multi (bytes : Bytes) (hlen : bytes.length ≤ 4) (hhigh : ∀ b ∈ bytes, 0x80 ≤ b)
  | invalid (b : UInt8) (hhigh : 0x80 ≤ b)

def Rune.bytes : Rune → Bytes
  | single b _ => [b]
  | multi bytes _ _ => bytes
  | invalid b _ => [b]

/-- The loop over the runes of a string; every rune has a byte at least. -/
def runesFrom : Nat → Bytes → List Rune
  | 0, _ => []
  | _ + 1, [] => []
  | fuel + 1, b :: rest =>
      if hb : b < 0x80 then .single b hb :: runesFrom fuel rest
      else
        let s := b :: rest
        if multiWidth s = 0 then .invalid b (UInt8.not_lt.mp hb) :: runesFrom fuel rest
        else
          .multi (s.take (multiWidth s)) ((List.length_take_le _ _).trans (multiWidth_spec s).2.1)
            (multiWidth_spec s).2.2 :: runesFrom fuel (s.drop (multiWidth s))

def runes (s : Bytes) : List Rune := runesFrom s.length s

theorem runesFrom_bytes {fuel : Nat} {s : Bytes} (h : s.length ≤ fuel) :
    (runesFrom fuel s).flatMap Rune.bytes = s := by
  induction fuel generalizing s with
  | zero => simp [runesFrom, List.length_eq_zero_iff.mp (Nat.le_zero.mp h)]
  | succ fuel ih =>
      cases s with
      | nil => rfl
      | cons b rest =>
          have hrest : rest.length ≤ fuel := by simpa using h
          rw [runesFrom]
          dsimp only
          split_ifs with hb hw
          · rw [List.flatMap_cons, ih hrest]
            rfl
          · rw [List.flatMap_cons, ih hrest]
            rfl
          · rw [List.flatMap_cons, ih]
            · exact List.take_append_drop _ _
            · rw [List.length_drop]
              simp only [List.length_cons] at h ⊢
              omega

theorem runes_bytes (s : Bytes) : (runes s).flatMap Rune.bytes = s := runesFrom_bytes (Nat.le_refl _)

/-! ## Quoting -/

/-- The code point of a multi-byte rune. -/
def runeCode : Bytes → Nat
  | [b, c] => (b.toNat - 0xC0) * 64 + (c.toNat - 0x80)
  | [b, c, d] => ((b.toNat - 0xE0) * 64 + (c.toNat - 0x80)) * 64 + (d.toNat - 0x80)
  | [b, c, d, e] =>
      (((b.toNat - 0xF0) * 64 + (c.toNat - 0x80)) * 64 + (d.toNat - 0x80)) * 64 + (e.toNat - 0x80)
  | _ => 0

/-- A number in `n` hexadecimal digits. -/
def hexFixed : Nat → Nat → Bytes
  | 0, _ => []
  | n + 1, v => hexFixed n (v / 16) ++ [digitByte (v % 16)]

/-- The letter of an escape such as `\t`. -/
def escapeLetter (b : UInt8) : Option UInt8 :=
  if b = 7 then some 97
  else if b = 8 then some 98
  else if b = 12 then some 102
  else if b = 10 then some 110
  else if b = 13 then some 114
  else if b = 9 then some 116
  else if b = 11 then some 118
  else none

section
variable (isPrint : Nat → Bool)

/-- `strconv.IsPrint` of the rune. -/
def Rune.printable : Rune → Bool
  | .single b _ => 32 ≤ b && b ≤ 126
  | .multi bytes _ _ => isPrint (runeCode bytes)
  | .invalid _ _ => false

/-- The escape of a rune that is not printable. -/
def Rune.escape : Rune → Bytes
  | .single b _ =>
      match escapeLetter b with
      | some c => [92, c]
      | none => [92, 120] ++ hexFixed 2 b.toNat
  | .multi bytes _ _ =>
      if runeCode bytes < 0x10000 then [92, 117] ++ hexFixed 4 (runeCode bytes)
      else [92, 85] ++ hexFixed 8 (runeCode bytes)
  | .invalid b _ => [92, 120] ++ hexFixed 2 b.toNat

/-- `appendEscapedRune`. A printable rune is encoded again, into the bytes it was
decoded from. -/
def quoteRune (r : Rune) : Bytes :=
  if r.bytes = [34] ∨ r.bytes = [92] then 92 :: r.bytes
  else if r.printable isPrint then r.bytes
  else r.escape

/-- `strconv.Quote`. -/
def quote (s : Bytes) : Bytes := 34 :: (runes s).flatMap (quoteRune isPrint) ++ [34]

/-- Every rune of the string is printable. -/
def Printable (s : Bytes) : Prop := ∀ r ∈ runes s, r.printable isPrint = true

instance (s : Bytes) : Decidable (Printable isPrint s) :=
  inferInstanceAs (Decidable (∀ r ∈ runes s, _))

end

/-! ## A quoted string in a shell -/

section
variable {isPrint : Nat → Bool}

/-- The rune starts an expansion in double quotes. -/
def Rune.expanding (r : Rune) : Bool := r.bytes == [36] || r.bytes == [96]

/-- What the shell reads of a quoted rune. -/
def shown (isPrint : Nat → Bool) (r : Rune) : Bytes :=
  if r.printable isPrint then r.bytes else r.escape

theorem not_special_of_high {b : UInt8} (hb : 0x80 ≤ b) : Shell.isDoubleSpecial b = false := by
  rw [Bool.eq_false_iff]
  intro h
  simp only [Shell.isDoubleSpecial, Bool.or_eq_true, beq_iff_eq] at h
  rcases h with ((rfl | rfl) | rfl) | rfl <;> exact absurd hb (by decide)

theorem not_special_of_hex {b : UInt8} (hb : isHexDigit b = true) :
    Shell.isDoubleSpecial b = false := by
  rw [Bool.eq_false_iff]
  intro h
  simp only [Shell.isDoubleSpecial, Bool.or_eq_true, beq_iff_eq] at h
  rcases h with ((rfl | rfl) | rfl) | rfl <;> exact absurd hb (by decide)

theorem hexFixed_length (n v : Nat) : (hexFixed n v).length = n := by
  induction n generalizing v with
  | zero => rfl
  | succ n ih => rw [hexFixed, List.length_append, ih, List.length_singleton]

theorem isHexDigit_of_mem_hexFixed (n v : Nat) : ∀ b ∈ hexFixed n v, isHexDigit b = true := by
  induction n generalizing v with
  | zero => simp [hexFixed]
  | succ n ih =>
      intro b hb
      rcases List.mem_append.mp hb with hb | hb
      · exact ih _ b hb
      · rw [List.mem_singleton.mp hb]
        exact isHexDigit_digitByte (Nat.mod_lt _ (by decide))

/-- An escape the shell does not know is kept. -/
theorem reads_escape {c : UInt8} (hc : Shell.isDoubleSpecial c = false) (hvisible : 32 < c)
    (n v : Nat) : Shell.Reads ([92, c] ++ hexFixed n v) ([92, c] ++ hexFixed n v) := by
  have hlf : c ≠ 10 := by
    rintro rfl
    exact absurd hvisible (by decide)
  have hslash := Shell.Reads.escape hlf
  rw [hc] at hslash
  exact hslash.append (.plain fun b hb => not_special_of_hex (isHexDigit_of_mem_hexFixed n v b hb))

theorem escapeLetter_spec {b c : UInt8} (h : escapeLetter b = some c) :
    Shell.isDoubleSpecial c = false ∧ 32 < c := by
  rw [escapeLetter] at h
  split_ifs at h <;> obtain rfl := Option.some.inj h <;> decide

theorem Rune.reads_escape (r : Rune) : Shell.Reads r.escape r.escape := by
  cases r with
  | single b hb =>
      rw [Rune.escape]
      cases hletter : escapeLetter b with
      | some c =>
          obtain ⟨hspecial, hvisible⟩ := escapeLetter_spec hletter
          exact Kit.reads_escape hspecial hvisible 0 0
      | none => exact Kit.reads_escape (by decide) (by decide) 2 b.toNat
  | multi bytes hlen hhigh =>
      rw [Rune.escape]
      split
      · exact Kit.reads_escape (by decide) (by decide) 4 _
      · exact Kit.reads_escape (by decide) (by decide) 8 _
  | invalid b hhigh => exact Kit.reads_escape (by decide) (by decide) 2 b.toNat

theorem visible_of_mem_escape {c : UInt8} (hc : 32 < c) (n v : Nat) :
    ∀ b ∈ [92, c] ++ hexFixed n v, 32 < b := by
  intro b hb
  rw [List.mem_append, List.mem_cons, List.mem_singleton] at hb
  rcases hb with (rfl | rfl) | hb
  · decide
  · exact hc
  · have hdigit := isHexDigit_of_mem_hexFixed n v b hb
    simp only [isHexDigit, Bool.or_eq_true, Bool.and_eq_true, decide_eq_true_eq] at hdigit
    rcases hdigit with (hd | hd) | hd
    · exact UInt8.lt_of_lt_of_le (by decide) hd.1
    · exact UInt8.lt_of_lt_of_le (by decide) hd.1
    · exact UInt8.lt_of_lt_of_le (by decide) hd.1

/-- An escape is made of visible bytes. -/
theorem Rune.visible_escape (r : Rune) : ∀ b ∈ r.escape, 32 < b := by
  cases r with
  | single x hx =>
      rw [Rune.escape]
      cases hletter : escapeLetter x with
      | some c => exact visible_of_mem_escape (escapeLetter_spec hletter).2 0 0
      | none => exact visible_of_mem_escape (by decide) 2 x.toNat
  | multi bytes hlen hhigh =>
      rw [Rune.escape]
      split
      · exact visible_of_mem_escape (by decide) 4 _
      · exact visible_of_mem_escape (by decide) 8 _
  | invalid x hx => exact visible_of_mem_escape (by decide) 2 x.toNat

/-- Quoting adds visible bytes only. -/
theorem mem_quote {isPrint : Nat → Bool} {s : Bytes} {b : UInt8} (h : b ∈ quote isPrint s) :
    b ∈ s ∨ 32 < b := by
  simp only [quote, List.cons_append, List.mem_cons, List.mem_append, List.not_mem_nil, or_false] at h
  rcases h with rfl | h | rfl
  · exact .inr (by decide)
  · obtain ⟨r, hr, hb⟩ := List.mem_flatMap.mp h
    have hbytes : b ∈ r.bytes → b ∈ s := fun hmem => by
      rw [← runes_bytes s]
      exact List.mem_flatMap.mpr ⟨r, hr, hmem⟩
    rw [quoteRune] at hb
    split_ifs at hb
    · rcases List.mem_cons.mp hb with rfl | hb
      · exact .inr (by decide)
      · exact .inl (hbytes hb)
    · exact .inl (hbytes hb)
    · exact .inr (r.visible_escape b hb)
  · exact .inr (by decide)

/-- A backslashed rune is ASCII and printable. -/
theorem shown_backslashed {r : Rune} {b : UInt8} (hb : b < 0x80) (hprint : (32 ≤ b && b ≤ 126) = true)
    (h : r.bytes = [b]) : shown isPrint r = [b] := by
  cases r with
  | single x hx =>
      obtain rfl : x = b := by simpa [Rune.bytes] using h
      rw [shown, Rune.printable, hprint]
      exact h
  | multi bytes hlen hhigh =>
      obtain rfl : bytes = [b] := h
      exact absurd (hhigh b (by simp)) (UInt8.not_le.mpr hb)
  | invalid x hx =>
      obtain rfl : x = b := by simpa [Rune.bytes] using h
      exact absurd hx (UInt8.not_le.mpr hb)

theorem quoteRune_reads {r : Rune} (hr : r.expanding = false) :
    Shell.Reads (quoteRune isPrint r) (shown isPrint r) := by
  rw [quoteRune]
  split_ifs with hback hprint
  · rcases hback with h | h
    · rw [shown_backslashed (b := 34) (by decide) (by decide) h, h]
      exact Shell.Reads.escape (b := 34) (by decide)
    · rw [shown_backslashed (b := 92) (by decide) (by decide) h, h]
      exact Shell.Reads.escape (b := 92) (by decide)
  · rw [shown, if_pos hprint]
    apply Shell.Reads.plain
    cases r with
    | single b hb =>
        simp only [Rune.bytes, Rune.expanding, List.cons.injEq, and_true, not_or,
          Bool.or_eq_false_iff, beq_eq_false_iff_ne, ne_eq, List.mem_singleton, forall_eq,
          Shell.isDoubleSpecial] at hback hr ⊢
        simp [hback.1, hback.2, hr.1, hr.2]
    | multi bytes hlen hhigh => exact fun b hb => not_special_of_high (hhigh b hb)
    | invalid b hhigh =>
        intro x hx
        rw [List.mem_singleton.mp hx]
        exact not_special_of_high hhigh
  · rw [shown, if_neg hprint]
    exact r.reads_escape

/-- An escape is longer than what it stands for. -/
theorem Rune.length_lt_escape (r : Rune) : r.bytes.length < r.escape.length := by
  cases r with
  | single b hb =>
      rw [Rune.escape, Rune.bytes]
      split <;> simp [hexFixed_length]
  | multi bytes hlen hhigh =>
      rw [Rune.escape, Rune.bytes]
      split <;> simp only [List.length_append, hexFixed_length, List.length_cons, List.length_nil] <;>
        omega
  | invalid b hhigh =>
      rw [Rune.escape, Rune.bytes]
      simp [hexFixed_length]

/-- What the shell reads is no shorter than the runes, and as long only when all of
them are printable. -/
theorem printable_of_shown {l : List Rune} :
    (l.flatMap Rune.bytes).length ≤ (l.flatMap (shown isPrint)).length ∧
      ((l.flatMap (shown isPrint)).length ≤ (l.flatMap Rune.bytes).length →
        ∀ r ∈ l, r.printable isPrint = true) := by
  induction l with
  | nil => simp
  | cons r l ih =>
      obtain ⟨hle, hall⟩ := ih
      have hescape := r.length_lt_escape
      simp only [List.flatMap_cons, List.length_append, List.forall_mem_cons, shown]
      cases hprint : r.printable isPrint with
      | true =>
          simp only [if_true, true_and]
          exact ⟨by simpa [shown] using hle, fun h => hall (by simpa [shown] using h)⟩
      | false =>
          simp only [Bool.false_eq_true, if_false]
          refine ⟨by omega, ?_⟩
          intro h
          omega

theorem shown_flatMap {l : List Rune} (h : ∀ r ∈ l, r.printable isPrint = true) :
    l.flatMap (shown isPrint) = l.flatMap Rune.bytes := by
  rw [List.flatMap_def, List.flatMap_def]
  congr 1
  apply List.map_congr_left
  intro r hr
  rw [shown, if_pos (h r hr)]

theorem Rune.mem_bytes_low {r : Rune} {b : UInt8} (hb : b < 0x80) (h : b ∈ r.bytes) : r.bytes = [b] := by
  cases r with
  | single x hx => rw [Rune.bytes, List.mem_singleton.mp h]
  | multi bytes hlen hhigh => exact absurd (hhigh b h) (UInt8.not_le.mpr hb)
  | invalid x hx =>
      rw [List.mem_singleton.mp h] at hb
      exact absurd hx (UInt8.not_le.mpr hb)

theorem quoteRune_expanding {r : Rune} {b : UInt8} (hb : b = 36 ∨ b = 96) (h : r.bytes = [b]) :
    quoteRune isPrint r = [b] := by
  have hshown : shown isPrint r = [b] := by
    rcases hb with rfl | rfl
    · exact shown_backslashed (by decide) (by decide) h
    · exact shown_backslashed (by decide) (by decide) h
  rw [quoteRune, if_neg, ← shown, hshown]
  rcases hb with rfl | rfl <;> rw [h] <;> decide

/-- Runes that start an expansion are the dollars and backquotes of the text. -/
theorem expanding_iff (s : Bytes) :
    (∃ r ∈ runes s, r.expanding = true) ↔ (36 : UInt8) ∈ s ∨ (96 : UInt8) ∈ s := by
  have hrune {b : UInt8} (hb : b < 0x80) : (∃ r ∈ runes s, r.bytes = [b]) ↔ b ∈ s := by
    constructor
    · rintro ⟨r, hr, hbytes⟩
      rw [← runes_bytes s]
      exact List.mem_flatMap.mpr ⟨r, hr, by simp [hbytes]⟩
    · intro h
      rw [← runes_bytes s] at h
      obtain ⟨r, hr, hmem⟩ := List.mem_flatMap.mp h
      exact ⟨r, hr, Rune.mem_bytes_low hb hmem⟩
  rw [← hrune (b := 36) (by decide), ← hrune (b := 96) (by decide)]
  simp only [Rune.expanding, Bool.or_eq_true, beq_iff_eq, and_or_left, exists_or]

/-- **A quoted string in a shell.** In double quotes the shell reads `strconv.Quote`
back exactly when all runes are printable and none starts an expansion. -/
theorem tokens_quote_iff (isPrint : Nat → Bool) (s : Bytes) :
    Shell.tokensFrom .between (quote isPrint s) = some [.literal s] ↔
      Printable isPrint s ∧ (36 : UInt8) ∉ s ∧ (96 : UInt8) ∉ s := by
  cases hfind : (runes s).find? Rune.expanding with
  | none =>
      have hquiet : ∀ r ∈ runes s, r.expanding = false := by
        simpa using List.find?_eq_none.mp hfind
      have hnot : (36 : UInt8) ∉ s ∧ (96 : UInt8) ∉ s := by
        rw [← not_or, ← expanding_iff]
        rintro ⟨r, hr, hexp⟩
        exact absurd hexp (by simp [hquiet r hr])
      have hreads : ∀ r ∈ runes s, Shell.Reads (quoteRune isPrint r) (shown isPrint r) :=
        fun r hr => quoteRune_reads (hquiet r hr)
      have hread := Shell.tokens_quoted (Shell.Reads.flatMap hreads)
      rw [quote, hread]
      constructor
      · intro h
        have htext : (runes s).flatMap (shown isPrint) = s := by simpa using h
        refine ⟨printable_of_shown.2 ?_, hnot⟩
        rw [htext, runes_bytes]
      · rintro ⟨hprint, -⟩
        rw [shown_flatMap hprint, runes_bytes]
  | some r =>
      -- up to the first dollar or backquote all is read back; there the word turns active
      obtain ⟨hexp, before, behind, hsplit, hquiet⟩ := List.find?_eq_some_iff_append.mp hfind
      constructor
      · intro h
        exfalso
        obtain ⟨b, hb, hbytes⟩ : ∃ b : UInt8, (b = 36 ∨ b = 96) ∧ r.bytes = [b] := by
          simp only [Rune.expanding, Bool.or_eq_true, beq_iff_eq] at hexp
          rcases hexp with hbytes | hbytes
          · exact ⟨36, .inl rfl, hbytes⟩
          · exact ⟨96, .inr rfl, hbytes⟩
        have hread : Shell.Reads (before.flatMap (quoteRune isPrint)) (before.flatMap (shown isPrint)) :=
          .flatMap fun x hx => quoteRune_reads (by simpa using hquiet x hx)
        have htext : quote isPrint s = 34 :: (before.flatMap (quoteRune isPrint) ++
            b :: (behind.flatMap (quoteRune isPrint) ++ [34])) := by
          rw [quote, hsplit]
          simp [quoteRune_expanding hb hbytes]
        rw [htext] at h
        have hhead := Shell.tokens_quoted_active hread hb h
        simp at hhead
      · rintro ⟨-, hdollar, htick⟩
        have hr : r ∈ runes s := by simp [hsplit]
        exact absurd ((expanding_iff s).mp ⟨r, hr, hexp⟩) (by simp [hdollar, htick])

end

end QconnMcp.Kit
