import QconnMcp.Kit.Bytes

/-!
# Numerals

Little-endian words, the `%x` and `%d` verbs on integers, `strconv.ParseInt`
with its 64-bit saturation, and the round trip between them. `ParseInt` hands back a value
beside its error, because callers that drop the error go on with that value.
-/

namespace QconnMcp.Kit

/-- Two's-complement wrap of a 64-bit `int`. -/
def wrap64 (i : Int) : Int := i.bmod (2 ^ 64)

theorem wrap64_of_bounds {i : Int} (lo : -2 ^ 63 ≤ i) (hi : i < 2 ^ 63) : wrap64 i = i := by
  unfold wrap64
  rw [Int.bmod_eq_of_le] <;> omega

/-! ## Little-endian words -/

/-- The low `n` bytes of a number, least significant first. -/
def leBytes : Nat → Nat → Bytes
  | 0, _ => []
  | n + 1, v => UInt8.ofNat v :: leBytes n (v / 256)

def leNat : Bytes → Nat
  | [] => 0
  | b :: s => b.toNat + 256 * leNat s

@[simp] theorem leBytes_length (n v : Nat) : (leBytes n v).length = n := by
  induction n generalizing v with
  | zero => rfl
  | succ n ih => rw [leBytes, List.length_cons, ih]

theorem leNat_leBytes (n v : Nat) : leNat (leBytes n v) = v % 256 ^ n := by
  induction n generalizing v with
  | zero => simp [leBytes, leNat, Nat.mod_one]
  | succ n ih =>
      rw [leBytes, leNat, ih, UInt8.toNat_ofNat', Nat.pow_succ' (m := 256),
        Nat.mod_mul (a := 256)]

/-- The field at the start of a text. -/
theorem leNat_take {n v : Nat} (hv : v < 256 ^ n) (rest : Bytes) :
    leNat ((leBytes n v ++ rest).take n) = v := by
  rw [List.take_left' (leBytes_length n v), leNat_leBytes, Nat.mod_eq_of_lt hv]

theorem drop_leBytes (n v : Nat) (rest : Bytes) : (leBytes n v ++ rest).drop n = rest :=
  List.drop_left' (leBytes_length n v)

/-! ## Writing -/

def digitByte (d : Nat) : UInt8 := UInt8.ofNat d.digitChar.toNat

/-- The digits of `n`, most significant first, lower case. -/
def fmtNat (base n : Nat) : Bytes := (Nat.toDigits base n).map fun c => UInt8.ofNat c.toNat

/-- `%x` (base 16) and `%d` (base 10) of a signed integer. -/
def fmtInt (base : Nat) (i : Int) : Bytes :=
  if i < 0 then 45 :: fmtNat base i.natAbs else fmtNat base i.natAbs

theorem fmtNat_eq {base : Nat} (hb : 1 < base) (n : Nat) :
    fmtNat base n =
      (if n < base then [] else fmtNat base (n / base)) ++ [digitByte (n % base)] := by
  unfold fmtNat
  rw [Nat.toDigits_eq_if hb]
  split
  · rename_i h
    simp [digitByte, Nat.mod_eq_of_lt h]
  · simp [digitByte]

theorem fmtNat_ne_nil (base n : Nat) : fmtNat base n ≠ [] := by
  simp [fmtNat, Nat.toDigits_ne_nil]

theorem fmtInt_of_nonneg {base : Nat} {i : Int} (h : 0 ≤ i) :
    fmtInt base i = fmtNat base i.toNat := by
  rw [fmtInt, if_neg (by omega)]
  congr 1
  omega

/-! ## Reading -/

/-- The value of a digit in Go's alphabet of 36. -/
def digitVal (b : UInt8) : Option Nat :=
  if 48 ≤ b && b ≤ 57 then some (b.toNat - 48)
  else if 97 ≤ b && b ≤ 122 then some (b.toNat - 87)
  else if 65 ≤ b && b ≤ 90 then some (b.toNat - 55)
  else none

/-- `[0-9a-fA-F]`. -/
def isHexDigit (b : UInt8) : Bool :=
  (48 ≤ b && b ≤ 57) || (97 ≤ b && b ≤ 102) || (65 ≤ b && b ≤ 70)

/-- The value of a hexadecimal digit. -/
def nibble (b : UInt8) : Option Nat := if isHexDigit b then digitVal b else none

inductive NumErr where
  | invalid
  | range
  deriving DecidableEq, Repr

/-- The digit loop of `strconv.ParseUint`: the first bad digit or the first
overflow of 64 bits decides, whatever follows it. -/
def parseUintFrom (base : Nat) : Bytes → Nat → Nat × Option NumErr
  | [], n => (n, none)
  | b :: rest, n =>
      match digitVal b with
      | none => (0, some .invalid)
      | some d =>
          if base ≤ d then (0, some .invalid)
          else if 2 ^ 64 ≤ n * base + d then (2 ^ 64 - 1, some .range)
          else parseUintFrom base rest (n * base + d)

/-- `strconv.ParseUint(s, base, 64)`. -/
def parseUint (base : Nat) (s : Bytes) : Nat × Option NumErr :=
  if s = [] then (0, some .invalid) else parseUintFrom base s 0

/-- The range test of `ParseInt` on a magnitude. -/
def clampInt (neg : Bool) : Nat × Option NumErr → Int × Option NumErr
  | (_, some .invalid) => (0, some .invalid)
  | (n, _) =>
      if neg then if 2 ^ 63 < n then (-2 ^ 63, some .range) else (-(n : Int), none)
      else if 2 ^ 63 ≤ n then (2 ^ 63 - 1, some .range) else ((n : Int), none)

/-- `strconv.ParseInt(s, base, 64)`. -/
def parseInt (base : Nat) : Bytes → Int × Option NumErr
  | 45 :: rest => clampInt true (parseUint base rest)
  | 43 :: rest => clampInt false (parseUint base rest)
  | s => clampInt false (parseUint base s)

/-! ## Round trip -/

theorem digitVal_digitByte {d : Nat} (h : d < 16) : digitVal (digitByte d) = some d := by
  interval_cases d <;> decide

theorem isHexDigit_digitByte {d : Nat} (h : d < 16) : isHexDigit (digitByte d) = true := by
  interval_cases d <;> decide

theorem nibble_eq_none {b : UInt8} (h : isHexDigit b = false) : nibble b = none := by
  rw [nibble, h]
  rfl

theorem exists_digitVal {b : UInt8} (h : isHexDigit b = true) : ∃ d < 16, digitVal b = some d := by
  simp only [isHexDigit, Bool.or_eq_true, Bool.and_eq_true, decide_eq_true_eq, UInt8.le_iff_toNat_le,
    UInt8.reduceToNat] at h
  simp only [digitVal, Bool.and_eq_true, decide_eq_true_eq, UInt8.le_iff_toNat_le,
    UInt8.reduceToNat]
  rcases h with (h | h) | h
  · exact ⟨b.toNat - 48, by omega, if_pos h⟩
  · exact ⟨b.toNat - 87, by omega, by rw [if_neg (by omega), if_pos (by omega)]⟩
  · exact ⟨b.toNat - 55, by omega,
      by rw [if_neg (by omega), if_neg (by omega), if_pos (by omega)]⟩

/-- What holds of every digit of a base holds of every byte of a printed number. -/
theorem forall_mem_fmtNat_of {base : Nat} (hb : 1 < base) {p : UInt8 → Bool}
    (hp : ∀ d < base, p (digitByte d) = true) {n : Nat} : ∀ b ∈ fmtNat base n, p b = true := by
  induction n using Nat.strong_induction_on with
  | _ n ih =>
      intro b hmem
      rw [fmtNat_eq hb] at hmem
      rcases List.mem_append.mp hmem with h | h
      · split at h
        · simp at h
        · exact ih _ (Nat.div_lt_self (by omega) hb) b h
      · rw [List.mem_singleton.mp h]
        exact hp _ (Nat.mod_lt _ (by omega))

theorem forall_mem_fmtNat {base : Nat} (hb : 1 < base) (hb' : base ≤ 16) {n : Nat} :
    ∀ b ∈ fmtNat base n, isHexDigit b = true := by
  refine forall_mem_fmtNat_of hb ?_
  intro d hd
  exact isHexDigit_digitByte (by omega)

/-- A formatted number is made of digits and at most a minus sign. -/
theorem not_mem_fmtInt {base : Nat} (hb : 1 < base) (hb' : base ≤ 16) {b : UInt8}
    (hdigit : isHexDigit b = false) (hminus : b ≠ 45) (i : Int) : b ∉ fmtInt base i := by
  have hnat : ∀ n, b ∉ fmtNat base n := by
    intro n h
    rw [forall_mem_fmtNat hb hb' b h] at hdigit
    exact absurd hdigit (by decide)
  unfold fmtInt
  split
  · simp only [List.mem_cons, not_or]
    exact ⟨hminus, hnat _⟩
  · exact hnat _

/-! A printed number is one word of one line. -/

@[simp] theorem lf_not_mem_dec (i : Int) : (10 : UInt8) ∉ fmtInt 10 i :=
  not_mem_fmtInt (by decide) (by decide) (by decide) (by decide) i

@[simp] theorem cr_not_mem_dec (i : Int) : (13 : UInt8) ∉ fmtInt 10 i :=
  not_mem_fmtInt (by decide) (by decide) (by decide) (by decide) i

@[simp] theorem lf_not_mem_hex (i : Int) : (10 : UInt8) ∉ fmtInt 16 i :=
  not_mem_fmtInt (by decide) (by decide) (by decide) (by decide) i

@[simp] theorem cr_not_mem_hex (i : Int) : (13 : UInt8) ∉ fmtInt 16 i :=
  not_mem_fmtInt (by decide) (by decide) (by decide) (by decide) i

@[simp] theorem colon_not_mem_hex (i : Int) : (58 : UInt8) ∉ fmtInt 16 i :=
  not_mem_fmtInt (by decide) (by decide) (by decide) (by decide) i

/-- A text of hexadecimal digits carries no sign. -/
theorem parseInt_of_digits {base : Nat} {s : Bytes} (h : ∀ b ∈ s, isHexDigit b = true) :
    parseInt base s = clampInt false (parseUint base s) := by
  unfold parseInt
  split
  · exact absurd (h 45 (by simp)) (by decide)
  · exact absurd (h 43 (by simp)) (by decide)
  · rfl

theorem clampInt_false_nonneg (r : Nat × Option NumErr) : 0 ≤ (clampInt false r).1 := by
  unfold clampInt
  split
  · simp
  · simp only [Bool.false_eq_true, if_false]
    split <;> simp

theorem clampInt_lt (neg : Bool) (r : Nat × Option NumErr) : (clampInt neg r).1 < 2 ^ 63 := by
  unfold clampInt
  split
  · simp
  · cases neg <;> simp <;> split <;> simp <;> omega

/-! ## The number of a text -/

/-- The number a text of digits stands for, behind digits worth `n`. -/
def digitsFrom (base : Nat) (s : Bytes) (n : Nat) : Nat :=
  s.foldl (fun v b => v * base + (digitVal b).getD 0) n

theorem le_digitsFrom {base : Nat} (hb : 0 < base) (s : Bytes) (n : Nat) :
    n ≤ digitsFrom base s n := by
  induction s generalizing n with
  | nil => exact Nat.le_refl n
  | cons b rest ih =>
      calc n ≤ n * base := Nat.le_mul_of_pos_right n hb
        _ ≤ n * base + (digitVal b).getD 0 := Nat.le_add_right _ _
        _ ≤ digitsFrom base rest (n * base + (digitVal b).getD 0) := ih _

/-- The digit loop succeeds on exactly the texts of digits whose number fits. -/
theorem parseUintFrom_eq_iff {base : Nat} (hb : 0 < base) (s : Bytes) {n v : Nat}
    (hn : n < 2 ^ 64) :
    parseUintFrom base s n = (v, none) ↔
      (∀ b ∈ s, ∃ d < base, digitVal b = some d) ∧ v < 2 ^ 64 ∧ v = digitsFrom base s n := by
  induction s generalizing n with
  | nil =>
      show (n, none) = (v, none) ↔ _
      constructor
      · intro h
        cases h
        exact ⟨by simp, hn, rfl⟩
      · rintro ⟨-, -, rfl⟩
        rfl
  | cons b rest ih =>
      rw [parseUintFrom]
      cases hd : digitVal b with
      | none => simp [hd]
      | some d =>
          have hfold : digitsFrom base (b :: rest) n = digitsFrom base rest (n * base + d) := by
            rw [digitsFrom, List.foldl_cons, hd]
            rfl
          by_cases hlt : base ≤ d
          · simp [hd, hlt]
          · by_cases hover : 2 ^ 64 ≤ n * base + d
            · -- a number that overflows here cannot come down again
              have hle := le_digitsFrom hb rest (n * base + d)
              dsimp only
              rw [if_neg hlt, if_pos hover, hfold]
              constructor
              · intro h
                cases h
              · rintro ⟨-, hv, rfl⟩
                omega
            · dsimp only
              rw [if_neg hlt, if_neg hover, ih (by omega), hfold, List.forall_mem_cons, hd]
              simp only [Option.some.injEq, exists_eq_right', Nat.not_le.mp hlt, true_and]

theorem parseUint_eq_iff {base : Nat} (hb : 0 < base) (s : Bytes) (v : Nat) :
    parseUint base s = (v, none) ↔
      s ≠ [] ∧ (∀ b ∈ s, ∃ d < base, digitVal b = some d) ∧ v < 2 ^ 64 ∧
        v = digitsFrom base s 0 := by
  rw [parseUint]
  by_cases hs : s = []
  · simp [hs]
  · rw [if_neg hs, parseUintFrom_eq_iff hb s (by decide)]
    simp [hs]

/-- Every hexadecimal text below the limit of `int64` is read as its number. -/
theorem parseInt_hex {s : Bytes} (hs : s ≠ []) (h : ∀ b ∈ s, isHexDigit b = true)
    (hv : digitsFrom 16 s 0 < 2 ^ 63) : parseInt 16 s = ((digitsFrom 16 s 0 : Int), none) := by
  have huint : parseUint 16 s = (digitsFrom 16 s 0, none) :=
    (parseUint_eq_iff (by decide) s _).mpr ⟨hs, fun b hb => exists_digitVal (h b hb), by omega, rfl⟩
  rw [parseInt_of_digits h, huint]
  simp only [clampInt, Bool.false_eq_true, if_false]
  rw [if_neg (by omega)]

/-- On digits the loop fails only where the number does not fit. -/
theorem parseUintFrom_of_digits {base : Nat} {s : Bytes}
    (h : ∀ b ∈ s, ∃ d < base, digitVal b = some d) : ∀ n, 2 ^ 64 ≤ digitsFrom base s n → n < 2 ^ 64 →
    parseUintFrom base s n = (2 ^ 64 - 1, some .range) := by
  induction s with
  | nil =>
      intro n hover hn
      exact absurd hn (Nat.not_lt.mpr hover)
  | cons b rest ih =>
      intro n hover hn
      obtain ⟨⟨d, hd, hval⟩, hrest⟩ := List.forall_mem_cons.mp h
      have hfold : digitsFrom base (b :: rest) n = digitsFrom base rest (n * base + d) := by
        rw [digitsFrom, List.foldl_cons, hval]
        rfl
      rw [hfold] at hover
      rw [parseUintFrom, hval]
      dsimp only
      rw [if_neg (Nat.not_le.mpr hd)]
      split_ifs with hnext
      · rfl
      · exact ih hrest _ hover (Nat.lt_of_not_le hnext)

/-- Every hexadecimal text is read as its number, or as the largest `int64`. -/
theorem parseInt_hex_toNat {s : Bytes} (hs : s ≠ []) (h : ∀ b ∈ s, isHexDigit b = true) :
    (parseInt 16 s).1.toNat = min (digitsFrom 16 s 0) (2 ^ 63 - 1) := by
  by_cases hv : digitsFrom 16 s 0 < 2 ^ 63
  · rw [parseInt_hex hs h hv]
    show ((digitsFrom 16 s 0 : Int)).toNat = _
    omega
  · have hdigits : ∀ b ∈ s, ∃ d < 16, digitVal b = some d := fun b hb => exists_digitVal (h b hb)
    have hbig : ∃ v e, parseUint 16 s = (v, e) ∧ 2 ^ 63 ≤ v ∧ e ≠ some .invalid := by
      by_cases hfits : digitsFrom 16 s 0 < 2 ^ 64
      · exact ⟨_, none, (parseUint_eq_iff (by decide) s _).mpr ⟨hs, hdigits, hfits, rfl⟩,
          Nat.le_of_not_lt hv, nofun⟩
      · refine ⟨2 ^ 64 - 1, some .range, ?_, by decide, nofun⟩
        rw [parseUint, if_neg hs]
        exact parseUintFrom_of_digits hdigits 0 (Nat.le_of_not_lt hfits) (by decide)
    obtain ⟨v, e, huint, hlarge, he⟩ := hbig
    have hclamp : clampInt false (v, e) = (2 ^ 63 - 1, some .range) := by
      unfold clampInt
      split
      · rename_i heq
        exact absurd (Prod.mk.inj heq).2 he
      · rename_i heq
        obtain ⟨rfl, -⟩ := Prod.mk.inj heq
        simp only [Bool.false_eq_true, if_false]
        rw [if_pos hlarge]
    rw [parseInt_of_digits h, huint, hclamp]
    omega

/-- A printed number stands for itself, however large it is. -/
theorem digitsFrom_fmtNat {base : Nat} (hb : 1 < base) (hb' : base ≤ 16) (n : Nat) :
    digitsFrom base (fmtNat base n) 0 = n := by
  induction n using Nat.strong_induction_on with
  | _ n ih =>
      have hmod : n % base < base := Nat.mod_lt _ (by omega)
      rw [fmtNat_eq hb, digitsFrom, List.foldl_append, List.foldl_cons, List.foldl_nil,
        digitVal_digitByte (show n % base < 16 by omega), Option.getD_some]
      by_cases hlt : n < base
      · rw [if_pos hlt, List.foldl_nil, Nat.zero_mul, Nat.zero_add, Nat.mod_eq_of_lt hlt]
      · have hdiv : n / base < n := Nat.div_lt_self (by omega) hb
        rw [if_neg hlt, ← digitsFrom, ih _ hdiv, Nat.mul_comm, Nat.div_add_mod]

theorem fmtNat_injective {base : Nat} (hb : 1 < base) (hb' : base ≤ 16) :
    Function.Injective (fmtNat base) := by
  intro m n h
  rw [← digitsFrom_fmtNat hb hb' m, h, digitsFrom_fmtNat hb hb' n]

theorem parseUint_fmtNat {base : Nat} (hb : 1 < base) (hb' : base ≤ 16) {n : Nat}
    (hn : n < 2 ^ 64) : parseUint base (fmtNat base n) = (n, none) := by
  have hdigits : ∀ b ∈ fmtNat base n, (digitVal b).any (· < base) = true := by
    refine forall_mem_fmtNat_of hb ?_
    intro d hd
    rw [digitVal_digitByte (by omega)]
    exact decide_eq_true hd
  refine (parseUint_eq_iff (by omega) _ n).mpr ⟨fmtNat_ne_nil _ _, ?_, hn, ?_⟩
  · intro b hb
    obtain ⟨d, hd, hlt⟩ := (Option.any_eq_true _ _).mp (hdigits b hb)
    exact ⟨d, of_decide_eq_true hlt, hd⟩
  · exact (digitsFrom_fmtNat hb hb' n).symm

theorem parseInt_fmtNat {base : Nat} (hb : 1 < base) (hb' : base ≤ 16) {n : Nat}
    (hn : n < 2 ^ 63) : parseInt base (fmtNat base n) = ((n : Int), none) := by
  rw [parseInt_of_digits (forall_mem_fmtNat hb hb'), parseUint_fmtNat hb hb' (by omega)]
  simp only [clampInt, Bool.false_eq_true, if_false]
  rw [if_neg (by omega)]

/-- Reading back what `%x` or `%d` wrote gives the integer, for every `int64`. -/
theorem parseInt_fmtInt {base : Nat} (hb : 1 < base) (hb' : base ≤ 16) {i : Int}
    (lo : -2 ^ 63 ≤ i) (hi : i < 2 ^ 63) : parseInt base (fmtInt base i) = (i, none) := by
  unfold fmtInt
  split
  · simp only [parseInt, parseUint_fmtNat hb hb' (show i.natAbs < 2 ^ 64 by omega), clampInt,
      if_true]
    rw [if_neg (by omega)]
    congr 1
    omega
  · rw [parseInt_fmtNat hb hb' (by omega)]
    congr 1
    omega

/-- `s` is hexadecimal text, possibly with a minus sign, for an integer of 64 bits. -/
def HexInt (s : Bytes) (i : Int) : Prop :=
  -2 ^ 63 ≤ i ∧ i < 2 ^ 63 ∧ ∃ digits : Bytes, digits ≠ [] ∧
    (∀ b ∈ digits, isHexDigit b = true) ∧
    (s = digits ∧ i = digitsFrom 16 digits 0 ∨ s = 45 :: digits ∧ i = -(digitsFrom 16 digits 0 : Int))

theorem parseInt_of_hexInt {s : Bytes} {i : Int} (h : HexInt s i) : parseInt 16 s = (i, none) := by
  obtain ⟨hlo, hhi, digits, hne, hdigits, ⟨rfl, rfl⟩ | ⟨rfl, rfl⟩⟩ := h
  · exact parseInt_hex hne hdigits (by omega)
  · have huint : parseUint 16 digits = (digitsFrom 16 digits 0, none) :=
      (parseUint_eq_iff (by decide) digits _).mpr
        ⟨hne, fun b hb => exists_digitVal (hdigits b hb), by omega, rfl⟩
    simp only [parseInt, huint, clampInt, if_true]
    rw [if_neg (by omega)]

end QconnMcp.Kit
