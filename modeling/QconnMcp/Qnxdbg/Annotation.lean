import QconnMcp.Qnxdbg.Layout

/-!
# Annotations are lossless

`Annotate` turns the payload of a frame into a line for a person to read. The line
also holds every byte of the payload: the name of the code is unlike that of any
other code, the three header bytes follow as decimals, and what comes behind the last
`=` is the body in hexadecimal. So two frames with one annotation are one frame
(`annotate_inj`).
-/

namespace QconnMcp.Qnxdbg

open Kit

/-! ## Hexadecimal text -/

theorem hexBytes_cons (x : UInt8) (b : Bytes) :
    hexBytes (x :: b) = digitByte (x.toNat / 16) :: digitByte (x.toNat % 16) :: hexBytes b := rfl

theorem digitByte_inj {m n : Nat} (hm : m < 16) (hn : n < 16) (h : digitByte m = digitByte n) :
    m = n := by
  have hval := digitVal_digitByte hm
  rw [h, digitVal_digitByte hn] at hval
  exact (Option.some.inj hval).symm

theorem hexBytes_inj {b c : Bytes} (h : hexBytes b = hexBytes c) : b = c := by
  induction b generalizing c with
  | nil =>
      cases c with
      | nil => rfl
      | cons y c => simp [hexBytes] at h
  | cons x b ih =>
      cases c with
      | nil => simp [hexBytes] at h
      | cons y c =>
          have hx := x.toNat_lt
          have hy := y.toNat_lt
          rw [hexBytes_cons, hexBytes_cons, List.cons.injEq, List.cons.injEq] at h
          have hhi := digitByte_inj (by omega) (by omega) h.1
          have hlo := digitByte_inj (by omega) (by omega) h.2.1
          have hxy : x = y := UInt8.toNat_inj.mp (by omega)
          rw [hxy, ih h.2.2]

theorem isHexDigit_hexBytes {b : Bytes} : ∀ x ∈ hexBytes b, isHexDigit x = true := by
  intro x hx
  obtain ⟨y, -, hx⟩ := List.mem_flatMap.mp hx
  have hy := y.toNat_lt
  simp only [List.mem_cons, List.not_mem_nil, or_false] at hx
  rcases hx with rfl | rfl
  · exact isHexDigit_digitByte (by omega)
  · exact isHexDigit_digitByte (by omega)

theorem not_mem_hexBytes {c : UInt8} (hc : isHexDigit c = false) (b : Bytes) : c ∉ hexBytes b := by
  intro hmem
  rw [isHexDigit_hexBytes c hmem] at hc
  cases hc

/-! ## Names -/

/-- The name that a line starts with. -/
def codeName (code : UInt8) : Bytes :=
  if 0x20 ≤ code then
    ascii "<-" ++ (respNames.lookup code).getD (ascii "resp?0x" ++ hexBytes [code])
  else ascii "->" ++ cmdName code

/-- The codes that have a name of their own. -/
def named : List (UInt8 × Bytes) :=
  respNames.map (Prod.map id (ascii "<-" ++ ·)) ++ cmdNames.map (Prod.map id (ascii "->" ++ ·))

/-- What stands before the digits of a code that has none. -/
def unnamed (code : UInt8) : Bytes :=
  if 0x20 ≤ code then ascii "<-resp?0x" else ascii "->cmd?0x"

theorem codeName_cases (code : UInt8) :
    (code, codeName code) ∈ named ∨ codeName code = unnamed code ++ hexBytes [code] := by
  rw [codeName, unnamed]
  split
  · cases h : respNames.lookup code with
    | none => exact .inr rfl
    | some name =>
        obtain ⟨l, r, hsplit, -⟩ := List.lookup_eq_some_iff.mp h
        have hmem : (code, name) ∈ respNames := by rw [hsplit]; simp
        exact .inl (List.mem_append_left _ (List.mem_map.mpr ⟨_, hmem, rfl⟩))
  · rw [cmdName]
    cases h : cmdNames.lookup code with
    | none => exact .inr rfl
    | some name =>
        obtain ⟨l, r, hsplit, -⟩ := List.lookup_eq_some_iff.mp h
        have hmem : (code, name) ∈ cmdNames := by rw [hsplit]; simp
        exact .inl (List.mem_append_right _ (List.mem_map.mpr ⟨_, hmem, rfl⟩))

/-- No name has a character that the tables and the digits do not have. -/
theorem not_mem_codeName {c : UInt8} (hc : isHexDigit c = false)
    (htexts : c ∉ ascii "<-resp?0x" ∧ c ∉ ascii "->cmd?0x") (hnamed : ∀ e ∈ named, c ∉ e.2)
    (code : UInt8) : c ∉ codeName code := by
  rcases codeName_cases code with h | h
  · exact hnamed _ h
  · rw [h, List.mem_append, unnamed]
    split
    · exact fun hmem => hmem.elim htexts.1 (not_mem_hexBytes hc _)
    · exact fun hmem => hmem.elim htexts.2 (not_mem_hexBytes hc _)

theorem codeName_inj {a b : UInt8} (h : codeName a = codeName b) : a = b := by
  have hdistinct : ∀ e ∈ named, ∀ f ∈ named, e.2 = f.2 → e.1 = f.1 := by decide +kernel
  -- a question mark stands only before digits
  have hplain : ∀ e ∈ named, 63 ∉ e.2 := by decide +kernel
  have hmark : ∀ code, 63 ∈ unnamed code ++ hexBytes [code] := by
    intro code
    rw [unnamed]
    split
    · exact List.mem_append_left _ (by decide)
    · exact List.mem_append_left _ (by decide)
  rcases codeName_cases a with ha | ha <;> rcases codeName_cases b with hb | hb
  · exact hdistinct _ ha _ hb h
  · exact absurd (hmark b) (hb ▸ h ▸ hplain _ ha)
  · exact absurd (hmark a) (ha ▸ h ▸ hplain _ hb)
  · rw [ha, hb, unnamed, unnamed] at h
    have hends : hexBytes [a] = hexBytes [b] := (List.append_inj' h rfl).2
    exact List.head_eq_of_cons_eq (hexBytes_inj hends)

/-! ## Lines -/

/-- What stands behind the header in a line. -/
def details (code : UInt8) (body : Bytes) : Bytes :=
  (if decodeBody code (decide (0x20 ≤ code)) body ≠ [] then
    ascii "  " ++ decodeBody code (decide (0x20 ≤ code)) body else []) ++
    (if body ≠ [] then ascii "  body=" ++ hexBytes body else [])

/-- The parts of a line, each up to the next blank. -/
theorem annotate_eq (code sub mid ch : UInt8) (body : Bytes) :
    annotate (code :: sub :: mid :: ch :: body) =
      codeName code ++ 32 :: (ascii "sub=" ++ (fmtNat 10 sub.toNat ++ 32 :: (ascii "mid=" ++
        (fmtNat 10 mid.toNat ++ 32 :: (ascii "ch=" ++ (fmtNat 10 ch.toNat ++
          details code body)))))) := by
  have hname : codeName code =
      if decide (0x20 ≤ code) = true then
        ascii "<-" ++ (respNames.lookup code).getD (ascii "resp?0x" ++ hexBytes [code])
      else ascii "->" ++ cmdName code := by
    simp only [codeName, decide_eq_true_eq]
  have hsub : ascii " sub=" = 32 :: ascii "sub=" := rfl
  have hmid : ascii " mid=" = 32 :: ascii "mid=" := rfl
  have hch : ascii " ch=" = 32 :: ascii "ch=" := rfl
  simp only [annotate, details, hname, hsub, hmid, hch, List.append_assoc, List.cons_append]

theorem not_mem_fmtNat_ten {c : UInt8} (hc : isHexDigit c = false) (n : Nat) : c ∉ fmtNat 10 n := by
  intro hmem
  rw [forall_mem_fmtNat (by decide) (by decide) c hmem] at hc
  cases hc

theorem details_head (code : UInt8) (body : Bytes) :
    details code body = [] ∨ ∃ rest, details code body = 32 :: rest := by
  have hgap : ascii "  " = [32, 32] := rfl
  have hlabel : ascii "  body=" = 32 :: ascii " body=" := rfl
  rw [details, hgap, hlabel]
  split
  · exact .inr ⟨_, rfl⟩
  · split
    · exact .inr ⟨_, rfl⟩
    · exact .inl rfl

/-- Two decimals before a blank or the end. -/
theorem fmtNat_details_inj {m n : Nat} {a b : UInt8} {x y : Bytes}
    (h : fmtNat 10 m ++ details a x = fmtNat 10 n ++ details b y) :
    m = n ∧ details a x = details b y := by
  have hlead : ∀ (k : Nat) (c : UInt8) (z : Bytes), before 32 (fmtNat 10 k ++ details c z) = fmtNat 10 k := by
    intro k c z
    rcases details_head c z with hz | ⟨rest, hz⟩
    · rw [before, hz, List.append_nil]
      exact List.takeWhile_eq_self_iff.mpr fun x hx =>
        forall_bne (not_mem_fmtNat_ten (by decide) k) x hx
    · rw [hz]
      exact before_append (not_mem_fmtNat_ten (by decide) k) rest
  have hmn := congrArg (before 32) h
  rw [hlead, hlead] at hmn
  rw [hmn] at h
  exact ⟨fmtNat_injective (by decide) (by decide) hmn, List.append_cancel_left h⟩

/-- An empty body leaves no `=` behind the header. -/
theorem not_mem_details_nil (code : UInt8) : 61 ∉ details code [] := by
  by_cases hbrk : code = cmdBrk
  · rw [hbrk]
    decide
  · have hdecode : decodeBody code (decide (0x20 ≤ code)) [] = [] := by
      simp [decodeBody, hbrk]
    simp [details, hdecode]

/-- The body is what stands behind the last `=`. -/
theorem details_inj {code : UInt8} {x y : Bytes} (h : details code x = details code y) : x = y := by
  have hlabel : ascii "  body=" = ascii "  body" ++ [61] := rfl
  have hsplit : ∀ z : Bytes, z ≠ [] → ∃ l, details code z = l ++ 61 :: hexBytes z := by
    intro z hz
    rw [details, if_pos hz, hlabel, List.append_assoc, ← List.append_assoc]
    exact ⟨_, rfl⟩
  have hmem : ∀ z : Bytes, z ≠ [] → 61 ∈ details code z := by
    intro z hz
    obtain ⟨l, hl⟩ := hsplit z hz
    rw [hl]
    exact List.mem_append_right _ List.mem_cons_self
  by_cases hx : x = [] <;> by_cases hy : y = []
  · rw [hx, hy]
  · exact absurd (hmem y hy) (h ▸ hx ▸ not_mem_details_nil code)
  · exact absurd (hmem x hx) (h ▸ hy ▸ not_mem_details_nil code)
  · obtain ⟨l, hl⟩ := hsplit x hx
    obtain ⟨r, hr⟩ := hsplit y hy
    rw [hl, hr] at h
    exact hexBytes_inj (append_sep_inj_right (not_mem_hexBytes (by decide) x)
      (not_mem_hexBytes (by decide) y) h).2

/-- The header of a line is read back part by part. -/
theorem annotate_long_inj {a s m c a' s' m' c' : UInt8} {x y : Bytes}
    (h : annotate (a :: s :: m :: c :: x) = annotate (a' :: s' :: m' :: c' :: y)) :
    a :: s :: m :: c :: x = a' :: s' :: m' :: c' :: y := by
  have hblank : ∀ code, 32 ∉ codeName code :=
    not_mem_codeName (by decide) (by decide) (by decide +kernel)
  have hdec : ∀ n, 32 ∉ fmtNat 10 n := not_mem_fmtNat_ten (by decide)
  rw [annotate_eq, annotate_eq] at h
  obtain ⟨hname, h⟩ := append_sep_inj (hblank a) (hblank a') h
  obtain ⟨hsub, h⟩ := append_sep_inj (hdec _) (hdec _) (List.append_cancel_left h)
  obtain ⟨hmid, h⟩ := append_sep_inj (hdec _) (hdec _) (List.append_cancel_left h)
  obtain ⟨hch, h⟩ := fmtNat_details_inj (List.append_cancel_left h)
  have hfmt := fmtNat_injective (show 1 < 10 by decide) (by decide)
  have hs : s = s' := UInt8.toNat_inj.mp (hfmt hsub)
  have hm : m = m' := UInt8.toNat_inj.mp (hfmt hmid)
  have hc : c = c' := UInt8.toNat_inj.mp hch
  obtain rfl := codeName_inj hname
  rw [hs, hm, hc, details_inj h]

/-- A short payload stands behind a word that no name starts with. -/
theorem annotate_short {p : Bytes} (h : p.length < 4) :
    annotate p = ascii "control/short " ++ hexBytes p := by
  rcases p with _ | ⟨a, _ | ⟨s, _ | ⟨m, _ | ⟨c, x⟩⟩⟩⟩
  · rfl
  · rfl
  · rfl
  · rfl
  · exact absurd h (by simp)

theorem exists_of_four_le {p : Bytes} (h : 4 ≤ p.length) :
    ∃ a s m c x, p = a :: s :: m :: c :: x := by
  rcases p with _ | ⟨a, _ | ⟨s, _ | ⟨m, _ | ⟨c, x⟩⟩⟩⟩
  · exact absurd h (by decide)
  · exact absurd h (by simp)
  · exact absurd h (by simp)
  · exact absurd h (by simp)
  · exact ⟨a, s, m, c, x, rfl⟩

theorem head_annotate_long (a s m c : UInt8) (x : Bytes) :
    (annotate (a :: s :: m :: c :: x)).head? ≠ some 99 := by
  have hleft : ascii "<-" = 60 :: ascii "-" := rfl
  have hright : ascii "->" = 45 :: ascii ">" := rfl
  rw [annotate_eq, codeName]
  split
  · rw [hleft]
    simp
  · rw [hright]
    simp

theorem annotate_inj {p q : Bytes} (h : annotate p = annotate q) : p = q := by
  have hshort : ∀ r : Bytes, r.length < 4 → (annotate r).head? = some 99 := by
    intro r hr
    rw [annotate_short hr, List.head?_append]
    simp [ascii]
  rcases Nat.lt_or_ge p.length 4 with hp | hp <;> rcases Nat.lt_or_ge q.length 4 with hq | hq
  · rw [annotate_short hp, annotate_short hq] at h
    exact hexBytes_inj (List.append_cancel_left h)
  · obtain ⟨a, s, m, c, x, rfl⟩ := exists_of_four_le hq
    exact absurd (hshort p hp) (h ▸ head_annotate_long a s m c x)
  · obtain ⟨a, s, m, c, x, rfl⟩ := exists_of_four_le hp
    exact absurd (hshort q hq) (h ▸ head_annotate_long a s m c x)
  · obtain ⟨a, s, m, c, x, rfl⟩ := exists_of_four_le hp
    obtain ⟨a', s', m', c', y, rfl⟩ := exists_of_four_le hq
    exact annotate_long_inj h

end QconnMcp.Qnxdbg
