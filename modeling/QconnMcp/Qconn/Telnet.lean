import QconnMcp.Qconn.Framing

/-!
# Reading through the telnet filter

`readByte` skips telnet sequences in front of the next data byte. `Pulls` is
that filter as a relation between raw input and delivered data: it composes
along the data, it does not look past what it consumed (`Pulls.append`), and it
is the identity on text without `IAC`. Every text read of the connection is
specified with it.
-/

namespace QconnMcp.Qconn
open Kit

/-! ## What one telnet sequence consumes -/

theorem skipSb_split : ∀ {u v : Bytes}, skipSb u = some v → ∃ b a, u = b :: a ++ v
  | [], _, h => by simp [skipSb] at h
  | [_], _, h => by simp [skipSb] at h
  | b :: n :: rest, v, h => by
      unfold skipSb at h
      split at h
      · split at h
        · injection h with h
          exact ⟨b, [n], by rw [h]; rfl⟩
        · obtain ⟨c, a, ha⟩ := skipSb_split h
          exact ⟨b, n :: c :: a, by rw [ha]; rfl⟩
      · obtain ⟨c, a, ha⟩ := skipSb_split h
        exact ⟨b, c :: a, by rw [ha]; rfl⟩

/-- A telnet command takes at least one byte off the front. -/
theorem handleIac_split {u v r : Bytes} (h : handleIac u = some (v, r)) :
    ∃ b a, u = b :: a ++ v := by
  unfold handleIac at h
  split at h
  · simp at h
  · rename_i cmd rest
    split at h
    · simp only [Option.some.injEq, Prod.mk.injEq] at h
      exact ⟨cmd, [], by rw [h.1]; rfl⟩
    · split at h
      · split at h
        · simp at h
        · rename_i opt rest
          simp only [Option.some.injEq, Prod.mk.injEq] at h
          exact ⟨cmd, [opt], by rw [h.1]; rfl⟩
      · split at h
        · obtain ⟨w, hw, he⟩ := Option.map_eq_some_iff.mp h
          obtain ⟨b, a, ha⟩ := skipSb_split hw
          simp only [Prod.mk.injEq] at he
          exact ⟨cmd, b :: a, by rw [ha, he.1]; rfl⟩
        · simp only [Option.some.injEq, Prod.mk.injEq] at h
          exact ⟨cmd, [], by rw [h.1]; rfl⟩

theorem handleIac_length {u v r : Bytes} (h : handleIac u = some (v, r)) :
    v.length < u.length := by
  obtain ⟨b, a, rfl⟩ := handleIac_split h
  simp only [List.cons_append, List.length_cons, List.length_append]
  omega

theorem readByteFrom_congr : ∀ (n m : Nat) (u : Bytes), u.length ≤ n → u.length ≤ m →
    readByteFrom n u = readByteFrom m u
  | n, m, [], _, _ => by cases n <;> cases m <;> rfl
  | 0, _, _ :: _, h, _ => by simp at h
  | _ + 1, 0, _ :: _, _, h => by simp at h
  | n + 1, m + 1, b :: rest, hn, hm => by
      simp only [List.length_cons, Nat.add_le_add_iff_right] at hn hm
      unfold readByteFrom
      split
      · cases hi : handleIac rest with
        | none => rfl
        | some vr =>
            obtain ⟨v, r⟩ := vr
            have hv := handleIac_length hi
            simp only [readByteFrom_congr n m v (by omega) (by omega)]
      · rfl

/-- One pull on the telnet filter. -/
def pull (u : Bytes) : Option UInt8 × Bytes × Bytes := readByteFrom u.length u

theorem pull_nil : pull [] = (none, [], []) := rfl

theorem pull_data {b : UInt8} (hb : b ≠ iac) (u : Bytes) : pull (b :: u) = (some b, u, []) := by
  simp [pull, readByteFrom, hb]

theorem pull_iac (u : Bytes) :
    pull (iac :: u) = match handleIac u with
      | none => (none, [], [])
      | some (v, r) => ((pull v).1, (pull v).2.1, r ++ (pull v).2.2) := by
  unfold pull
  rw [List.length_cons, readByteFrom, if_pos rfl]
  cases hi : handleIac u with
  | none => rfl
  | some vr =>
      obtain ⟨v, r⟩ := vr
      have hv := handleIac_length hi
      simp only [readByteFrom_congr u.length v.length v (by omega) (by omega)]

/-- Induction along the telnet sequences in front of the next data byte. -/
theorem pull_induct {motive : Bytes → Prop} (nil : motive [])
    (data : ∀ b u, b ≠ iac → motive (b :: u))
    (cut : ∀ u, handleIac u = none → motive (iac :: u))
    (seq : ∀ u v r, handleIac u = some (v, r) → motive v → motive (iac :: u)) :
    ∀ u, motive u := by
  intro u
  induction h : u.length using Nat.strong_induction_on generalizing u with
  | _ n ih =>
      cases u with
      | nil => exact nil
      | cons b u =>
          by_cases hb : b = iac
          · subst hb
            cases hi : handleIac u with
            | none => exact cut u hi
            | some vr =>
                obtain ⟨v, r⟩ := vr
                have hv := handleIac_length hi
                exact seq u v r hi (ih v.length (by simp at h; omega) v rfl)
          · exact data b u hb

/-- A pull that delivers a byte takes at least that byte off the front. -/
theorem pull_split {u v r : Bytes} {b : UInt8} (h : pull u = (some b, v, r)) :
    ∃ c a, u = c :: a ++ v := by
  induction u using pull_induct generalizing v r with
  | nil => simp [pull_nil] at h
  | data c u hc =>
      rw [pull_data hc] at h
      simp only [Prod.mk.injEq] at h
      exact ⟨c, [], by rw [h.2.1]; rfl⟩
  | cut u hi => simp [pull_iac, hi] at h
  | seq u w r' hi ih =>
      rw [pull_iac, hi] at h
      simp only [Prod.mk.injEq] at h
      have hw : pull w = (some b, v, (pull w).2.2) := by rw [← h.1, ← h.2.1]
      obtain ⟨c, a, ha⟩ := ih hw
      obtain ⟨c', a', ha'⟩ := handleIac_split hi
      exact ⟨iac, c' :: a' ++ c :: a, by rw [ha', ha]; simp⟩

theorem pull_length {u v r : Bytes} {b : UInt8} (h : pull u = (some b, v, r)) :
    v.length < u.length := by
  obtain ⟨c, a, rfl⟩ := pull_split h
  simp only [List.cons_append, List.length_cons, List.length_append]
  omega

theorem pull_none {u v r : Bytes} (h : pull u = (none, v, r)) : v = [] := by
  induction u using pull_induct generalizing v r with
  | nil => simp only [pull_nil, Prod.mk.injEq] at h; exact h.2.1.symm
  | data c u hc => simp [pull_data hc] at h
  | cut u hi => simp only [pull_iac, hi, Prod.mk.injEq] at h; exact h.2.1.symm
  | seq u w r' hi ih =>
      rw [pull_iac, hi] at h
      simp only [Prod.mk.injEq] at h
      exact ih (r := (pull w).2.2) (by rw [← h.1, ← h.2.1])

theorem skipSb_append : ∀ {u v : Bytes}, skipSb u = some v → ∀ x, skipSb (u ++ x) = some (v ++ x)
  | [], _, h, _ => by simp [skipSb] at h
  | [_], _, h, _ => by simp [skipSb] at h
  | b :: n :: rest, v, h, x => by
      unfold skipSb at h
      show skipSb (b :: n :: (rest ++ x)) = some (v ++ x)
      unfold skipSb
      split at h
      · rename_i hb
        rw [if_pos hb]
        split at h
        · rename_i hn
          injection h with h
          rw [if_pos hn, h]
        · rename_i hn
          rw [if_neg hn]
          exact skipSb_append h x
      · rename_i hb
        rw [if_neg hb]
        exact skipSb_append h x

/-- A complete telnet sequence is read the same way whatever follows it. -/
theorem handleIac_append {u v r : Bytes} (h : handleIac u = some (v, r)) (x : Bytes) :
    handleIac (u ++ x) = some (v ++ x, r) := by
  cases u with
  | nil => simp [handleIac] at h
  | cons cmd rest =>
      simp only [handleIac, List.cons_append] at h ⊢
      split at h
      · rename_i hc
        simp only [Option.some.injEq, Prod.mk.injEq] at h
        simp [hc, h.1, h.2]
      · rename_i hc
        rw [if_neg hc]
        split at h
        · rename_i hopt
          rw [if_pos hopt]
          cases rest with
          | nil => simp at h
          | cons opt rest =>
              simp only [Option.some.injEq, Prod.mk.injEq] at h
              simp [h.1, h.2]
        · rename_i hopt
          rw [if_neg hopt]
          split at h
          · rename_i hsb
            obtain ⟨w, hw, he⟩ := Option.map_eq_some_iff.mp h
            simp only [Prod.mk.injEq] at he
            simp [hsb, skipSb_append hw x, he.1, he.2]
          · rename_i hsb
            simp only [Option.some.injEq, Prod.mk.injEq] at h
            simp [hsb, h.1, h.2]

theorem pull_append {u v r : Bytes} {b : UInt8} (h : pull u = (some b, v, r)) (x : Bytes) :
    pull (u ++ x) = (some b, v ++ x, r) := by
  induction u using pull_induct generalizing v r with
  | nil => simp [pull_nil] at h
  | data c u hc =>
      rw [pull_data hc] at h
      simp only [Prod.mk.injEq] at h
      rw [List.cons_append, pull_data hc, h.1, h.2.1, h.2.2]
  | cut u hi => simp [pull_iac, hi] at h
  | seq u w r' hi ih =>
      rw [pull_iac, hi] at h
      simp only [Prod.mk.injEq] at h
      have hw : pull w = (some b, v, (pull w).2.2) := by rw [← h.1, ← h.2.1]
      rw [List.cons_append, pull_iac, handleIac_append hi x]
      simp only [ih hw, ← h.2.2]

/-- `Pulls u d v r`: reading byte by byte through the filter takes the raw input
`u` to `v`, delivers the data `d` and answers `r`. -/
inductive Pulls : Bytes → Bytes → Bytes → Bytes → Prop
  | nil (u : Bytes) : Pulls u [] u []
  | cons {u v w d r r' : Bytes} {b : UInt8} :
      pull u = (some b, v, r) → Pulls v d w r' → Pulls u (b :: d) w (r ++ r')

namespace Pulls

variable {u v w d d' r r' : Bytes}

theorem append (h : Pulls u d v r) (x : Bytes) : Pulls (u ++ x) d (v ++ x) r := by
  induction h with
  | nil u => exact .nil _
  | cons hp _ ih => exact .cons (pull_append hp x) ih

theorem trans (h : Pulls u d v r) (h' : Pulls v d' w r') : Pulls u (d ++ d') w (r ++ r') := by
  induction h with
  | nil u => exact h'
  | cons hp _ ih =>
      rw [List.append_assoc]
      exact .cons hp (ih h')

/-- Text without `IAC` is delivered as it is. -/
theorem of_clean (h : iac ∉ d) (x : Bytes) : Pulls (d ++ x) d x [] := by
  induction d with
  | nil => exact .nil x
  | cons b d ih =>
      simp only [List.mem_cons, not_or] at h
      exact .cons (r := []) (pull_data (Ne.symm h.1) _) (ih h.2)

theorem split (h : Pulls u (d ++ d') w r) :
    ∃ v r₁ r₂, Pulls u d v r₁ ∧ Pulls v d' w r₂ ∧ r = r₁ ++ r₂ := by
  induction d generalizing u r with
  | nil => exact ⟨u, [], r, .nil u, h, rfl⟩
  | cons b d ih =>
      cases h with
      | cons hp ht =>
          obtain ⟨v, r₁, r₂, h₁, h₂, he⟩ := ih ht
          exact ⟨v, _, r₂, .cons hp h₁, h₂, by rw [he, List.append_assoc]⟩

theorem length_le (h : Pulls u d v r) : d.length + v.length ≤ u.length := by
  induction h with
  | nil u => simp
  | cons hp _ ih =>
      have := pull_length hp
      simp only [List.length_cons]
      omega

theorem suffix (h : Pulls u d v r) : v <:+ u := by
  induction h with
  | nil u => exact List.suffix_refl u
  | cons hp _ ih =>
      obtain ⟨c, a, ha⟩ := pull_split hp
      exact ih.trans ⟨c :: a, ha.symm⟩

theorem unique (h : Pulls u d v r) (h' : Pulls u d w r') : v = w ∧ r = r' := by
  induction h generalizing w r' with
  | nil u =>
      cases h'
      exact ⟨rfl, rfl⟩
  | cons hp _ ih =>
      cases h' with
      | cons hp' ht =>
          rw [hp] at hp'
          simp only [Prod.mk.injEq] at hp'
          obtain ⟨-, hv, hr⟩ := hp'
          subst hv hr
          obtain ⟨hvw, hrr⟩ := ih ht
          exact ⟨hvw, by rw [hrr]⟩

/-- Once the input is dry, the data read is all there is. -/
theorem prefix_of_dry {e s s' : Bytes} (h : Pulls u d v r) (hdry : pull v = (none, [], s'))
    (h' : Pulls u e w s) : e <+: d := by
  induction h generalizing e s with
  | nil u =>
      cases h' with
      | nil => exact List.prefix_refl []
      | cons hp _ => simp [hdry] at hp
  | cons hp _ ih =>
      cases h' with
      | nil => exact List.nil_prefix
      | cons hp' ht =>
          rw [hp] at hp'
          simp only [Prod.mk.injEq, Option.some.injEq] at hp'
          obtain ⟨hb, hv, -⟩ := hp'
          subst hb hv
          exact (List.prefix_cons_inj _).mpr (ih hdry ht)

end Pulls

/-- Every input is data up to a point and then holds none any more. -/
theorem exists_pulls_all (u : Bytes) :
    ∃ d v r r', Pulls u d v r ∧ pull v = (none, [], r') := by
  induction h : u.length using Nat.strong_induction_on generalizing u with
  | _ n ih =>
      rcases hp : pull u with ⟨o, v, r⟩
      cases o with
      | none =>
          have := pull_none hp
          subst this
          exact ⟨[], u, [], r, .nil u, hp⟩
      | some b =>
          have hv := pull_length hp
          obtain ⟨d, w, s, s', h₁, h₂⟩ := ih v.length (by omega) v rfl
          exact ⟨b :: d, w, r ++ s, s', .cons hp h₁, h₂⟩

end QconnMcp.Qconn
