import Mathlib.Tactic

/-!
# Layers of settings

A layer gives values to some of the indices of a family. A list of layers over a
default is resolved from the top: the first layer that has a value decides.
-/

namespace QconnMcp.Kit

variable {ι : Type} {β : ι → Type}

/-- The value of the first layer that has one. -/
def resolve (d : (i : ι) → β i) : List ((i : ι) → Option (β i)) → (i : ι) → β i
  | [], i => d i
  | l :: ls, i => (l i).getD (resolve d ls i)

/-- A layer is seen where no layer above it has a value. -/
theorem resolve_above {d : (i : ι) → β i} {ls : List ((i : ι) → Option (β i))} {i : ι}
    (h : ∀ l ∈ ls, l i = none) (l : (i : ι) → Option (β i)) :
    resolve d (ls ++ [l]) i = (l i).getD (d i) := by
  induction ls with
  | nil => rfl
  | cons k ls ih =>
      rw [List.cons_append, resolve, h k List.mem_cons_self]
      exact ih fun l hl => h l (List.mem_cons_of_mem _ hl)

/-- And nowhere else. -/
theorem resolve_below {d : (i : ι) → β i} {ls : List ((i : ι) → Option (β i))} {i : ι}
    (h : ∃ l ∈ ls, l i ≠ none) (l l' : (i : ι) → Option (β i)) :
    resolve d (ls ++ [l]) i = resolve d (ls ++ [l']) i := by
  induction ls with
  | nil => exact absurd h (by simp)
  | cons k ls ih =>
      rw [List.cons_append, List.cons_append, resolve, resolve]
      cases hk : k i with
      | some v => rfl
      | none =>
          obtain ⟨m, hm, hmi⟩ := h
          refine ih ⟨m, List.mem_of_ne_of_mem ?_ hm, hmi⟩
          rintro rfl
          exact hmi hk

theorem resolve_eq_iff (d : (i : ι) → β i) (ls : List ((i : ι) → Option (β i)))
    (l l' : (i : ι) → Option (β i)) :
    resolve d (ls ++ [l]) = resolve d (ls ++ [l']) ↔
      ∀ i, (∀ k ∈ ls, k i = none) → (l i).getD (d i) = (l' i).getD (d i) := by
  refine ⟨?_, ?_⟩
  · intro h i hi
    rw [← resolve_above hi, ← resolve_above hi, h]
  · intro h
    funext i
    by_cases hi : ∀ k ∈ ls, k i = none
    · rw [resolve_above hi, resolve_above hi, h i hi]
    · push Not at hi
      exact resolve_below hi l l'

end QconnMcp.Kit
