import Mathlib.Data.List.AList
import Mathlib.Tactic

/-!
# Grouping by a key

A map from keys to groups beside the list of its keys in the order in which they
came up: the usual way to group a sequence in one pass and to keep it stable.
`collect` is that pass. The group of a key is made from the items with that key, in
their order, however they are interleaved with others (`lookup_collect`), and the
keys are listed by first appearance (`order_collect`).
-/

namespace QconnMcp.Kit

/-- The groups made so far; the order lists the keys of the map. -/
structure Groups (κ γ : Type) [DecidableEq κ] where
  entries : AList fun _ : κ => γ
  order : List κ
  mem_order : ∀ k, k ∈ order ↔ k ∈ entries

namespace Groups

variable {α κ γ : Type} [DecidableEq κ]

def empty : Groups κ γ := ⟨∅, [], fun k => by simp⟩

/-- Change the group of `k`, which starts as `new`. -/
def put (g : Groups κ γ) (k : κ) (new : γ) (change : γ → γ) : Groups κ γ where
  entries := g.entries.insert k (change ((g.entries.lookup k).getD new))
  order := if k ∈ g.entries then g.order else g.order ++ [k]
  mem_order := by
    intro k'
    rw [AList.mem_insert]
    by_cases hk : k ∈ g.entries
    · rw [if_pos hk, g.mem_order]
      constructor
      · exact .inr
      · rintro (rfl | h)
        · exact hk
        · exact h
    · rw [if_neg hk, List.mem_append, List.mem_singleton, g.mem_order, or_comm]

/-- The groups, in order. -/
def values (g : Groups κ γ) : List γ := g.order.filterMap g.entries.lookup

/-- A property that every group shares with its key is listed in order. -/
theorem map_values {β : Type} (g : Groups κ γ) (f : γ → β) (f' : κ → β)
    (h : ∀ k x, g.entries.lookup k = some x → f x = f' k) : g.values.map f = g.order.map f' := by
  have hlookup : ∀ k ∈ g.order, (g.entries.lookup k).map f = some (f' k) := by
    intro k hk
    obtain ⟨x, hx⟩ := Option.isSome_iff_exists.mp (AList.lookup_isSome.mpr ((g.mem_order k).mp hk))
    rw [hx, ← h k x hx]
    rfl
  rw [values, List.map_filterMap, List.filterMap_congr hlookup, List.filterMap_eq_map']

variable (key : α → κ) (new : α → γ) (change : α → γ → γ)

/-- One pass over the items. -/
def collect (items : List α) : Groups κ γ :=
  items.foldl (fun g a => g.put (key a) (new a) (change a)) empty

theorem collect_concat (items : List α) (a : α) :
    collect key new change (items ++ [a]) =
      (collect key new change items).put (key a) (new a) (change a) := by
  rw [collect, List.foldl_append]
  rfl

theorem mem_order_collect (items : List α) (k : κ) :
    k ∈ (collect key new change items).order ↔ k ∈ items.map key := by
  induction items using List.reverseRecOn with
  | nil => rfl
  | append_singleton items a ih =>
      rw [mem_order] at ih ⊢
      rw [collect_concat, List.map_append, List.mem_append, ← ih]
      exact (AList.mem_insert _).trans (or_comm.trans (by simp))

/-- The keys are listed by first appearance, so none is listed twice. -/
theorem order_collect (items : List α) :
    (collect key new change items).order.Pairwise fun k k' =>
      (items.map key).idxOf k < (items.map key).idxOf k' := by
  induction items using List.reverseRecOn with
  | nil => exact .nil
  | append_singleton items a ih =>
      have hmem := mem_order_collect key new change items
      have hold : (collect key new change items).order.Pairwise fun k k' =>
          ((items ++ [a]).map key).idxOf k < ((items ++ [a]).map key).idxOf k' := by
        refine ih.imp_of_mem ?_
        intro k k' hk hk' hlt
        rw [List.map_append, List.idxOf_append_of_mem ((hmem k).mp hk),
          List.idxOf_append_of_mem ((hmem k').mp hk')]
        exact hlt
      rw [collect_concat]
      show (if key a ∈ (collect key new change items).entries then _ else _ : List κ).Pairwise _
      by_cases ha : key a ∈ (collect key new change items).entries
      · rw [if_pos ha]
        exact hold
      · -- a new key appears behind all others
        rw [if_neg ha, List.pairwise_append]
        refine ⟨hold, List.pairwise_singleton _ _, ?_⟩
        intro k hk k' hk'
        have hnew : key a ∉ items.map key := fun h =>
          ha ((mem_order _ _).mp ((hmem (key a)).mpr h))
        rw [List.mem_singleton.mp hk', List.map_append, List.idxOf_append_of_mem ((hmem k).mp hk),
          List.idxOf_append_of_notMem hnew]
        exact Nat.lt_of_lt_of_le (List.idxOf_lt_length_of_mem ((hmem k).mp hk)) (Nat.le_add_right _ _)

theorem nodup_order_collect (items : List α) : (collect key new change items).order.Nodup :=
  (order_collect key new change items).imp fun h heq => by
    rw [heq] at h
    exact Nat.lt_irrefl _ h

/-- The group of a key is made from its items alone, in their order. -/
theorem lookup_collect (items : List α) (k : κ) :
    (collect key new change items).entries.lookup k =
      (items.find? (key · = k)).map fun a =>
        (items.filter (key · = k)).foldl (fun x b => change b x) (new a) := by
  induction items using List.reverseRecOn with
  | nil => rfl
  | append_singleton items a ih =>
      rw [collect_concat, List.find?_append, List.filter_append]
      show (AList.insert (key a) _ _).lookup k = _
      by_cases hk : key a = k
      · subst hk
        rw [AList.lookup_insert, ih, List.find?_cons_of_pos (by simp),
          List.filter_cons_of_pos (by simp)]
        simp only [List.foldl_append]
        cases hfirst : items.find? (key · = key a) with
        | none =>
            -- the first item with its key
            have hnone : items.filter (key · = key a) = [] := by
              rw [List.filter_eq_nil_iff]
              exact List.find?_eq_none.mp hfirst
            rw [hnone]
            rfl
        | some b => rfl
      · rw [AList.lookup_insert_ne (Ne.symm hk), ih, List.find?_cons_of_neg (by simpa using hk),
          List.filter_cons_of_neg (by simpa using hk), List.filter_nil, List.append_nil,
          List.find?_nil, Option.or_none]

/-- Every item is in one group. -/
theorem sum_length_collect (items : List α) :
    ((collect key new change items).order.map fun k =>
      (items.filter (key · = k)).length).sum = items.length := by
  have hperm : (collect key new change items).order.Perm (items.map key).dedup := by
    rw [List.perm_ext_iff_of_nodup (nodup_order_collect key new change items) (List.nodup_dedup _)]
    intro k
    rw [mem_order_collect, List.mem_dedup]
  have hcount : ∀ k, (items.filter (key · = k)).length = (items.map key).count k := by
    intro k
    rw [← List.countP_eq_length_filter, List.count, List.countP_map]
    rfl
  calc ((collect key new change items).order.map fun k => (items.filter (key · = k)).length).sum
      = ((items.map key).dedup.map fun k => (items.map key).count k).sum := by
        rw [funext hcount, (hperm.map _).sum_eq]
    _ = items.length := by rw [List.sum_map_count_dedup_eq_length, List.length_map]

end Groups

end QconnMcp.Kit
