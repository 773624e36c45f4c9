import QconnMcp.Kit.Bytes

/-!
# Regular expressions as lists of items

The fragment of regular expressions the programs use: literal words and
alternatives of them, one byte of a class, greedy repetition of a class, and
the end of the text, each possibly captured. `Pattern.exec` is a backtracking
matcher that tries the lengths of an item in priority order (the longest
repetition first, alternatives from left to right), so it finds the match that
leftmost-first semantics selects, captures included.
-/

namespace QconnMcp.Kit

inductive Atom where
  | one (p : UInt8 → Bool)
  | run (least : Nat) (p : UInt8 → Bool)
  | word (ws : List Bytes)
  | done

structure Item where
  atom : Atom
  keep : Bool

abbrev Pattern := List Item

/-! Shorthands for writing patterns down. -/

def lit (s : String) : Item := ⟨.word [ascii s], false⟩

def group (a : Atom) : Item := ⟨a, true⟩

def skip (a : Atom) : Item := ⟨a, false⟩

/-- `m, m - 1, …, least`. -/
def downFrom (least : Nat) : Nat → List Nat
  | 0 => if least = 0 then [0] else []
  | m + 1 => if least ≤ m + 1 then (m + 1) :: downFrom least m else []

/-- The lengths an atom may take at the head of a text, preferred ones first. -/
def Atom.splits : Atom → Bytes → List Nat
  | .one _, [] => []
  | .one p, b :: _ => if p b then [1] else []
  | .run least p, s => downFrom least (s.takeWhile p).length
  | .word ws, s => (ws.filter (·.isPrefixOf s)).map List.length
  | .done, s => if s = [] then [0] else []

/-- Match a pattern at the head of a text: the captures and what is left. -/
def Pattern.exec : Pattern → Bytes → Option (List Bytes × Bytes)
  | [], s => some ([], s)
  | it :: rest, s =>
      (it.atom.splits s).findSome? fun k =>
        (Pattern.exec rest (s.drop k)).map fun r =>
          (if it.keep then s.take k :: r.1 else r.1, r.2)

/-- Position of the leftmost match. -/
def Pattern.index (pat : Pattern) : Bytes → Option Nat
  | [] => if (pat.exec []).isSome then some 0 else none
  | b :: s => if (pat.exec (b :: s)).isSome then some 0 else (Pattern.index pat s).map (· + 1)

/-! ## What a match means -/

/-- `a` accepts `piece` when `rest` follows it. -/
def Atom.Accepts : Atom → Bytes → Bytes → Prop
  | .one p, piece, _ => ∃ b, piece = [b] ∧ p b = true
  | .run least p, piece, _ => least ≤ piece.length ∧ ∀ b ∈ piece, p b = true
  | .word ws, piece, _ => piece ∈ ws
  | .done, piece, rest => piece = [] ∧ rest = []

theorem mem_downFrom {least k : Nat} : ∀ {m : Nat}, k ∈ downFrom least m ↔ least ≤ k ∧ k ≤ m
  | 0 => by
      unfold downFrom
      split <;> simp <;> omega
  | m + 1 => by
      unfold downFrom
      split
      · simp only [List.mem_cons, mem_downFrom]
        omega
      · simp
        omega

theorem le_length_takeWhile {p : UInt8 → Bool} {piece s : Bytes}
    (h : ∀ b ∈ piece, p b = true) : piece.length ≤ ((piece ++ s).takeWhile p).length := by
  rw [List.takeWhile_append_of_pos h]
  simp

theorem forall_take_of_le_takeWhile {p : UInt8 → Bool} {s : Bytes} {k : Nat}
    (h : k ≤ (s.takeWhile p).length) : ∀ b ∈ s.take k, p b = true := by
  intro b hb
  obtain ⟨t, ht⟩ := List.takeWhile_prefix p (l := s)
  rw [← ht, List.take_append_of_le_length h] at hb
  exact List.mem_takeWhile_imp (List.mem_of_mem_take hb)

theorem Atom.mem_splits {a : Atom} {s : Bytes} {k : Nat} :
    k ∈ a.splits s ↔ k ≤ s.length ∧ a.Accepts (s.take k) (s.drop k) := by
  cases a with
  | one p =>
      cases s with
      | nil => simp [splits, Accepts]
      | cons b s =>
          by_cases hp : p b <;> rcases k with _ | _ | k <;> simp [splits, Accepts, hp]
          intro hk hnil
          simp [hnil] at hk
  | run least p =>
      simp only [splits, mem_downFrom, Accepts, List.length_take]
      constructor
      · rintro ⟨hl, hk⟩
        have hle : k ≤ s.length := hk.trans (List.takeWhile_prefix p).length_le
        exact ⟨hle, by omega, forall_take_of_le_takeWhile hk⟩
      · rintro ⟨hle, hl, hall⟩
        have := le_length_takeWhile (s := s.drop k) hall
        rw [List.take_append_drop, List.length_take] at this
        omega
  | word ws =>
      simp only [splits, List.mem_map, List.mem_filter, List.isPrefixOf_iff_prefix, Accepts]
      constructor
      · rintro ⟨w, ⟨hw, hpre⟩, rfl⟩
        exact ⟨hpre.length_le, by rwa [← List.prefix_iff_eq_take.mp hpre]⟩
      · rintro ⟨hle, hw⟩
        exact ⟨_, ⟨hw, List.take_prefix ..⟩, by simpa using hle⟩
  | done =>
      cases s <;> simp [splits, Accepts]
      omega

theorem Pattern.exec_cons {it : Item} {pat : Pattern} {s out : Bytes} {caps : List Bytes}
    (h : Pattern.exec (it :: pat) s = some (caps, out)) :
    ∃ piece rest caps', s = piece ++ rest ∧ it.atom.Accepts piece rest ∧
      Pattern.exec pat rest = some (caps', out) ∧
      caps = if it.keep then piece :: caps' else caps' := by
  unfold Pattern.exec at h
  obtain ⟨k, hk, hr⟩ := List.exists_of_findSome?_eq_some h
  obtain ⟨⟨caps', out'⟩, hrest, heq⟩ := Option.map_eq_some_iff.mp hr
  simp only [Prod.mk.injEq] at heq
  obtain ⟨hle, hacc⟩ := Atom.mem_splits.mp hk
  exact ⟨s.take k, s.drop k, caps', (List.take_append_drop k s).symm, hacc,
    by rw [hrest, heq.2], heq.1.symm⟩

/-- Inverting a match item by item: a literal is in the text, -/
theorem Pattern.exec_lit_inv {w : String} {pat : Pattern} {s out : Bytes} {caps : List Bytes}
    (h : Pattern.exec (lit w :: pat) s = some (caps, out)) :
    ∃ rest, s = ascii w ++ rest ∧ pat.exec rest = some (caps, out) := by
  obtain ⟨piece, rest, caps', rfl, hpiece, hrest, hcaps⟩ := Pattern.exec_cons h
  obtain rfl : piece = ascii w := List.mem_singleton.mp hpiece
  obtain rfl : caps = caps' := hcaps
  exact ⟨rest, rfl, hrest⟩

/-- and a captured piece is the next capture. -/
theorem Pattern.exec_group_inv {a : Atom} {pat : Pattern} {s out piece : Bytes}
    {caps : List Bytes} (h : Pattern.exec (group a :: pat) s = some (piece :: caps, out)) :
    ∃ rest, s = piece ++ rest ∧ a.Accepts piece rest ∧ pat.exec rest = some (caps, out) := by
  obtain ⟨piece', rest, caps', rfl, hpiece, hrest, hcaps⟩ := Pattern.exec_cons h
  obtain ⟨rfl, rfl⟩ := List.cons.inj hcaps
  exact ⟨rest, rfl, hpiece, hrest⟩

theorem Pattern.exec_done_inv {s out : Bytes} {caps : List Bytes}
    (h : Pattern.exec [skip .done] s = some (caps, out)) : s = [] := by
  obtain ⟨piece, rest, -, rfl, ⟨rfl, rfl⟩, -, -⟩ := Pattern.exec_cons h
  rfl

theorem Pattern.isSome_exec_cons {it : Item} {pat : Pattern} {s : Bytes} :
    (Pattern.exec (it :: pat) s).isSome ↔ ∃ piece rest, s = piece ++ rest ∧
      it.atom.Accepts piece rest ∧ (Pattern.exec pat rest).isSome := by
  constructor
  · intro h
    obtain ⟨⟨caps, out⟩, he⟩ := Option.isSome_iff_exists.mp h
    obtain ⟨piece, rest, caps', hs, hacc, hrest, -⟩ := Pattern.exec_cons he
    exact ⟨piece, rest, hs, hacc, by simp [hrest]⟩
  · rintro ⟨piece, rest, rfl, hacc, hrest⟩
    unfold Pattern.exec
    rw [List.isSome_findSome?, List.any_eq_true]
    refine ⟨piece.length, Atom.mem_splits.mpr ⟨by simp, by simpa using hacc⟩, ?_⟩
    simpa using hrest

/-! ## Running a pattern forward

Each lemma consumes one item, so a match of a concrete pattern is computed by
rewriting with them from left to right. -/

theorem Pattern.exec_nil (s : Bytes) : Pattern.exec [] s = some ([], s) := rfl

theorem Pattern.exec_lit (w : String) (pat : Pattern) (s : Bytes) :
    Pattern.exec (lit w :: pat) (ascii w ++ s) = pat.exec s := by
  simp only [Pattern.exec, lit, Atom.splits, isPrefixOf_append, List.filter_cons_of_pos,
    List.filter_nil, List.map_cons, List.map_nil, List.findSome?_cons, List.findSome?_nil,
    List.drop_left, Bool.false_eq_true, if_false]
  cases pat.exec s <;> rfl

theorem Pattern.exec_one {p : UInt8 → Bool} {b : UInt8} (hb : p b = true) (keep : Bool)
    (pat : Pattern) (s : Bytes) :
    Pattern.exec (⟨.one p, keep⟩ :: pat) (b :: s) =
      (pat.exec s).map fun r => (if keep then [b] :: r.1 else r.1, r.2) := by
  simp only [Pattern.exec, Atom.splits, hb, if_true, List.findSome?_cons, List.findSome?_nil,
    List.drop_succ_cons, List.drop_zero, List.take_succ_cons, List.take_zero]
  cases pat.exec s <;> rfl

theorem findSome?_downFrom {α : Type} {f : Nat → Option α} {least k : Nat} {v : α}
    (hl : least ≤ k) (hv : f k = some v) :
    ∀ m, k ≤ m → (∀ j, k < j → j ≤ m → f j = none) → (downFrom least m).findSome? f = some v
  | 0, hm, _ => by
      obtain rfl : k = 0 := by omega
      simp [downFrom, show least = 0 by omega, hv]
  | m + 1, hm, hnone => by
      rw [downFrom, if_pos (by omega), List.findSome?_cons]
      rcases Nat.lt_or_ge k (m + 1) with hlt | hge
      · rw [hnone (m + 1) hlt (Nat.le_refl _)]
        exact findSome?_downFrom hl hv m (by omega) fun j h1 h2 => hnone j h1 (by omega)
      · obtain rfl : k = m + 1 := by omega
        rw [hv]

/-- A repetition stops at `a` when the rest of the pattern matches there and at
no later point the repetition could reach. -/
theorem Pattern.exec_run_at {p : UInt8 → Bool} {least : Nat} {a s : Bytes} {pat : Pattern}
    {r : List Bytes × Bytes} (keep : Bool) (ha : ∀ b ∈ a, p b = true) (hl : least ≤ a.length)
    (hr : pat.exec s = some r)
    (hnone : ∀ j, 0 < j → j ≤ (s.takeWhile p).length → pat.exec (s.drop j) = none) :
    Pattern.exec (⟨.run least p, keep⟩ :: pat) (a ++ s) =
      some (if keep then a :: r.1 else r.1, r.2) := by
  unfold Pattern.exec
  apply findSome?_downFrom (k := a.length) hl
  · simp [hr]
  · exact le_length_takeWhile ha
  · intro j h1 h2
    rw [List.takeWhile_append_of_pos ha, List.length_append] at h2
    have := hnone (j - a.length) (by omega) (by omega)
    rw [List.drop_append, List.drop_eq_nil_of_le (by omega), List.nil_append, this]
    rfl

/-- A repetition whose class excludes the byte that follows it. -/
theorem Pattern.exec_run {p : UInt8 → Bool} {least : Nat} {a s : Bytes} {pat : Pattern}
    {r : List Bytes × Bytes} (keep : Bool) (ha : ∀ b ∈ a, p b = true) (hl : least ≤ a.length)
    (hs : ∀ b ∈ s.head?, p b = false) (hr : pat.exec s = some r) :
    Pattern.exec (⟨.run least p, keep⟩ :: pat) (a ++ s) =
      some (if keep then a :: r.1 else r.1, r.2) := by
  refine Pattern.exec_run_at keep ha hl hr ?_
  intro j h1 h2
  have : s.takeWhile p = [] := by
    cases s with
    | nil => rfl
    | cons b s => simp [hs b (by simp)]
  simp [this] at h2
  omega

/-- A repetition up to a literal that starts outside its class. -/
theorem Pattern.exec_run_lit {p : UInt8 → Bool} {least : Nat} {a s : Bytes} {w : String}
    {pat : Pattern} {r : List Bytes × Bytes} (keep : Bool) (ha : ∀ b ∈ a, p b = true)
    (hl : least ≤ a.length) (hw : (ascii w).head?.any (!p ·) = true)
    (hr : pat.exec s = some r) :
    Pattern.exec (⟨.run least p, keep⟩ :: lit w :: pat) (a ++ (ascii w ++ s)) =
      some (if keep then a :: r.1 else r.1, r.2) := by
  refine Pattern.exec_run keep ha hl ?_ (by rw [Pattern.exec_lit, hr])
  intro b hb
  cases h : ascii w with
  | nil =>
      rw [h] at hw
      exact absurd hw (by simp)
  | cons c t =>
      rw [h] at hb hw
      obtain rfl : c = b := by simpa using hb
      simpa using hw

theorem Pattern.exec_done (keep : Bool) (pat : Pattern) :
    Pattern.exec (⟨.done, keep⟩ :: pat) [] =
      (pat.exec []).map fun r => (if keep then [] :: r.1 else r.1, r.2) := by
  simp only [Pattern.exec, Atom.splits, if_true, List.findSome?_cons, List.findSome?_nil,
    List.drop_nil, List.take_nil]
  cases pat.exec [] <;> rfl

/-! ## Leftmost matches -/

theorem Pattern.index_eq_some {pat : Pattern} : ∀ {s : Bytes} {i : Nat},
    pat.index s = some i ↔
      i ≤ s.length ∧ (pat.exec (s.drop i)).isSome ∧ ∀ j < i, pat.exec (s.drop j) = none
  | [], i => by
      unfold Pattern.index
      split
      · constructor
        · rintro ⟨⟩
          exact ⟨Nat.le_refl _, ‹_›, by simp⟩
        · rintro ⟨h, -⟩
          rw [Nat.le_zero.mp h]
      · simp_all
  | b :: s, i => by
      unfold Pattern.index
      split
      · rename_i h
        constructor
        · rintro ⟨⟩
          exact ⟨by simp, h, by simp⟩
        · rintro ⟨-, -, hfirst⟩
          cases i with
          | zero => rfl
          | succ i =>
              have hnone := hfirst 0 (by omega)
              rw [List.drop_zero] at hnone
              simp [hnone] at h
      · rename_i h
        cases i with
        | zero => simp_all
        | succ i =>
            rw [Option.map_eq_some_iff]
            simp only [Nat.add_right_cancel_iff, exists_eq_right, Pattern.index_eq_some,
              List.length_cons, Nat.add_le_add_iff_right, List.drop_succ_cons]
            refine and_congr_right fun _ => and_congr_right fun _ => ⟨fun hn j hj => ?_, fun hn j hj => ?_⟩
            · cases j with
              | zero => rwa [Option.not_isSome_iff_eq_none] at h
              | succ j => exact hn j (by omega)
            · exact hn (j + 1) (by omega)

theorem Pattern.index_eq_none {pat : Pattern} : ∀ {s : Bytes},
    (∀ j ≤ s.length, pat.exec (s.drop j) = none) → pat.index s = none
  | [], h => by
      have := h 0 (by simp)
      simp_all [Pattern.index]
  | b :: s, h => by
      have h0 := h 0 (by simp)
      rw [List.drop_zero] at h0
      have ht : pat.index s = none := Pattern.index_eq_none fun j hj => h (j + 1) (by simpa using hj)
      simp [Pattern.index, h0, ht]

end QconnMcp.Kit
