import Mathlib.Tactic

/-!
# Scanners

A scanner reads symbols one at a time and emits a list at each of them. Two
scanners over the same symbols are compared through a relation between their
states that every symbol keeps. When the second one, in related states, either
emits what the first one emits or nothing at all, the first can only emit more;
so the outputs are equal exactly when the two emit the same at every symbol.
-/

namespace QconnMcp.Kit

variable {σ τ α β : Type}

/-- A state machine with output. -/
structure Scanner (σ α β : Type) where
  next : σ → α → σ
  out : σ → α → List β

namespace Scanner

/-- The state behind the symbols `x`. -/
def state (m : Scanner σ α β) (s : σ) (x : List α) : σ := x.foldl m.next s

/-- What is emitted on the symbols `x`. -/
def output (m : Scanner σ α β) : σ → List α → List β
  | _, [] => []
  | s, a :: x => m.out s a ++ m.output (m.next s a) x

theorem output_cons (m : Scanner σ α β) (s : σ) (a : α) (x : List α) :
    m.output s (a :: x) = m.out s a ++ m.output (m.next s a) x := rfl

/-- A symbol that emits nothing only moves the state. -/
theorem output_skip (m : Scanner σ α β) {s t : σ} {a : α} (hout : m.out s a = [])
    (hnext : m.next s a = t) (x : List α) : m.output s (a :: x) = m.output t x := by
  rw [output_cons, hout, hnext, List.nil_append]

theorem state_cons (m : Scanner σ α β) (s : σ) (a : α) (x : List α) :
    m.state s (a :: x) = m.state (m.next s a) x := rfl

theorem state_append (m : Scanner σ α β) (s : σ) (x y : List α) :
    m.state s (x ++ y) = m.state (m.state s x) y := List.foldl_append

theorem output_append (m : Scanner σ α β) (s : σ) (x y : List α) :
    m.output s (x ++ y) = m.output s x ++ m.output (m.state s x) y := by
  induction x generalizing s with
  | nil => rfl
  | cons a x ih =>
      rw [List.cons_append, output_cons, ih, output_cons, state_cons, List.append_assoc]

/-- `m'` emits what `m` emits or nothing, in every pair of related states, and
each symbol keeps them related. -/
structure Trails (m' : Scanner τ α β) (m : Scanner σ α β) (R : σ → τ → Prop) : Prop where
  step : ∀ {s t} (a : α), R s t → R (m.next s a) (m'.next t a)
  out : ∀ {s t} (a : α), R s t → m'.out t a = m.out s a ∨ m'.out t a = []

namespace Trails

variable {m : Scanner σ α β} {m' : Scanner τ α β} {R : σ → τ → Prop}

theorem length_le (h : Trails m' m R) {s : σ} {t : τ} (hst : R s t) (x : List α) :
    (m'.output t x).length ≤ (m.output s x).length := by
  induction x generalizing s t with
  | nil => exact Nat.le_refl _
  | cons a x ih =>
      have hrest := ih (h.step a hst)
      rw [output_cons, output_cons, List.length_append, List.length_append]
      rcases h.out a hst with hout | hout
      · rw [hout]
        omega
      · rw [hout, List.length_nil]
        omega

/-- The outputs are equal exactly when both emit the same at every symbol. -/
theorem output_eq_iff (h : Trails m' m R) {s : σ} {t : τ} (hst : R s t) (x : List α) :
    m'.output t x = m.output s x ↔
      ∀ p a q, x = p ++ a :: q → m'.out (m'.state t p) a = m.out (m.state s p) a := by
  induction x generalizing s t with
  | nil =>
      refine ⟨?_, fun _ => rfl⟩
      intro _ p a q hx
      exact absurd hx (by simp)
  | cons a x ih =>
      have hrest := ih (h.step a hst)
      refine ⟨?_, ?_⟩
      · intro heq
        -- the first symbol: emitting less there could not be made up for later
        have hhead : m'.out t a = m.out s a := by
          rcases h.out a hst with hout | hout
          · exact hout
          · have hle := h.length_le (h.step a hst) x
            have hlen := congrArg List.length heq
            rw [output_cons, output_cons, hout, List.length_append, List.length_append,
              List.length_nil] at hlen
            have hnil : m.out s a = [] := List.eq_nil_of_length_eq_zero (by omega)
            rw [hout, hnil]
        intro p b q hx
        cases p with
        | nil =>
            simp only [List.nil_append, List.cons.injEq] at hx
            obtain ⟨rfl, -⟩ := hx
            exact hhead
        | cons c p =>
            simp only [List.cons_append, List.cons.injEq] at hx
            obtain ⟨rfl, hx⟩ := hx
            rw [output_cons, output_cons, hhead] at heq
            exact hrest.mp (List.append_cancel_left heq) p b q hx
      · intro hall
        have htail : m'.output (m'.next t a) x = m.output (m.next s a) x := by
          apply hrest.mpr
          intro p b q hx
          exact hall (a :: p) b q (by rw [hx, List.cons_append])
        rw [output_cons, output_cons, htail, show m'.out t a = m.out s a from hall [] a x rfl]

end Trails

end Scanner

end QconnMcp.Kit
