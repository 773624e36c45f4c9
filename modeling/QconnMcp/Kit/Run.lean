import Mathlib.Tactic

/-!
# Runs of a transition system

A system takes events one after another; an event that is not enabled in a state
has no successor there. `Along` says that a property of states and events holds
at every step of a run, and comes with the invariant rule for it.
-/

namespace QconnMcp.Kit

variable {σ ε : Type} {step : σ → ε → Option σ}

/-- The state after a run, `none` when some event was not enabled. -/
def runFrom (step : σ → ε → Option σ) (s : σ) : List ε → Option σ
  | [] => some s
  | e :: es => (step s e).bind fun s' => runFrom step s' es

/-- What every step keeps holds after a run. -/
theorem invariant_of_runFrom (Inv : σ → Prop)
    (keeps : ∀ s e s', Inv s → step s e = some s' → Inv s')
    {s s' : σ} (hs : Inv s) {es : List ε} (h : runFrom step s es = some s') : Inv s' := by
  induction es generalizing s with
  | nil => exact Option.some.inj h ▸ hs
  | cons e es ih =>
      obtain ⟨s₁, hstep, hrest⟩ := Option.bind_eq_some_iff.mp h
      exact ih (keeps s e s₁ hs hstep) hrest

/-- `P` holds of every event of the run, in the state in which it occurs. -/
def Along (step : σ → ε → Option σ) (P : σ → ε → Prop) (s : σ) : List ε → Prop
  | [] => True
  | e :: es => P s e ∧ ∀ s', step s e = some s' → Along step P s' es

/-- An invariant that every step with `G` keeps holds along the runs whose steps
all have `G`, and so does what follows from it there. -/
theorem Along.of_invariant {Inv : σ → Prop} {G P : σ → ε → Prop}
    (keeps : ∀ s e s', Inv s → G s e → step s e = some s' → Inv s')
    (gives : ∀ s e, Inv s → G s e → P s e) {s : σ} (hs : Inv s) {es : List ε}
    (h : Along step G s es) : Along step P s es := by
  induction es generalizing s with
  | nil => trivial
  | cons e es ih =>
      refine ⟨gives s e hs h.1, ?_⟩
      intro s' hstep
      exact ih (keeps s e s' hs h.1 hstep) (h.2 s' hstep)

/-- Two properties that agree in the states of an invariant, which either of them
keeps, hold along the same runs. -/
theorem Along.congr_of_invariant (Inv : σ → Prop) {P Q : σ → ε → Prop}
    (agree : ∀ s e, Inv s → (P s e ↔ Q s e))
    (keeps : ∀ s e s', Inv s → P s e → step s e = some s' → Inv s') {s : σ} (hs : Inv s)
    {es : List ε} : Along step P s es ↔ Along step Q s es := by
  induction es generalizing s with
  | nil => exact Iff.rfl
  | cons e es ih =>
      refine ⟨?_, ?_⟩
      · intro h
        refine ⟨(agree s e hs).mp h.1, ?_⟩
        intro s' hstep
        exact (ih (keeps s e s' hs h.1 hstep)).mp (h.2 s' hstep)
      · intro h
        have hP := (agree s e hs).mpr h.1
        refine ⟨hP, ?_⟩
        intro s' hstep
        exact (ih (keeps s e s' hs hP hstep)).mpr (h.2 s' hstep)

end QconnMcp.Kit
