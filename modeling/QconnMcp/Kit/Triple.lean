import Mathlib.Tactic

/-!
# Pre- and postconditions for stateful code

Go methods are modelled as `StateM` programs. `Holds` is a total-correctness
triple on such a program; `Sim` relates two runs of (possibly different)
programs that return the same value and keep their states related; `SimUnder`
does so for the runs that end in a state with a given history. All of them come
with one rule per construct, so a proof about a method follows its text.
-/

namespace QconnMcp.Kit

variable {σ τ α β : Type}

/-- Running a sequence: the continuation gets the first result and state. -/
theorem run_bind (m : StateM σ α) (f : α → StateM σ β) (s : σ) :
    (m >>= f).run s = (f (m.run s).1).run (m.run s).2 := rfl

/-! ## Triples -/

/-- Started in a state with `pre`, the program ends with `post` of its result
and its final state. -/
def Holds (pre : σ → Prop) (m : StateM σ α) (post : α → σ → Prop) : Prop :=
  ∀ s, pre s → post (m.run s).1 (m.run s).2

namespace Holds

variable {pre pre' : σ → Prop} {m : StateM σ α} {post post' : α → σ → Prop}

theorem pure {a : α} (h : ∀ s, pre s → post a s) : Holds pre (Pure.pure a : StateM σ α) post :=
  h

theorem bind {f : α → StateM σ β} {Q : α → σ → Prop} {post : β → σ → Prop}
    (hm : Holds pre m Q) (hf : ∀ a, Holds (Q a) (f a) post) : Holds pre (m >>= f) post :=
  fun s hs => hf _ _ (hm s hs)

theorem conseq (h : Holds pre m post) (hpre : ∀ s, pre' s → pre s)
    (hpost : ∀ a s, post a s → post' a s) : Holds pre' m post' :=
  fun s hs => hpost _ _ (h s (hpre s hs))

/-- A first step whose result is known. -/
theorem bind_value {f : α → StateM σ β} {a : α} {mid : σ → Prop} {post : β → σ → Prop}
    (hm : Holds pre m fun r s => r = a ∧ mid s) (hf : Holds mid (f a) post) :
    Holds pre (m >>= f) post := by
  refine hm.bind ?_
  intro r s h
  obtain ⟨rfl, hs⟩ := h
  exact hf s hs

end Holds

/-! ## Simulations -/

/-- From related states the programs return the same value and end in related
states. -/
def Sim (R : σ → τ → Prop) (m : StateM σ α) (n : StateM τ α) : Prop :=
  ∀ s t, R s t → (m.run s).1 = (n.run t).1 ∧ R (m.run s).2 (n.run t).2

namespace Sim

variable {R : σ → τ → Prop} {m : StateM σ α} {n : StateM τ α}

theorem pure (a : α) : Sim R (Pure.pure a : StateM σ α) (Pure.pure a : StateM τ α) :=
  fun _ _ h => ⟨rfl, h⟩

theorem bind {f : α → StateM σ β} {g : α → StateM τ β} (hm : Sim R m n)
    (hf : ∀ a, Sim R (f a) (g a)) : Sim R (m >>= f) (n >>= g) := by
  intro s t h
  obtain ⟨hval, hrel⟩ := hm s t h
  rw [run_bind, run_bind, ← hval]
  exact hf _ _ _ hrel

theorem map (f : α → β) (hm : Sim R m n) : Sim R (f <$> m) (f <$> n) := by
  intro s t h
  obtain ⟨hval, hrel⟩ := hm s t h
  exact ⟨congrArg f hval, hrel⟩

theorem ite {p : Prop} [Decidable p] {m' : StateM σ α} {n' : StateM τ α} (hm : p → Sim R m n)
    (hm' : ¬ p → Sim R m' n') : Sim R (if p then m else m') (if p then n else n') := by
  split
  · exact hm ‹p›
  · exact hm' ‹¬ p›

/-- A last choice between two results, made by one program before and by the other
after it has ended. -/
theorem map_ite {p : Prop} [Decidable p] (f : α → β) (x y : α) :
    Sim R (f <$> (if p then Pure.pure x else Pure.pure y) : StateM σ β)
      (Pure.pure (f (if p then x else y))) := by
  split
  · exact .pure _
  · exact .pure _

end Sim

/-! ## Simulations under a guard -/

/-- The program does not restore `G` once it is lost. `G` is a property of what has
happened so far. -/
def Backs (G : σ → Prop) (m : StateM σ α) : Prop := ∀ s, G (m.run s).2 → G s

/-- Two programs side by side, compared in the runs whose left side ends with `G`:
from states related by `pre` they return the same value and end in states related
by `post`. -/
structure SimUnder (G : σ → Prop) (pre : σ → τ → Prop) (m : StateM σ α) (n : StateM τ α)
    (post : α → σ → τ → Prop) : Prop where
  back : Backs G m
  ends : ∀ s t, pre s t → G (m.run s).2 →
    (m.run s).1 = (n.run t).1 ∧ post (m.run s).1 (m.run s).2 (n.run t).2

section Guarded

variable {G : σ → Prop}

theorem Backs.pure (a : α) : Backs G (Pure.pure a : StateM σ α) := fun _ h => h

theorem Backs.bind {m : StateM σ α} {f : α → StateM σ β} (hm : Backs G m)
    (hf : ∀ a, Backs G (f a)) : Backs G (m >>= f) :=
  fun s h => hm s (hf _ _ h)

namespace SimUnder

variable {pre pre' : σ → τ → Prop} {m : StateM σ α} {n : StateM τ α}
  {post post' : α → σ → τ → Prop}

theorem pure {a : α} (h : ∀ s t, pre s t → post a s t) :
    SimUnder G pre (Pure.pure a : StateM σ α) (Pure.pure a : StateM τ α) post :=
  ⟨.pure a, fun s t hst _ => ⟨rfl, h s t hst⟩⟩

theorem bind {f : α → StateM σ β} {g : α → StateM τ β} {Q : α → σ → τ → Prop}
    {post : β → σ → τ → Prop} (hm : SimUnder G pre m n Q)
    (hf : ∀ a, SimUnder G (Q a) (f a) (g a) post) : SimUnder G pre (m >>= f) (n >>= g) post where
  back := hm.back.bind fun a => (hf a).back
  ends := by
    intro s t hst hG
    -- the guard holds at the end, so it held in between
    obtain ⟨hval, hmid⟩ := hm.ends s t hst ((hf _).back _ hG)
    rw [run_bind, run_bind, ← hval]
    exact (hf _).ends _ _ hmid hG

theorem conseq (h : SimUnder G pre m n post) (hpre : ∀ s t, pre' s t → pre s t)
    (hpost : ∀ a s t, post a s t → post' a s t) : SimUnder G pre' m n post' where
  back := h.back
  ends := by
    intro s t hst hG
    obtain ⟨hval, hend⟩ := h.ends s t (hpre s t hst) hG
    exact ⟨hval, hpost _ _ _ hend⟩

theorem ite {p : Prop} [Decidable p] {m' : StateM σ α} {n' : StateM τ α}
    (hm : p → SimUnder G pre m n post) (hm' : ¬ p → SimUnder G pre m' n' post) :
    SimUnder G pre (if p then m else m') (if p then n else n') post := by
  split
  · exact hm ‹p›
  · exact hm' ‹¬ p›

end SimUnder

end Guarded

/-! ## One after another -/

section Sequentially

variable {ι : Type}

/-- The programs of a list of operations, with what each returned. -/
def sequentially (exec : ι → StateM σ α) : List ι → StateM σ (List α)
  | [] => pure []
  | op :: ops => do
      let a ← exec op
      let as ← sequentially exec ops
      pure (a :: as)

theorem run_sequentially_concat (exec : ι → StateM σ α) (ops : List ι) (op : ι) (s : σ) :
    (sequentially exec (ops ++ [op])).run s =
      let r := (sequentially exec ops).run s
      (r.1 ++ [((exec op).run r.2).1], ((exec op).run r.2).2) := by
  induction ops generalizing s with
  | nil => rfl
  | cons o ops ih =>
      show (sequentially exec (o :: (ops ++ [op]))).run s = _
      rw [sequentially, run_bind, run_bind, ih]
      rfl

/-- A function of the results does not matter to the runs. -/
theorem run_sequentially_map (f : α → β) (exec : ι → StateM σ α) (ops : List ι) (s : σ) :
    (sequentially (fun op => f <$> exec op) ops).run s =
      (((sequentially exec ops).run s).1.map f, ((sequentially exec ops).run s).2) := by
  induction ops generalizing s with
  | nil => rfl
  | cons o ops ih =>
      rw [sequentially, run_bind, run_bind, ih]
      rfl

/-- Operations that follow their specifications one by one do so one after another; the
relation may depend on how many have run, up to `bound`. -/
theorem sequentially_follows {exec : ι → StateM σ α} {spec : ι → StateM τ α}
    {R : Nat → σ → τ → Prop} {bound : Nat}
    (h : ∀ k < bound, ∀ op s t, R k s t → ((exec op).run s).1 = ((spec op).run t).1 ∧
      R (k + 1) ((exec op).run s).2 ((spec op).run t).2) (ops : List ι) :
    ∀ k s t, k + ops.length ≤ bound → R k s t →
      ((sequentially exec ops).run s).1 = ((sequentially spec ops).run t).1 ∧
        R (k + ops.length) ((sequentially exec ops).run s).2 ((sequentially spec ops).run t).2 := by
  induction ops with
  | nil => exact fun k s t _ hR => ⟨rfl, hR⟩
  | cons op ops ih =>
      intro k s t hlen hR
      rw [List.length_cons] at hlen
      obtain ⟨hval, hnext⟩ := h k (by omega) op s t hR
      obtain ⟨hvals, hend⟩ := ih (k + 1) _ _ (by omega) hnext
      rw [List.length_cons, Nat.add_comm ops.length 1, ← Nat.add_assoc]
      exact ⟨congrArg₂ List.cons hval hvals, hend⟩

/-- Programs that simulate theirs one by one do so one after another. -/
theorem Sim.sequentially {exec : ι → StateM σ α} {spec : ι → StateM τ α} {R : σ → τ → Prop}
    {ops : List ι} (h : ∀ op ∈ ops, Sim R (exec op) (spec op)) :
    Sim R (Kit.sequentially exec ops) (Kit.sequentially spec ops) := by
  induction ops with
  | nil => exact .pure _
  | cons op ops ih =>
      have hops := ih fun o ho => h o (List.mem_cons_of_mem op ho)
      exact (h op List.mem_cons_self).bind fun a => hops.bind fun as => .pure _

theorem SimUnder.sequentially {exec : ι → StateM σ α} {spec : ι → StateM τ α} {G : σ → Prop}
    {R : σ → τ → Prop} {ops : List ι}
    (h : ∀ op ∈ ops, SimUnder G R (exec op) (spec op) fun _ => R) :
    SimUnder G R (Kit.sequentially exec ops) (Kit.sequentially spec ops) fun _ => R := by
  induction ops with
  | nil => exact .pure fun _ _ hR => hR
  | cons op ops ih =>
      have hops := ih fun o ho => h o (List.mem_cons_of_mem op ho)
      exact (h op List.mem_cons_self).bind fun a => hops.bind fun as => .pure fun _ _ hR => hR

end Sequentially

end QconnMcp.Kit
