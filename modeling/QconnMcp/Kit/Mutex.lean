import QconnMcp.Kit.Triple

/-!
# Operations behind one mutex

Any number of threads call operations on a shared state; each operation locks one
mutex, runs, and unlocks it. Inside the lock an operation is a `StateM` program that
may be cut into steps at any bind, and the other threads may do anything they can
between two of these steps. `serialized_of_steps` is what the mutex is for: in every
run, the operations return what they return when they run one after another in the
order in which they unlock, and an operation called after another has returned comes
behind it in that order.
-/

namespace QconnMcp.Kit.Mutex

variable {σ ι α : Type}

/-! ## Threads -/

/-- Where a thread is; `since` is the time of its call. -/
inductive Phase (σ ι α : Type) where
  | idle
  | waiting (op : ι) (since : Nat)
  /-- Holds the mutex, with `rest` of the operation to run. -/
  | inside (op : ι) (since : Nat) (rest : StateM σ α)
  /-- Has unlocked and not yet returned. -/
  | leaving (a : α)

/-- An operation that has unlocked the mutex, at the time `left`. -/
structure Call (ι α : Type) where
  thread : Nat
  op : ι
  called : Nat
  left : Nat
  result : α

/-- `calls` are the operations done so far, in the order in which they unlocked. -/
structure State (σ ι α : Type) where
  shared : σ
  holder : Option Nat
  phase : Nat → Phase σ ι α
  clock : Nat
  calls : List (Call ι α)

def start (s : σ) : State σ ι α := ⟨s, none, fun _ => .idle, 0, []⟩

/-- Move thread `t`, at the cost of one tick. -/
def State.moves (s : State σ ι α) (t : Nat) (p : Phase σ ι α) : State σ ι α :=
  { s with phase := Function.update s.phase t p, clock := s.clock + 1 }

inductive Step (exec : ι → StateM σ α) : State σ ι α → State σ ι α → Prop where
  | call {s} (t : Nat) (op : ι) (h : s.phase t = .idle) : Step exec s (s.moves t (.waiting op s.clock))
  | lock {s} (t : Nat) {op : ι} {since : Nat} (h : s.phase t = .waiting op since)
      (hfree : s.holder = none) :
      Step exec s { s.moves t (.inside op since (exec op)) with holder := some t }
  | work {s} (t : Nat) {op : ι} {since : Nat} {β : Type} (m : StateM σ β) (f : β → StateM σ α)
      (h : s.phase t = .inside op since (m >>= f)) :
      Step exec s { s.moves t (.inside op since (f (m.run s.shared).1)) with
        shared := (m.run s.shared).2 }
  | unlock {s} (t : Nat) {op : ι} {since : Nat} {a : α} (h : s.phase t = .inside op since (pure a)) :
      Step exec s { s.moves t (.leaving a) with
        holder := none
        calls := s.calls ++ [⟨t, op, since, s.clock, a⟩] }
  | ret {s} (t : Nat) {a : α} (h : s.phase t = .leaving a) : Step exec s (s.moves t .idle)

/-! ## The invariant -/

/-- The state between two operations: after those that have unlocked. -/
def State.settled (exec : ι → StateM σ α) (s₀ : σ) (s : State σ ι α) : σ :=
  ((sequentially exec (s.calls.map Call.op)).run s₀).2

structure Serialized (exec : ι → StateM σ α) (s₀ : σ) (s : State σ ι α) : Prop where
  /-- Only the holder of the mutex is inside. -/
  inside : ∀ t op since rest, s.phase t = .inside op since rest → s.holder = some t
  /-- The results are those of the run without threads. -/
  results : ((sequentially exec (s.calls.map Call.op)).run s₀).1 = s.calls.map Call.result
  free : s.holder = none → s.shared = s.settled exec s₀
  /-- What is left of an operation leads where the whole of it leads. -/
  busy : ∀ t op since rest, s.phase t = .inside op since rest →
    rest.run s.shared = (exec op).run (s.settled exec s₀)
  order : s.calls.Pairwise fun x y => x.left < y.left
  called : ∀ x ∈ s.calls, x.called < x.left ∧ x.left < s.clock
  since : ∀ t op since, (s.phase t = .waiting op since ∨ ∃ rest, s.phase t = .inside op since rest) →
    since < s.clock
  /-- A thread that is about to return has its call among those done. -/
  answered : ∀ t a, s.phase t = .leaving a → ∃ x ∈ s.calls, x.thread = t ∧ x.result = a

variable {exec : ι → StateM σ α} {s₀ : σ} {s s' : State σ ι α}

theorem serialized_start : Serialized exec s₀ (start s₀ : State σ ι α) where
  inside := by simp [start]
  results := rfl
  free := fun _ => rfl
  busy := by simp [start]
  order := .nil
  called := by simp [start]
  since := by simp [start]
  answered := by simp [start]

/-- A thread that is in the phase `q` now has just moved there, or was there before. -/
theorem phase_moves {t u : Nat} {p q : Phase σ ι α} (h : (s.moves t p).phase u = q) :
    u = t ∧ p = q ∨ u ≠ t ∧ s.phase u = q := by
  by_cases hu : u = t
  · subst hu
    have hself : (s.moves u p).phase u = p := Function.update_self ..
    exact .inl ⟨rfl, hself.symm.trans h⟩
  · have hother : (s.moves t p).phase u = s.phase u := Function.update_of_ne hu ..
    exact .inr ⟨hu, hother.symm.trans h⟩

/-- A thread that calls or returns. -/
theorem Serialized.outside (hs : Serialized exec s₀ s) (t : Nat) {p : Phase σ ι α}
    (hinside : ∀ op since rest, p ≠ .inside op since rest) (hleaving : ∀ a, p ≠ .leaving a)
    (hwaiting : ∀ op since, p = .waiting op since → since = s.clock) :
    Serialized exec s₀ (s.moves t p) where
  inside := by
    intro u o since rest h
    obtain ⟨-, h⟩ | ⟨-, h⟩ := phase_moves h
    · exact absurd h (hinside o since rest)
    · exact hs.inside u o since rest h
  results := hs.results
  free := hs.free
  busy := by
    intro u o since rest h
    obtain ⟨-, h⟩ | ⟨-, h⟩ := phase_moves h
    · exact absurd h (hinside o since rest)
    · exact hs.busy u o since rest h
  order := hs.order
  called x hx := ⟨(hs.called x hx).1, Nat.lt_succ_of_lt (hs.called x hx).2⟩
  since := by
    rintro u o since (h | ⟨rest, h⟩)
    · obtain ⟨-, h⟩ | ⟨-, h⟩ := phase_moves h
      · exact Nat.lt_succ_of_le (hwaiting o since h).le
      · exact Nat.lt_succ_of_lt (hs.since u o since (.inl h))
    · obtain ⟨-, h⟩ | ⟨-, h⟩ := phase_moves h
      · exact absurd h (hinside o since rest)
      · exact Nat.lt_succ_of_lt (hs.since u o since (.inr ⟨rest, h⟩))
  answered := by
    intro u a h
    obtain ⟨-, h⟩ | ⟨-, h⟩ := phase_moves h
    · exact absurd h (hleaving a)
    · exact hs.answered u a h

/-- The mutex is free, so nobody is inside. -/
theorem Serialized.nobody (hs : Serialized exec s₀ s) (hfree : s.holder = none) {t : Nat} {op : ι}
    {since : Nat} {rest : StateM σ α} (h : s.phase t = .inside op since rest) : False := by
  have hholder := hs.inside t op since rest h
  rw [hfree] at hholder
  exact Option.some_ne_none t hholder.symm

/-- Two threads that are inside are the same thread. -/
theorem Serialized.alone (hs : Serialized exec s₀ s) {t u : Nat} {op o : ι} {since si : Nat}
    {rest re : StateM σ α} (h : s.phase t = .inside op since rest) (h' : s.phase u = .inside o si re) :
    u = t :=
  Option.some.inj ((hs.inside u o si re h').symm.trans (hs.inside t op since rest h))

theorem Serialized.lock (hs : Serialized exec s₀ s) {t : Nat} {op : ι} {since : Nat}
    (ht : s.phase t = .waiting op since) (hfree : s.holder = none) :
    Serialized exec s₀ { s.moves t (.inside op since (exec op)) with holder := some t } where
  inside := by
    intro u o si rest h
    obtain ⟨rfl, -⟩ | ⟨-, h⟩ := phase_moves h
    · rfl
    · exact (hs.nobody hfree h).elim
  results := hs.results
  free := by simp
  busy := by
    intro u o si rest h
    obtain ⟨-, ⟨⟩⟩ | ⟨-, h⟩ := phase_moves h
    · exact congrArg (exec op).run (hs.free hfree)
    · exact (hs.nobody hfree h).elim
  order := hs.order
  called x hx := ⟨(hs.called x hx).1, Nat.lt_succ_of_lt (hs.called x hx).2⟩
  since := by
    rintro u o si (h | ⟨rest, h⟩)
    · obtain ⟨-, ⟨⟩⟩ | ⟨-, h⟩ := phase_moves h
      exact Nat.lt_succ_of_lt (hs.since u o si (.inl h))
    · obtain ⟨-, ⟨⟩⟩ | ⟨-, h⟩ := phase_moves h
      · exact Nat.lt_succ_of_lt (hs.since t op since (.inl ht))
      · exact (hs.nobody hfree h).elim
  answered := by
    intro u a h
    obtain ⟨-, ⟨⟩⟩ | ⟨-, h⟩ := phase_moves h
    exact hs.answered u a h

theorem Serialized.work (hs : Serialized exec s₀ s) {t : Nat} {op : ι} {since : Nat} {β : Type}
    {m : StateM σ β} {f : β → StateM σ α} (ht : s.phase t = .inside op since (m >>= f)) :
    Serialized exec s₀ { s.moves t (.inside op since (f (m.run s.shared).1)) with
      shared := (m.run s.shared).2 } where
  inside := by
    intro u o si rest h
    obtain ⟨rfl, -⟩ | ⟨-, h⟩ := phase_moves h
    · exact hs.inside u op since _ ht
    · exact hs.inside u o si rest h
  results := hs.results
  free hfree := (hs.nobody hfree ht).elim
  busy := by
    intro u o si rest h
    have hrest : (f (m.run s.shared).1).run (m.run s.shared).2 = (exec op).run (s.settled exec s₀) :=
      hs.busy t op since _ ht
    obtain ⟨-, ⟨⟩⟩ | ⟨hne, h⟩ := phase_moves h
    · exact hrest
    · exact absurd (hs.alone ht h) hne
  order := hs.order
  called x hx := ⟨(hs.called x hx).1, Nat.lt_succ_of_lt (hs.called x hx).2⟩
  since := by
    rintro u o si (h | ⟨rest, h⟩)
    · obtain ⟨-, ⟨⟩⟩ | ⟨-, h⟩ := phase_moves h
      exact Nat.lt_succ_of_lt (hs.since u o si (.inl h))
    · obtain ⟨-, ⟨⟩⟩ | ⟨-, h⟩ := phase_moves h
      · exact Nat.lt_succ_of_lt (hs.since t op since (.inr ⟨_, ht⟩))
      · exact Nat.lt_succ_of_lt (hs.since u o si (.inr ⟨rest, h⟩))
  answered := by
    intro u a h
    obtain ⟨-, ⟨⟩⟩ | ⟨-, h⟩ := phase_moves h
    exact hs.answered u a h

theorem Serialized.unlock (hs : Serialized exec s₀ s) {t : Nat} {op : ι} {since : Nat} {a : α}
    (ht : s.phase t = .inside op since (pure a)) :
    Serialized exec s₀ { s.moves t (.leaving a) with
      holder := none
      calls := s.calls ++ [⟨t, op, since, s.clock, a⟩] } := by
  -- the operation has run from the settled state to the shared one
  have hrun : (exec op).run (s.settled exec s₀) = (a, s.shared) := (hs.busy t op since _ ht).symm
  have hconcat := run_sequentially_concat exec (s.calls.map Call.op) op s₀
  have hmap : (s.calls ++ [(⟨t, op, since, s.clock, a⟩ : Call ι α)]).map Call.op = s.calls.map Call.op ++ [op] := by
    rw [List.map_append]
    rfl
  have hgone : ∀ u o si rest, (s.moves t (.leaving a)).phase u ≠ .inside o si rest := by
    intro u o si rest h
    obtain ⟨-, ⟨⟩⟩ | ⟨hne, h⟩ := phase_moves h
    exact hne (hs.alone ht h)
  refine ⟨?_, ?_, ?_, ?_, ?_, ?_, ?_, ?_⟩
  · intro u o si rest h
    exact absurd h (hgone u o si rest)
  · show ((sequentially exec _).run s₀).1 = _
    rw [hmap, hconcat, List.map_append]
    show _ ++ [((exec op).run (s.settled exec s₀)).1] = _
    rw [hs.results, hrun]
    rfl
  · intro _
    show s.shared = ((sequentially exec _).run s₀).2
    rw [hmap, hconcat]
    show _ = ((exec op).run (s.settled exec s₀)).2
    rw [hrun]
  · intro u o si rest h
    exact absurd h (hgone u o si rest)
  · rw [List.pairwise_append]
    refine ⟨hs.order, List.pairwise_singleton _ _, ?_⟩
    intro x hx y hy
    rw [List.mem_singleton.mp hy]
    exact (hs.called x hx).2
  · intro x hx
    rcases List.mem_append.mp hx with hx | hx
    · exact ⟨(hs.called x hx).1, Nat.lt_succ_of_lt (hs.called x hx).2⟩
    · rw [List.mem_singleton.mp hx]
      exact ⟨hs.since t op since (.inr ⟨_, ht⟩), Nat.lt_succ_self _⟩
  · rintro u o si (h | ⟨rest, h⟩)
    · obtain ⟨-, ⟨⟩⟩ | ⟨-, h⟩ := phase_moves h
      exact Nat.lt_succ_of_lt (hs.since u o si (.inl h))
    · exact absurd h (hgone u o si rest)
  · intro u b h
    obtain ⟨rfl, ⟨⟩⟩ | ⟨-, h⟩ := phase_moves h
    · exact ⟨_, List.mem_append_right _ List.mem_cons_self, rfl, rfl⟩
    · obtain ⟨x, hx, hthread, hresult⟩ := hs.answered u b h
      exact ⟨x, List.mem_append_left _ hx, hthread, hresult⟩

theorem Serialized.step (hs : Serialized exec s₀ s) (h : Step exec s s') : Serialized exec s₀ s' := by
  cases h with
  | call t op _ => exact hs.outside t (by simp) (by simp) (by simp)
  | lock t ht hfree => exact hs.lock ht hfree
  | work t m f ht => exact hs.work ht
  | unlock t ht => exact hs.unlock ht
  | ret t _ => exact hs.outside t (by simp) (by simp) (by simp)

/-- What one thread after another does. -/
abbrev Steps (exec : ι → StateM σ α) : State σ ι α → State σ ι α → Prop :=
  Relation.ReflTransGen (Step exec)

theorem serialized_of_steps (h : Steps exec (start s₀) s) : Serialized exec s₀ s := by
  induction h with
  | refl => exact serialized_start
  | tail _ hstep ih => exact ih.step hstep

end QconnMcp.Kit.Mutex
