import QconnMcp.Kit.Numeral
import QconnMcp.Kit.Run

/-!
# The registry of debug sessions

`sessions`, `sessionSeq` and `getSession` of `internal/mcpserver`, and the parts of the
debug handlers around them, for any number of calls at once. `qconn_debug_attach` and
`qconn_debug_launch` dial a connection of their own, take the next session number and
only then enter the session; the other handlers look a session up and lock it;
`qconn_debug_detach` closes the connection under that lock and removes the entry after it;
`Server.Close` closes and removes all sessions without taking their locks. The registry's
own mutex is held for single steps, so the steps here are these critical sections.

A connection is its number, in the order of dialling. What is sent on it is in
`Tools.Debug`; here it counts which connection a call writes to.
-/

namespace QconnMcp.Tools.Registry

open Kit

/-! ## The system -/

/-- The handlers that look up a session: the one that ends it and all others. -/
inductive Kind where
  | tool
  | detach
  deriving DecidableEq, Repr

/-- Where a call is. -/
inductive Phase where
  | idle
  /-- Attach or launch, with a connection of its own. -/
  | dialled (c : Nat)
  /-- The same, after `sessionSeq.Add(1)`. -/
  | numbered (c n : Nat)
  /-- `getSession` has returned. -/
  | found (k : Kind) (id : Bytes) (c : Nat)
  /-- Holds the mutex of the session. -/
  | locked (k : Kind) (id : Bytes) (c : Nat)
  /-- Detach, after `Close` and before `Unlock`. -/
  | closing (id : Bytes) (c : Nat)
  /-- Detach, after `Unlock` and before `delete`. -/
  | unlinking (id : Bytes) (c : Nat)
  deriving DecidableEq, Repr

/-- The registry and its calls. `mu` is the holder of each session's mutex, `dials` the
number of connections made. The rest are ghosts: the calls of `Close`, each by its
connection, the sessions ever entered, the ids ever removed, and the requests written, each
by its call, the session id the call was given, and the connection. -/
structure Sys where
  seq : Nat
  sessions : List (Bytes × Nat)
  closed : List Nat
  dials : Nat
  mu : Nat → Option Nat
  phase : Nat → Phase
  registered : List (Bytes × Nat)
  removed : List Bytes
  requests : List (Nat × Bytes × Nat)

def Sys.init : Sys := ⟨0, [], [], 0, fun _ => none, fun _ => .idle, [], [], []⟩

/-- `fmt.Sprintf("dbg-%d", n)`. -/
def sessionID (n : Nat) : Bytes := ascii "dbg-" ++ fmtNat 10 n

/-- A step of call `t`. -/
inductive Event where
  /-- `dialPdebug` succeeds. -/
  | dial (t : Nat)
  /-- The target refuses to attach or to launch, and the connection is closed. -/
  | refuse (t : Nat)
  | number (t : Nat)
  | register (t : Nat)
  /-- `getSession`; the call ends if the id is unknown. -/
  | lookup (t : Nat) (k : Kind) (id : Bytes)
  | lock (t : Nat)
  | request (t : Nat)
  | unlock (t : Nat)
  | hangup (t : Nat)
  | release (t : Nat)
  | delete (t : Nat)
  /-- `Server.Close`. -/
  | shutdown
  deriving DecidableEq, Repr

namespace Sys

def moves (s : Sys) (t : Nat) (p : Phase) : Sys := { s with phase := Function.update s.phase t p }

/-- `Close` on a connection, whether it is open or not. -/
def hangUp (s : Sys) (c : Nat) : Sys := { s with closed := s.closed ++ [c] }

def step (s : Sys) : Event → Option Sys
  | .dial t => match s.phase t with
      | .idle => some { s.moves t (.dialled s.dials) with dials := s.dials + 1 }
      | _ => none
  | .refuse t => match s.phase t with
      | .dialled c => some ((s.moves t .idle).hangUp c)
      | _ => none
  | .number t => match s.phase t with
      | .dialled c => some { s.moves t (.numbered c (s.seq + 1)) with seq := s.seq + 1 }
      | _ => none
  | .register t => match s.phase t with
      | .numbered c n => some { s.moves t .idle with
          sessions := (sessionID n, c) :: s.sessions
          registered := (sessionID n, c) :: s.registered }
      | _ => none
  | .lookup t k id => match s.phase t with
      | .idle => match s.sessions.lookup id with
          | some c => some (s.moves t (.found k id c))
          | none => some s
      | _ => none
  | .lock t => match s.phase t with
      | .found k id c =>
          if s.mu c = none then
            some { s.moves t (.locked k id c) with mu := Function.update s.mu c (some t) }
          else none
      | _ => none
  | .request t => match s.phase t with
      | .locked _ id c => some { s with requests := s.requests ++ [(t, id, c)] }
      | _ => none
  | .unlock t => match s.phase t with
      | .locked .tool _ c => some { s.moves t .idle with mu := Function.update s.mu c none }
      | _ => none
  | .hangup t => match s.phase t with
      | .locked .detach id c => some ((s.moves t (.closing id c)).hangUp c)
      | _ => none
  | .release t => match s.phase t with
      | .closing id c => some { s.moves t (.unlinking id c) with mu := Function.update s.mu c none }
      | _ => none
  | .delete t => match s.phase t with
      | .unlinking id _ => some { s.moves t .idle with
          sessions := s.sessions.filter (·.1 ≠ id)
          removed := id :: s.removed }
      | _ => none
  | .shutdown => some { s with
      closed := s.closed ++ s.sessions.map Prod.snd
      sessions := []
      removed := s.sessions.map Prod.fst ++ s.removed }

/-- What a step can do. -/
theorem step_cases {s s' : Sys} {e : Event} (h : s.step e = some s') :
    (∃ t, s.phase t = .idle ∧ s' = { s.moves t (.dialled s.dials) with dials := s.dials + 1 }) ∨
    (∃ t c, s.phase t = .dialled c ∧ s' = (s.moves t .idle).hangUp c) ∨
    (∃ t c, s.phase t = .dialled c ∧
      s' = { s.moves t (.numbered c (s.seq + 1)) with seq := s.seq + 1 }) ∨
    (∃ t c n, s.phase t = .numbered c n ∧ s' = { s.moves t .idle with
      sessions := (sessionID n, c) :: s.sessions, registered := (sessionID n, c) :: s.registered }) ∨
    (∃ t k id c, s.phase t = .idle ∧ s.sessions.lookup id = some c ∧ s' = s.moves t (.found k id c)) ∨
    s' = s ∨
    (∃ t k id c, s.phase t = .found k id c ∧ s.mu c = none ∧
      s' = { s.moves t (.locked k id c) with mu := Function.update s.mu c (some t) }) ∨
    (∃ t k id c, s.phase t = .locked k id c ∧ s' = { s with requests := s.requests ++ [(t, id, c)] }) ∨
    (∃ t id c, s.phase t = .locked .tool id c ∧
      s' = { s.moves t .idle with mu := Function.update s.mu c none }) ∨
    (∃ t id c, s.phase t = .locked .detach id c ∧ s' = (s.moves t (.closing id c)).hangUp c) ∨
    (∃ t id c, s.phase t = .closing id c ∧
      s' = { s.moves t (.unlinking id c) with mu := Function.update s.mu c none }) ∨
    (∃ t id c, s.phase t = .unlinking id c ∧ s' = { s.moves t .idle with
      sessions := s.sessions.filter (·.1 ≠ id), removed := id :: s.removed }) ∨
    s' = { s with
      closed := s.closed ++ s.sessions.map Prod.snd
      sessions := []
      removed := s.sessions.map Prod.fst ++ s.removed } := by
  cases e <;> simp only [step] at h <;> grind

end Sys

/-! ## The invariant -/

namespace Phase

/-- The connection that only this call knows. -/
def owns : Phase → Option Nat
  | dialled c => some c
  | numbered c _ => some c
  | _ => none

/-- The entry that the call has found. -/
def uses : Phase → Option (Bytes × Nat)
  | found _ id c => some (id, c)
  | locked _ id c => some (id, c)
  | closing id c => some (id, c)
  | unlinking id c => some (id, c)
  | _ => none

/-- The session whose mutex the call holds. -/
def locks : Phase → Option Nat
  | locked _ _ c => some c
  | closing _ c => some c
  | _ => none

/-- The entry that the call has closed and not yet deleted. -/
def ends : Phase → Option (Bytes × Nat)
  | closing id c => some (id, c)
  | unlinking id c => some (id, c)
  | _ => none

/-- The number that only this call has. -/
def number : Phase → Option Nat
  | numbered _ n => some n
  | _ => none

theorem uses_of_ends {p : Phase} {r : Bytes × Nat} (h : p.ends = some r) : p.uses = some r := by
  cases p with
  | closing id c => exact h
  | unlinking id c => exact h
  | _ => exact absurd h (Option.some_ne_none r).symm

end Phase

structure Sound (s : Sys) : Prop where
  closed_lt : ∀ c ∈ s.closed, c < s.dials
  owns : ∀ t c, (s.phase t).owns = some c →
    c < s.dials ∧ c ∉ s.closed ∧ c ∉ s.registered.map Prod.snd
  owns_inj : ∀ t u c, (s.phase t).owns = some c → (s.phase u).owns = some c → t = u
  number : ∀ t n, (s.phase t).number = some n → n ≤ s.seq ∧ sessionID n ∉ s.registered.map Prod.fst
  number_inj : ∀ t u n, (s.phase t).number = some n → (s.phase u).number = some n → t = u
  entered : ∀ r ∈ s.registered, (∃ n ≤ s.seq, r.1 = sessionID n) ∧ r.2 < s.dials
  ids : (s.registered.map Prod.fst).Nodup
  conns : (s.registered.map Prod.snd).Nodup
  current : s.sessions.Sublist s.registered
  removed : ∀ id ∈ s.removed, id ∈ s.registered.map Prod.fst ∧ id ∉ s.sessions.map Prod.fst
  uses : ∀ t r, (s.phase t).uses = some r → r ∈ s.registered
  locks : ∀ t c, (s.phase t).locks = some c → s.mu c = some t
  ended : ∀ t r, (s.phase t).ends = some r → r.2 ∈ s.closed
  requests : ∀ r ∈ s.requests, r.2 ∈ s.registered
  /-- A connection that has not been closed belongs to the call that has just made it, or to
  an entry. -/
  kept : ∀ c < s.dials, c ∉ s.closed →
    (∃ t, (s.phase t).owns = some c) ∨ c ∈ s.sessions.map Prod.snd
  /-- The connection of an entry is open, unless the call that has closed it is about to
  remove the entry. -/
  alive : ∀ r ∈ s.sessions, r.2 ∉ s.closed ∨ ∃ t, (s.phase t).ends = some r

theorem sessionID_injective : Function.Injective sessionID := by
  intro m n h
  exact fmtNat_injective (by decide) (by decide) (List.append_cancel_left h)

theorem sound_init : Sound .init := by
  refine ⟨?_, ?_, ?_, ?_, ?_, ?_, .nil, .nil, List.nil_sublist _, ?_, ?_, ?_, ?_, ?_, ?_, ?_⟩ <;>
    simp [Sys.init, Phase.owns, Phase.number, Phase.uses, Phase.locks, Phase.ends]

variable {s : Sys} {t : Nat} {p : Phase}

/-! What the calls have after call `t` has moved: the others have what they had. -/

theorem moves_self : (s.moves t p).phase t = p := Function.update_self ..

theorem moves_other {u : Nat} (hu : u ≠ t) : (s.moves t p).phase u = s.phase u :=
  Function.update_of_ne hu ..

theorem moves_all {α : Type} (f : Phase → Option α) {Q : Nat → α → Prop}
    (hf : ∀ u a, u ≠ t → f (s.phase u) = some a → Q u a) (hp : ∀ a, f p = some a → Q t a) :
    ∀ u a, f ((s.moves t p).phase u) = some a → Q u a := by
  intro u a h
  by_cases hu : u = t
  · subst hu
    rw [moves_self] at h
    exact hp a h
  · rw [moves_other hu] at h
    exact hf u a hu h

theorem moves_inj {α : Type} (f : Phase → Option α)
    (hf : ∀ u v a, f (s.phase u) = some a → f (s.phase v) = some a → u = v)
    (hp : ∀ u a, u ≠ t → f p = some a → f (s.phase u) ≠ some a) :
    ∀ u v a, f ((s.moves t p).phase u) = some a → f ((s.moves t p).phase v) = some a → u = v := by
  intro u v a hu hv
  by_cases hut : u = t
  · by_cases hvt : v = t
    · rw [hut, hvt]
    · rw [hut, moves_self] at hu
      rw [moves_other hvt] at hv
      exact absurd hv (hp v a hvt hu)
  · rw [moves_other hut] at hu
    by_cases hvt : v = t
    · rw [hvt, moves_self] at hv
      exact absurd hu (hp u a hut hv)
    · rw [moves_other hvt] at hv
      exact hf u v a hu hv

/-! The same for something that `t` does not have afterwards. -/

theorem moves_kept {α : Type} (f : Phase → Option α) {Q : Nat → α → Prop}
    (hf : ∀ u a, f (s.phase u) = some a → Q u a) (hp : f p = none) :
    ∀ u a, f ((s.moves t p).phase u) = some a → Q u a :=
  moves_all f (fun u a _ => hf u a) fun _ ha => absurd (ha.symm.trans hp) (Option.some_ne_none _)

theorem moves_inj_kept {α : Type} (f : Phase → Option α)
    (hf : ∀ u v a, f (s.phase u) = some a → f (s.phase v) = some a → u = v) (hp : f p = none) :
    ∀ u v a, f ((s.moves t p).phase u) = some a → f ((s.moves t p).phase v) = some a → u = v :=
  moves_inj f hf fun _ _ _ ha => absurd (ha.symm.trans hp) (Option.some_ne_none _)

/-- Something that `t` did not have is still there. -/
theorem others_keep {α : Type} {f : Phase → Option α} {a : α} (ht : f (s.phase t) ≠ some a) :
    (∃ u, f (s.phase u) = some a) → ∃ u, f ((s.moves t p).phase u) = some a := by
  rintro ⟨u, h⟩
  have hu : u ≠ t := by
    rintro rfl
    exact ht h
  exact ⟨u, by rw [moves_other hu, h]⟩

/-- A call that keeps its own connection, number and closed entry, with an entry that has
been entered. -/
theorem Sound.moves (hs : Sound s) (howns : (s.phase t).owns = p.owns)
    (hnumber : (s.phase t).number = p.number) (hends : (s.phase t).ends = p.ends)
    (huses : ∀ r, p.uses = some r → r ∈ s.registered) (mu : Nat → Option Nat)
    (hlocks : ∀ u c, ((s.moves t p).phase u).locks = some c → mu c = some u) :
    Sound { s.moves t p with mu := mu } := by
  have hsame : ∀ {α : Type} (f : Phase → Option α), f (s.phase t) = f p → ∀ u,
      f ((s.moves t p).phase u) = f (s.phase u) := by
    intro α f hf u
    by_cases hu : u = t
    · rw [hu, moves_self, hf]
    · rw [moves_other hu]
  have ho := hsame Phase.owns howns
  have hn := hsame Phase.number hnumber
  have he := hsame Phase.ends hends
  refine
    { hs with
      owns := fun u c h => hs.owns u c ((ho u).symm.trans h)
      owns_inj := fun u v c h h' => hs.owns_inj u v c ((ho u).symm.trans h) ((ho v).symm.trans h')
      number := fun u n h => hs.number u n ((hn u).symm.trans h)
      number_inj := fun u v n h h' => hs.number_inj u v n ((hn u).symm.trans h) ((hn v).symm.trans h')
      uses := moves_all Phase.uses (fun u r _ => hs.uses u r) huses
      locks := hlocks
      ended := fun u r h => hs.ended u r ((he u).symm.trans h)
      kept := ?_
      alive := ?_ }
  · intro c hlt hc
    refine (hs.kept c hlt hc).imp_left ?_
    rintro ⟨u, hu⟩
    exact ⟨u, (ho u).trans hu⟩
  · intro r hr
    refine (hs.alive r hr).imp_right ?_
    rintro ⟨u, hu⟩
    exact ⟨u, (he u).trans hu⟩

/-- Two calls that hold the mutex of a session are the same call. -/
theorem Sound.locks_inj (hs : Sound s) {u v c : Nat} (hu : (s.phase u).locks = some c)
    (hv : (s.phase v).locks = some c) : u = v :=
  Option.some.inj ((hs.locks u c hu).symm.trans (hs.locks v c hv))

/-- The mutex of `c` is let go by the call that holds it. -/
theorem Sound.locks_released (hs : Sound s) {c : Nat} (ht : (s.phase t).locks = some c)
    (hp : p.locks = none) :
    ∀ u d, ((s.moves t p).phase u).locks = some d → Function.update s.mu c none d = some u := by
  refine moves_all Phase.locks ?_ (by simp [hp])
  intro u d hne hu
  have hd : d ≠ c := by
    rintro rfl
    exact hne (hs.locks_inj hu ht)
  rw [Function.update_of_ne hd]
  exact hs.locks u d hu

theorem Sound.dial (hs : Sound s) (ht : s.phase t = .idle) :
    Sound { s.moves t (.dialled s.dials) with dials := s.dials + 1 } := by
  have hnew : s.dials ∉ s.registered.map Prod.snd := by
    intro hmem
    obtain ⟨r, hr, heq⟩ := List.mem_map.mp hmem
    exact absurd (hs.entered r hr).2 (by omega)
  have hopen : s.dials ∉ s.closed := fun hmem => Nat.lt_irrefl _ (hs.closed_lt _ hmem)
  refine
    { hs with
      closed_lt := fun c hc => Nat.lt_succ_of_lt (hs.closed_lt c hc)
      owns := moves_all Phase.owns ?_ ?_
      owns_inj := moves_inj Phase.owns hs.owns_inj ?_
      number := moves_kept Phase.number hs.number rfl
      number_inj := moves_inj_kept Phase.number hs.number_inj rfl
      entered := fun r hr => ⟨(hs.entered r hr).1, Nat.lt_succ_of_lt (hs.entered r hr).2⟩
      uses := moves_kept Phase.uses hs.uses rfl
      locks := moves_kept Phase.locks hs.locks rfl
      ended := moves_kept Phase.ends hs.ended rfl
      kept := ?_
      alive := ?_ }
  · intro u c _ hu
    obtain ⟨hlt, hc⟩ := hs.owns u c hu
    exact ⟨Nat.lt_succ_of_lt hlt, hc⟩
  · rintro c ⟨⟩
    exact ⟨Nat.lt_succ_self _, hopen, hnew⟩
  · -- nobody else can have a connection with this number
    rintro u c - ⟨⟩ hu
    exact absurd (hs.owns u _ hu).1 (Nat.lt_irrefl _)
  · intro c hlt hc
    rcases Nat.lt_succ_iff_lt_or_eq.mp hlt with hlt | rfl
    · exact (hs.kept c hlt hc).imp_left (others_keep (by simp [ht, Phase.owns]))
    · exact .inl ⟨t, congrArg Phase.owns moves_self⟩
  · intro r hr
    exact (hs.alive r hr).imp_right (others_keep (by simp [ht, Phase.ends]))

/-- What is closed once more. -/
theorem not_mem_hangUp {c d : Nat} (hd : d ∉ s.closed) (hne : d ≠ c) : d ∉ (s.hangUp c).closed := by
  rw [Sys.hangUp, List.mem_append, List.mem_singleton, not_or]
  exact ⟨hd, hne⟩

theorem mem_hangUp {c d : Nat} (hd : d ∈ s.closed) : d ∈ (s.hangUp c).closed :=
  List.mem_append_left _ hd

theorem Sound.refuse (hs : Sound s) {c : Nat} (ht : s.phase t = .dialled c) :
    Sound ((s.moves t .idle).hangUp c) := by
  have howned : (s.phase t).owns = some c := by rw [ht]; rfl
  obtain ⟨hltc, -, hfresh⟩ := hs.owns t c howned
  refine
    { hs with
      closed_lt := ?_
      owns := moves_all Phase.owns ?_ (by simp [Phase.owns])
      owns_inj := moves_inj_kept Phase.owns hs.owns_inj rfl
      number := moves_kept Phase.number hs.number rfl
      number_inj := moves_inj_kept Phase.number hs.number_inj rfl
      uses := moves_kept Phase.uses hs.uses rfl
      locks := moves_kept Phase.locks hs.locks rfl
      ended := moves_kept Phase.ends (fun u r h => mem_hangUp (hs.ended u r h)) rfl
      kept := ?_
      alive := ?_ }
  · intro d hd
    rcases List.mem_append.mp hd with hd | hd
    · exact hs.closed_lt d hd
    · rw [List.mem_singleton.mp hd]
      exact hltc
  · intro u d hne hu
    obtain ⟨hlt, hopen, hnew⟩ := hs.owns u d hu
    have hd : d ≠ c := by
      rintro rfl
      exact hne (hs.owns_inj u t d hu howned)
    exact ⟨hlt, not_mem_hangUp hopen hd, hnew⟩
  · intro d hlt hd
    obtain ⟨hopen, hne⟩ := not_or.mp (mt List.mem_append.mpr hd)
    refine (hs.kept d hlt hopen).imp_left (others_keep ?_)
    rw [howned]
    exact fun h => hne (List.mem_singleton.mpr (Option.some.inj h).symm)
  · intro r hr
    refine (hs.alive r hr).imp ?_ (others_keep (by simp [ht, Phase.ends]))
    intro hopen
    refine not_mem_hangUp hopen ?_
    rintro rfl
    exact hfresh (List.mem_map_of_mem (hs.current.subset hr))

theorem Sound.numbers (hs : Sound s) {c : Nat} (ht : s.phase t = .dialled c) :
    Sound { s.moves t (.numbered c (s.seq + 1)) with seq := s.seq + 1 } := by
  have howned : (s.phase t).owns = some c := by rw [ht]; rfl
  have hnew : sessionID (s.seq + 1) ∉ s.registered.map Prod.fst := by
    intro hmem
    obtain ⟨r, hr, heq⟩ := List.mem_map.mp hmem
    obtain ⟨⟨n, hn, hid⟩, -⟩ := hs.entered r hr
    have := sessionID_injective (hid.symm.trans heq)
    omega
  refine
    { hs with
      owns := moves_all Phase.owns (fun u d _ => hs.owns u d) ?_
      owns_inj := moves_inj Phase.owns hs.owns_inj ?_
      number := moves_all Phase.number ?_ ?_
      number_inj := moves_inj Phase.number hs.number_inj ?_
      entered := ?_
      uses := moves_kept Phase.uses hs.uses rfl
      locks := moves_kept Phase.locks hs.locks rfl
      ended := moves_kept Phase.ends hs.ended rfl
      kept := ?_
      alive := ?_ }
  · rintro d ⟨⟩
    exact hs.owns t c howned
  · rintro u d hne ⟨⟩ hu
    exact hne (hs.owns_inj u t c hu howned)
  · intro u n _ hu
    exact ⟨Nat.le_succ_of_le (hs.number u n hu).1, (hs.number u n hu).2⟩
  · rintro n ⟨⟩
    exact ⟨le_rfl, hnew⟩
  · rintro u n - ⟨⟩ hu
    exact absurd (hs.number u _ hu).1 (by omega)
  · intro r hr
    obtain ⟨⟨n, hn, hid⟩, hlt⟩ := hs.entered r hr
    exact ⟨⟨n, Nat.le_succ_of_le hn, hid⟩, hlt⟩
  · intro d hlt hd
    refine (hs.kept d hlt hd).imp_left ?_
    rintro ⟨u, hu⟩
    by_cases hut : u = t
    · subst hut
      exact ⟨u, (congrArg Phase.owns moves_self).trans (howned.symm.trans hu)⟩
    · exact ⟨u, (congrArg Phase.owns (moves_other hut)).trans hu⟩
  · intro r hr
    exact (hs.alive r hr).imp_right (others_keep (by simp [ht, Phase.ends]))

theorem Sound.register (hs : Sound s) {c n : Nat} (ht : s.phase t = .numbered c n) :
    Sound { s.moves t .idle with
      sessions := (sessionID n, c) :: s.sessions
      registered := (sessionID n, c) :: s.registered } := by
  have howned : (s.phase t).owns = some c := by rw [ht]; rfl
  have hnumbered : (s.phase t).number = some n := by rw [ht]; rfl
  obtain ⟨hlt, hopen, hfresh⟩ := hs.owns t c howned
  obtain ⟨hle, hunused⟩ := hs.number t n hnumbered
  refine
    { hs with
      owns := moves_all Phase.owns ?_ (by simp [Phase.owns])
      owns_inj := moves_inj_kept Phase.owns hs.owns_inj rfl
      number := moves_all Phase.number ?_ (by simp [Phase.number])
      number_inj := moves_inj_kept Phase.number hs.number_inj rfl
      entered := ?_
      ids := List.nodup_cons.mpr ⟨hunused, hs.ids⟩
      conns := List.nodup_cons.mpr ⟨hfresh, hs.conns⟩
      current := hs.current.cons_cons _
      removed := ?_
      uses := moves_kept Phase.uses (fun u r h => List.mem_cons_of_mem _ (hs.uses u r h)) rfl
      locks := moves_kept Phase.locks hs.locks rfl
      ended := moves_kept Phase.ends hs.ended rfl
      requests := fun r hr => List.mem_cons_of_mem _ (hs.requests r hr)
      kept := ?_
      alive := ?_ }
  · intro u d hne hu
    obtain ⟨hd, hdopen, hdfresh⟩ := hs.owns u d hu
    refine ⟨hd, hdopen, ?_⟩
    rw [List.map_cons, List.mem_cons, not_or]
    refine ⟨?_, hdfresh⟩
    rintro rfl
    exact hne (hs.owns_inj u t d hu howned)
  · intro u m hne hu
    obtain ⟨hm, hmfresh⟩ := hs.number u m hu
    refine ⟨hm, ?_⟩
    rw [List.map_cons, List.mem_cons, not_or]
    refine ⟨?_, hmfresh⟩
    intro heq
    obtain rfl := sessionID_injective heq
    exact hne (hs.number_inj u t m hu hnumbered)
  · intro r hr
    rcases List.mem_cons.mp hr with rfl | hr
    · exact ⟨⟨n, hle, rfl⟩, hlt⟩
    · exact hs.entered r hr
  · intro id hid
    obtain ⟨hmem, hgone⟩ := hs.removed id hid
    refine ⟨List.mem_cons_of_mem _ hmem, ?_⟩
    rw [List.map_cons, List.mem_cons, not_or]
    refine ⟨?_, hgone⟩
    rintro rfl
    exact hunused hmem
  · -- the connection goes over from the call to the entry
    intro d hlt hd
    by_cases hdc : d = c
    · rw [hdc]
      exact .inr List.mem_cons_self
    · refine (hs.kept d hlt hd).imp (others_keep ?_) (List.mem_cons_of_mem _)
      rw [howned]
      exact fun h => hdc (Option.some.inj h).symm
  · intro r hr
    rcases List.mem_cons.mp hr with rfl | hr
    · exact .inl hopen
    · exact (hs.alive r hr).imp_right (others_keep (by simp [ht, Phase.ends]))

theorem Sound.hangup (hs : Sound s) {id : Bytes} {c : Nat} (ht : s.phase t = .locked .detach id c) :
    Sound ((s.moves t (.closing id c)).hangUp c) := by
  have huses : (id, c) ∈ s.registered := hs.uses t _ (by rw [ht]; rfl)
  refine
    { hs with
      closed_lt := ?_
      owns := moves_all Phase.owns ?_ (by simp [Phase.owns])
      owns_inj := moves_inj_kept Phase.owns hs.owns_inj rfl
      number := moves_kept Phase.number hs.number rfl
      number_inj := moves_inj_kept Phase.number hs.number_inj rfl
      uses := moves_all Phase.uses (fun u r _ => hs.uses u r) ?_
      locks := moves_all Phase.locks (fun u d _ => hs.locks u d) ?_
      ended := moves_all Phase.ends (fun u r _ h => mem_hangUp (hs.ended u r h)) ?_
      kept := ?_
      alive := ?_ }
  · intro d hd
    rcases List.mem_append.mp hd with hd | hd
    · exact hs.closed_lt d hd
    · rw [List.mem_singleton.mp hd]
      exact (hs.entered _ huses).2
  · intro u d _ hu
    obtain ⟨hlt, hopen, hfresh⟩ := hs.owns u d hu
    refine ⟨hlt, not_mem_hangUp hopen ?_, hfresh⟩
    rintro rfl
    exact hfresh (List.mem_map_of_mem huses)
  · rintro r ⟨⟩
    exact huses
  · rintro d ⟨⟩
    exact hs.locks t c (by rw [ht]; rfl)
  · rintro r ⟨⟩
    exact List.mem_append_right _ (List.mem_singleton.mpr rfl)
  · intro d hlt hd
    have hopen := (not_or.mp (mt List.mem_append.mpr hd)).1
    exact (hs.kept d hlt hopen).imp_left (others_keep (by simp [ht, Phase.owns]))
  · intro r hr
    by_cases hrc : r.2 = c
    · -- this is the entry that the call was given
      obtain rfl : r = (id, c) := by
        have hinj := List.inj_on_of_nodup_map hs.conns (hs.current.subset hr) huses
        exact hinj hrc
      exact .inr ⟨t, congrArg Phase.ends moves_self⟩
    · refine (hs.alive r hr).imp ?_ (others_keep (by simp [ht, Phase.ends]))
      exact fun hopen => not_mem_hangUp hopen hrc

theorem Sound.delete (hs : Sound s) {id : Bytes} {c : Nat} (ht : s.phase t = .unlinking id c) :
    Sound { s.moves t .idle with
      sessions := s.sessions.filter (·.1 ≠ id)
      removed := id :: s.removed } := by
  have hended : (s.phase t).ends = some (id, c) := by rw [ht]; rfl
  have huses := hs.uses t _ (Phase.uses_of_ends hended)
  have hfilter : ∀ r ∈ s.sessions.filter (·.1 ≠ id), r ∈ s.sessions ∧ r.1 ≠ id := by
    intro r hr
    exact ⟨List.mem_of_mem_filter hr, by simpa using (List.mem_filter.mp hr).2⟩
  refine
    { hs with
      owns := moves_kept Phase.owns hs.owns rfl
      owns_inj := moves_inj_kept Phase.owns hs.owns_inj rfl
      number := moves_kept Phase.number hs.number rfl
      number_inj := moves_inj_kept Phase.number hs.number_inj rfl
      current := List.filter_sublist.trans hs.current
      removed := ?_
      uses := moves_kept Phase.uses hs.uses rfl
      locks := moves_kept Phase.locks hs.locks rfl
      ended := moves_kept Phase.ends hs.ended rfl
      kept := ?_
      alive := ?_ }
  · intro id' hid
    rcases List.mem_cons.mp hid with rfl | hid
    · refine ⟨List.mem_map_of_mem huses, ?_⟩
      intro hmem
      obtain ⟨r, hr, heq⟩ := List.mem_map.mp hmem
      exact (hfilter r hr).2 heq
    · exact ⟨(hs.removed id' hid).1, fun hmem => (hs.removed id' hid).2
        ((List.filter_sublist.map Prod.fst).subset hmem)⟩
  · intro d hlt hd
    refine (hs.kept d hlt hd).imp (others_keep (by simp [ht, Phase.owns])) ?_
    intro hmem
    obtain ⟨r, hr, rfl⟩ := List.mem_map.mp hmem
    refine List.mem_map_of_mem (List.mem_filter.mpr ⟨hr, ?_⟩)
    rw [decide_eq_true_iff]
    -- the entry that goes is the closed one
    intro hid
    have hinj := List.inj_on_of_nodup_map hs.ids (hs.current.subset hr) huses
    rw [hinj hid] at hd
    exact hd (hs.ended t _ hended)
  · intro r hr
    obtain ⟨hr, hid⟩ := hfilter r hr
    refine (hs.alive r hr).imp_right (others_keep ?_)
    rw [hended]
    rintro ⟨⟩
    exact hid rfl

theorem Sound.shutdown (hs : Sound s) :
    Sound { s with
      closed := s.closed ++ s.sessions.map Prod.snd
      sessions := []
      removed := s.sessions.map Prod.fst ++ s.removed } := by
  have hentered : ∀ c ∈ s.sessions.map Prod.snd, c ∈ s.registered.map Prod.snd :=
    fun c hc => (hs.current.map Prod.snd).subset hc
  refine
    { hs with
      closed_lt := ?_
      owns := ?_
      current := List.nil_sublist _
      removed := ?_
      ended := fun u r h => List.mem_append_left _ (hs.ended u r h)
      kept := ?_
      alive := by simp }
  · intro c hc
    rcases List.mem_append.mp hc with hc | hc
    · exact hs.closed_lt c hc
    · obtain ⟨r, hr, rfl⟩ := List.mem_map.mp (hentered c hc)
      exact (hs.entered r hr).2
  · intro u c hu
    obtain ⟨hlt, hopen, hfresh⟩ := hs.owns u c hu
    refine ⟨hlt, ?_, hfresh⟩
    rw [List.mem_append, not_or]
    exact ⟨hopen, fun hmem => hfresh (hentered c hmem)⟩
  · intro id hid
    refine ⟨?_, by simp⟩
    rcases List.mem_append.mp hid with hid | hid
    · exact (hs.current.map Prod.fst).subset hid
    · exact (hs.removed id hid).1
  · intro c hlt hc
    obtain ⟨hopen, hgone⟩ := not_or.mp (mt List.mem_append.mpr hc)
    exact (hs.kept c hlt hopen).imp_right fun hmem => absurd hmem hgone

theorem mem_of_lookup {l : List (Bytes × Nat)} {id : Bytes} {c : Nat} (h : l.lookup id = some c) :
    (id, c) ∈ l := by
  obtain ⟨l₁, l₂, rfl, -⟩ := List.lookup_eq_some_iff.mp h
  simp

theorem Sound.step {s' : Sys} {e : Event} (hs : Sound s) (h : s.step e = some s') : Sound s' := by
  obtain ⟨t, ht, rfl⟩ | ⟨t, c, ht, rfl⟩ | ⟨t, c, ht, rfl⟩ | ⟨t, c, n, ht, rfl⟩ |
    ⟨t, k, id, c, ht, hid, rfl⟩ | rfl | ⟨t, k, id, c, ht, hfree, rfl⟩ | ⟨t, k, id, c, ht, rfl⟩ |
    ⟨t, id, c, ht, rfl⟩ | ⟨t, id, c, ht, rfl⟩ | ⟨t, id, c, ht, rfl⟩ | ⟨t, id, c, ht, rfl⟩ | rfl :=
    Sys.step_cases h
  · exact hs.dial ht
  · exact hs.refuse ht
  · exact hs.numbers ht
  · exact hs.register ht
  · -- the entry that was found is one of those entered
    have hmem : (id, c) ∈ s.registered := hs.current.subset (mem_of_lookup hid)
    refine hs.moves (by rw [ht]; rfl) (by rw [ht]; rfl) (by rw [ht]; rfl) ?_ s.mu
      (moves_kept Phase.locks hs.locks rfl)
    rintro r ⟨⟩
    exact hmem
  · exact hs
  · refine hs.moves (by rw [ht]; rfl) (by rw [ht]; rfl) (by rw [ht]; rfl) ?_ _ ?_
    · rintro r ⟨⟩
      exact hs.uses t _ (by rw [ht]; rfl)
    · -- the mutex was free, so nobody else is inside
      refine moves_all Phase.locks ?_ ?_
      · intro u d _ hu
        have hheld := hs.locks u d hu
        have hd : d ≠ c := by
          rintro rfl
          exact absurd (hfree.symm.trans hheld) (by simp)
        rw [Function.update_of_ne hd]
        exact hheld
      · rintro d ⟨⟩
        exact Function.update_self ..
  · refine { hs with requests := ?_ }
    intro r hr
    rcases List.mem_append.mp hr with hr | hr
    · exact hs.requests r hr
    · rw [List.mem_singleton.mp hr]
      exact hs.uses t _ (by rw [ht]; rfl)
  · exact hs.moves (by rw [ht]; rfl) (by rw [ht]; rfl) (by rw [ht]; rfl) (by rintro r ⟨⟩) _
      (hs.locks_released (by rw [ht]; rfl) rfl)
  · exact hs.hangup ht
  · refine hs.moves (by rw [ht]; rfl) (by rw [ht]; rfl) (by rw [ht]; rfl) ?_ _
      (hs.locks_released (by rw [ht]; rfl) rfl)
    rintro r ⟨⟩
    exact hs.uses t _ (by rw [ht]; rfl)
  · exact hs.delete ht
  · exact hs.shutdown

/-! ## Runs -/

theorem sound_of_run {es : List Event} (h : runFrom Sys.step .init es = some s) : Sound s :=
  invariant_of_runFrom Sound (fun _ _ _ hs hstep => hs.step hstep) sound_init h

/-- **Sessions are neither mixed up nor lost.** In every run of calls that open, use and end
sessions, with the server shutting down at any moment: no session id and no connection is
entered twice; what an id stands for is what was entered under it; a call writes only to the
connection that was entered under the id it was given, and no two calls are inside one
session; an id that has been removed is unknown from then on; and when no call is under
way, the connections that have not been closed are exactly those of the entries. A call
that has found its session before the entry is removed goes on with it all the same, so a
request may come behind a `Close`, and a second `Close` too. -/
theorem sessions_sound (es : List Event) {s : Sys} (h : runFrom Sys.step .init es = some s) :
    ((s.registered.map Prod.fst).Nodup ∧ (s.registered.map Prod.snd).Nodup) ∧
      (∀ id c, s.sessions.lookup id = some c → (id, c) ∈ s.registered) ∧
      (∀ r ∈ s.requests, r.2 ∈ s.registered) ∧
      (∀ t u c, (s.phase t).locks = some c → (s.phase u).locks = some c → t = u) ∧
      (∀ id ∈ s.removed, s.sessions.lookup id = none) ∧
      ((∀ t, s.phase t = .idle) → ∀ c < s.dials, c ∈ s.closed ↔ c ∉ s.sessions.map Prod.snd) := by
  have hs := sound_of_run h
  refine ⟨⟨hs.ids, hs.conns⟩, fun id c hid => hs.current.subset (mem_of_lookup hid), hs.requests,
    fun t u c => hs.locks_inj, ?_, ?_⟩
  · intro id hid
    rw [List.lookup_eq_none_iff]
    intro r hr
    rw [bne_iff_ne]
    rintro rfl
    exact (hs.removed _ hid).2 (List.mem_map_of_mem hr)
  · intro hidle c hlt
    refine ⟨?_, ?_⟩
    · intro hc hmem
      obtain ⟨r, hr, rfl⟩ := List.mem_map.mp hmem
      rcases hs.alive r hr with hopen | ⟨t, ht⟩
      · exact hopen hc
      · rw [hidle t] at ht
        exact absurd ht (by simp [Phase.ends])
    · intro hmem
      by_contra hc
      rcases hs.kept c hlt hc with ⟨t, ht⟩ | hentry
      · rw [hidle t] at ht
        exact absurd ht (by simp [Phase.owns])
      · exact hmem hentry

/-- Two sessions are opened at once; one of them is used by a call while two others detach
it; the server shuts down before the other one has been entered. -/
def crossing : List Event :=
  [.dial 0, .dial 1, .number 1, .number 0, .register 0, .lookup 2 .tool (sessionID 2),
    .lookup 3 .detach (sessionID 2), .lookup 4 .detach (sessionID 2), .lock 3, .request 3,
    .hangup 3, .release 3, .lock 2, .request 2, .delete 3, .unlock 2, .lock 4, .request 4,
    .hangup 4, .release 4, .delete 4, .shutdown, .register 1]

/-- The session that was entered last is open and the only one; the calls that came too late
wrote to the connection of their own session, which was closed by then, and the second
detach has closed it again. -/
theorem sessions_sound_crossing : ∃ s, runFrom Sys.step .init crossing = some s ∧
    s.sessions = [(sessionID 1, 1)] ∧
    s.requests = [(3, sessionID 2, 0), (2, sessionID 2, 0), (4, sessionID 2, 0)] ∧
    s.closed = [0, 0] ∧ (1 ∈ s.closed ↔ 1 ∉ s.sessions.map Prod.snd) ∧
    s.sessions.lookup (sessionID 2) = none := by
  have hrun : ∃ s, runFrom Sys.step .init crossing = some s ∧ s.sessions = [(sessionID 1, 1)] ∧
      s.requests = [(3, sessionID 2, 0), (2, sessionID 2, 0), (4, sessionID 2, 0)] ∧
      s.closed = [0, 0] ∧ s.dials = 2 ∧ s.removed = [sessionID 2, sessionID 2] ∧
      ∀ t, s.phase t = .idle := by
    refine ⟨_, rfl, rfl, rfl, rfl, rfl, rfl, ?_⟩
    intro t
    rcases t with _ | _ | _ | _ | _ | t <;> rfl
  obtain ⟨s, h, hsessions, hrequests, hclosed, hdials, hremoved, hidle⟩ := hrun
  obtain ⟨-, -, -, -, hgone, hquiet⟩ := sessions_sound crossing h
  exact ⟨s, h, hsessions, hrequests, hclosed, hquiet hidle 1 (by omega),
    hgone _ (by rw [hremoved]; exact List.mem_cons_self)⟩

end QconnMcp.Tools.Registry
