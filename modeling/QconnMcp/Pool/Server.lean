import QconnMcp.Kit.Run
import QconnMcp.Qconn.Client

/-!
# The pooled client of the MCP server

`Server.client`, `Server.resetClient` and `Server.cli` of `internal/mcpserver`:
the server keeps one qconn client and the debug manager built on it. `client` and
`resetClient` each hold the server's mutex, `cli` does not hold it between them,
and `dialPdebug` reads the manager without it.

The second half runs any number of calls against one server, with these critical
sections as the steps. A failed call resets the client later than it failed, and
by then another call may have dialled: `lifetime_iff` says that this is the only
way in which a client in use is closed or the manager is missing.
-/

namespace QconnMcp.Pool

open Kit Qconn

/-! ## The server -/

/-- `conn` and `mgr`, the manager being known by its client. `closed` is a ghost:
the clients closed so far. -/
structure Server (γ : Type) where
  conn : Option γ
  mgr : Option γ
  closed : List γ
  deriving DecidableEq, Repr

section Methods

variable {γ : Type}

/-- A server that has not dialled. -/
def Server.new : Server γ := ⟨none, none, []⟩

/-- `client`; `dialled` is what a dial would give now. -/
def client (dialled : Except Err γ) : StateM (Server γ) (Except Err γ) := fun s =>
  match s.conn with
  | some c => (.ok c, s)
  | none =>
      match dialled with
      | .error e => (.error e, s)
      | .ok c => (.ok c, { s with conn := some c, mgr := some c })

/-- `resetClient`. -/
def resetClient : StateM (Server γ) Unit := fun s =>
  match s.conn with
  | some c => ((), ⟨none, none, c :: s.closed⟩)
  | none => ((), s)

/-- `cli`: the pooled client, and a reset after a failed dial. -/
def cli (dialled : Except Err γ) : StateM (Server γ) (Except Err γ) := do
  match ← client dialled with
  | .error e =>
      resetClient
      pure (.error e)
  | .ok c => pure (.ok c)

end Methods

/-! ## Concurrent calls -/

/-- Where a call is: not started, behind a failed `client` with `resetClient`
still to come, or returned from `cli` with a client. -/
inductive Phase where
  | idle
  | failed
  | holds (c : Nat)
  deriving DecidableEq, Repr

/-- The server and its calls. Clients are numbers, those from `fresh` on not yet
given to one; `returned` are the clients that some `cli` has returned. -/
structure Sys where
  server : Server Nat
  phase : Nat → Phase
  fresh : Nat
  returned : List Nat

def Sys.init : Sys := ⟨.new, fun _ => .idle, 0, []⟩

/-- A step of call `t`. -/
inductive Event where
  /-- `client`, with a dial that succeeds or fails if there is one. -/
  | client (t : Nat) (dialOk : Bool)
  /-- The `resetClient` of a failed `cli`. -/
  | reset (t : Nat)
  /-- `dialPdebug` dereferences the manager. -/
  | deref (t : Nat)
  /-- The tool call returns. -/
  | finish (t : Nat)
  deriving DecidableEq, Repr

/-- Record what `client` returned to call `t`. -/
def Sys.returns (s : Sys) (t : Nat) : Except Err Nat × Server Nat → Sys
  | (.error _, server) => { s with server := server, phase := Function.update s.phase t .failed }
  | (.ok c, server) =>
      ⟨server, Function.update s.phase t (.holds c), s.fresh + 1, c :: s.returned⟩

def Sys.step (s : Sys) : Event → Option Sys
  | .client t dialOk =>
      if s.phase t = .idle then
        let dialled := if dialOk then .ok s.fresh else .error .dialFailed
        some (s.returns t ((client dialled).run s.server))
      else none
  | .reset t =>
      if s.phase t = .failed then
        some { s with
          server := (resetClient.run s.server).2
          phase := Function.update s.phase t .idle }
      else none
  | .deref t => match s.phase t with
      | .holds _ => some s
      | _ => none
  | .finish t => match s.phase t with
      | .holds _ => some { s with phase := Function.update s.phase t .idle }
      | _ => none

/-- What is expected of a step: behind the reset of a failed call no client that a
`cli` has returned is closed, and a call that `cli` has given a client finds the
manager there. -/
def Safe (s : Sys) : Event → Prop
  | .reset t => s.phase t = .failed → ∀ c ∈ s.returned, c ∉ (resetClient.run s.server).2.closed
  | .deref t => ∀ c, s.phase t = .holds c → s.server.mgr ≠ none
  | _ => True

/-- The reset of a failed call finds no client. -/
def ResetsNothing (s : Sys) : Event → Prop
  | .reset t => s.phase t = .failed → s.server.conn = none
  | _ => True

/-! ## Lifetime of the pooled client -/

/-- What `client` does to the server: nothing, or a dial. -/
theorem client_cases {γ : Type} (dialled : Except Err γ) (s : Server γ) :
    (∃ c, s.conn = some c ∧ (client dialled).run s = (.ok c, s)) ∨
      (∃ e, s.conn = none ∧ (client dialled).run s = (.error e, s)) ∨
      ∃ c, s.conn = none ∧ dialled = .ok c ∧
        (client dialled).run s = (.ok c, { s with conn := some c, mgr := some c }) := by
  cases hconn : s.conn with
  | some c =>
      refine .inl ⟨c, rfl, ?_⟩
      simp only [client, StateT.run, hconn]
  | none =>
      cases dialled with
      | error e =>
          refine .inr (.inl ⟨e, rfl, ?_⟩)
          simp only [client, StateT.run, hconn]
      | ok c =>
          refine .inr (.inr ⟨c, rfl, rfl, ?_⟩)
          simp only [client, StateT.run, hconn]

theorem resetClient_none {γ : Type} {s : Server γ} (h : s.conn = none) :
    (resetClient.run s).2 = s := by
  simp only [resetClient, StateT.run, h]

theorem resetClient_closed {γ : Type} {s : Server γ} {c : γ} (h : s.conn = some c) :
    (resetClient.run s).2.closed = c :: s.closed := by
  simp only [resetClient, StateT.run, h]

theorem resetClient_conn {γ : Type} (s : Server γ) : (resetClient.run s).2.conn = none := by
  cases h : s.conn with
  | none => rw [resetClient_none h, h]
  | some c => simp only [resetClient, StateT.run, h]

/-- What a step can do. -/
theorem step_cases {s s' : Sys} {e : Event} (h : s.step e = some s') :
    (∃ t c fresh, e = .client t fresh ∧ s.server.conn = some c ∧
      s' = s.returns t (.ok c, s.server)) ∨
    (∃ t err ok, e = .client t ok ∧ s.server.conn = none ∧
      s' = s.returns t (.error err, s.server)) ∨
    (∃ t c ok, e = .client t ok ∧ s.server.conn = none ∧
      s' = s.returns t (.ok c, { s.server with conn := some c, mgr := some c })) ∨
    (∃ t, e = .reset t ∧ s.phase t = .failed ∧ s' = { s with
      server := (resetClient.run s.server).2, phase := Function.update s.phase t .idle }) ∨
    (∃ t, e = .deref t ∧ s' = s) ∨
    ∃ t, e = .finish t ∧ s' = { s with phase := Function.update s.phase t .idle } := by
  cases e with
  | client t ok =>
      simp only [Sys.step] at h
      split at h
      · obtain rfl := Option.some.inj h
        rcases client_cases (if ok then .ok s.fresh else .error .dialFailed) s.server with
          ⟨c, hconn, hrun⟩ | ⟨err, hconn, hrun⟩ | ⟨c, hconn, -, hrun⟩
        · exact .inl ⟨t, c, ok, rfl, hconn, by rw [hrun]⟩
        · exact .inr (.inl ⟨t, err, ok, rfl, hconn, by rw [hrun]⟩)
        · exact .inr (.inr (.inl ⟨t, c, ok, rfl, hconn, by rw [hrun]⟩))
      · cases h
  | reset t =>
      simp only [Sys.step] at h
      split at h
      · exact .inr (.inr (.inr (.inl ⟨t, rfl, ‹_›, (Option.some.inj h).symm⟩)))
      · cases h
  | deref t =>
      simp only [Sys.step] at h
      split at h
      · exact .inr (.inr (.inr (.inr (.inl ⟨t, rfl, (Option.some.inj h).symm⟩))))
      · cases h
  | finish t =>
      simp only [Sys.step] at h
      split at h
      · exact .inr (.inr (.inr (.inr (.inr ⟨t, rfl, (Option.some.inj h).symm⟩))))
      · cases h

/-- In every run the pooled client has been returned to some call. -/
def PooledReturned (s : Sys) : Prop := ∀ c ∈ s.server.conn, c ∈ s.returned

theorem pooledReturned_step {s s' : Sys} {e : Event} (hs : PooledReturned s)
    (h : s.step e = some s') : PooledReturned s' := by
  intro c hc
  rcases step_cases h with ⟨t, d, _, -, -, rfl⟩ | ⟨t, err, _, -, -, rfl⟩ | ⟨t, d, _, -, -, rfl⟩ |
    ⟨t, -, -, rfl⟩ | ⟨t, -, rfl⟩ | ⟨t, -, rfl⟩
  · exact List.mem_cons_of_mem _ (hs c hc)
  · exact hs c hc
  · obtain rfl : d = c := Option.some.inj hc
    exact List.mem_cons_self
  · have hnone := resetClient_conn s.server
    rw [Option.mem_def] at hc
    exact absurd (hnone.symm.trans hc) (by simp)
  · exact hs c hc
  · exact hs c hc

/-- As long as resets find nothing: no client has been closed, the manager is the
pooled client's, and a call that holds a client finds one pooled. -/
structure Kept (s : Sys) : Prop where
  closed : s.server.closed = []
  mgr : s.server.mgr = s.server.conn
  held : ∀ t c, s.phase t = .holds c → s.server.conn ≠ none

/-- A call that has just returned or failed changes no other call's phase. -/
theorem holds_of_update {phase : Nat → Phase} {t u : Nat} {p : Phase} {c : Nat}
    (hp : ∀ c, p ≠ .holds c) (h : Function.update phase t p u = .holds c) : phase u = .holds c := by
  by_cases hu : u = t
  · subst hu
    rw [Function.update_self] at h
    exact absurd h (hp c)
  · rwa [Function.update_of_ne hu] at h

theorem kept_step {s s' : Sys} {e : Event} (hs : Kept s) (hg : ResetsNothing s e)
    (h : s.step e = some s') : Kept s' := by
  rcases step_cases h with ⟨t, d, _, -, hconn, rfl⟩ | ⟨t, err, _, -, hconn, rfl⟩ |
    ⟨t, d, _, -, -, rfl⟩ | ⟨t, rfl, hfailed, rfl⟩ | ⟨t, -, rfl⟩ | ⟨t, -, rfl⟩
  · refine ⟨hs.closed, hs.mgr, ?_⟩
    intro u c _ hnone
    exact absurd (hconn.symm.trans hnone) (by simp)
  · exact ⟨hs.closed, hs.mgr, fun u c hu => hs.held u c (holds_of_update (by simp) hu)⟩
  · exact ⟨hs.closed, rfl, fun u c _ => by simp [Sys.returns]⟩
  · rw [show (resetClient.run s.server).2 = s.server from resetClient_none (hg hfailed)]
    exact ⟨hs.closed, hs.mgr, fun u c hu => hs.held u c (holds_of_update (by simp) hu)⟩
  · exact hs
  · exact ⟨hs.closed, hs.mgr, fun u c hu => hs.held u c (holds_of_update (by simp) hu)⟩

/-- **Lifetime.** In a run of any number of calls, no client that a `cli` has
returned is closed by a reset and the manager is never missing, if and only if
every reset of a failed call finds no client. -/
theorem lifetime_iff (es : List Event) :
    Along Sys.step Safe .init es ↔ Along Sys.step ResetsNothing .init es := by
  constructor
  · -- a pooled client has been returned, so a safe reset cannot find one
    have hinit : PooledReturned .init := fun c hc => by simp [Sys.init, Server.new] at hc
    refine Along.of_invariant (fun s e s' hs _ h => pooledReturned_step hs h) ?_ hinit
    intro s e hs hsafe
    cases e with
    | reset t =>
        intro hfailed
        cases hconn : s.server.conn with
        | none => rfl
        | some c =>
            refine absurd ?_ (hsafe hfailed c (hs c hconn))
            rw [resetClient_closed hconn]
            exact List.mem_cons_self
    | client t ok => trivial
    | deref t => trivial
    | finish t => trivial
  · have hinit : Kept .init := ⟨rfl, rfl, fun t c h => by simp [Sys.init] at h⟩
    refine Along.of_invariant (fun s e s' hs hg h => kept_step hs hg h) ?_ hinit
    intro s e hs hg
    cases e with
    | reset t =>
        intro hfailed c _
        rw [resetClient_none (hg hfailed), hs.closed]
        exact List.not_mem_nil
    | deref t =>
        intro c hc
        rw [hs.mgr]
        exact hs.held t c hc
    | client t ok => trivial
    | finish t => trivial

/-- The run that goes wrong: call 0 fails to dial, call 1 dials and returns its
client, call 0 resets, call 1 goes on to the debugger. -/
def overtaken : List Event := [.client 0 false, .client 1 true, .reset 0, .deref 1]

/-- The client that call 1 holds is closed by the reset of call 0, and the
manager call 1 dereferences is gone. -/
theorem overtaken_closes_client :
    (∃ s, runFrom Sys.step .init overtaken = some s ∧ s.phase 1 = .holds 0 ∧ 0 ∈ s.returned ∧
      s.server.closed = [0] ∧ s.server.mgr = none) ∧
    ¬ Along Sys.step Safe .init overtaken := by
  refine ⟨⟨_, rfl, rfl, by decide, rfl, rfl⟩, ?_⟩
  intro h
  exact (h.2 _ rfl).2 _ rfl |>.1 rfl 0 (by decide) (by decide)

end QconnMcp.Pool
