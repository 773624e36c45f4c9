import QconnMcp.Qnxdbg.Fields

/-!
# Launching a program

`Launch` stages the environment and the arguments of the program in two tables of
the target, one message for each string, and then sends a Load that refers to the
staged arguments by number.

The target is modelled as these tables beside an agent of which nothing is assumed:
`policy` says for each message what the agent does with it. `launch_staged` is the
contract of the whole exchange: when the agent accepts every message, the Load finds
the requested program in the tables; when it does not accept one of the messages in
front of it, no Load is sent.
-/

namespace QconnMcp.Qnxdbg

open Kit

/-! ## The target -/

/-- What is staged for the next program. -/
structure Tables where
  env : List Bytes
  argv : List Bytes
  deriving DecidableEq

/-- One Env message; a string ends at its first NUL. -/
def Tables.apply (t : Tables) (sub : UInt8) (body : Bytes) : Tables :=
  if sub = envResetEnv then { t with env := [] }
  else if sub = envResetArgv then { t with argv := [] }
  else if sub = envSetEnv then { t with env := t.env ++ [before 0 body] }
  else if sub = envSetArgv then { t with argv := t.argv ++ [before 0 body] }
  else t

/-- The strings of a Load body: 8 bytes, then NUL-terminated strings up to an empty
one. -/
def loadStrings (body : Bytes) : List Bytes :=
  (((body.drop 8).splitOn 0).dropLast).takeWhile (· ≠ [])

/-- A Load that has been received, with the tables it found. -/
structure Load where
  tables : Tables
  strings : List Bytes
  deriving DecidableEq

inductive Verdict where
  | reply (code : UInt8) (body : Bytes)
  | silent
  /-- The message does not get through. -/
  | closed
  deriving DecidableEq

/-- The message is accepted: its reply is no error. -/
def Verdict.Accepts : Verdict → Prop
  | .reply code _ => code ≠ respErr
  | _ => False

instance : DecidablePred Verdict.Accepts := fun v =>
  match v with
  | .reply code _ => inferInstanceAs (Decidable (code ≠ respErr))
  | .silent => inferInstanceAs (Decidable False)
  | .closed => inferInstanceAs (Decidable False)

/-- A frame that says nothing about a request. -/
abbrev Skipped := { p : Bytes // Aside p }

/-- What the agent does with a message: its next state, its verdict, and the frames
around the reply. -/
structure Decision (τ : Type) where
  agent : τ
  verdict : Verdict
  pre : List Skipped
  post : List Skipped

def Decision.answer {τ : Type} (d : Decision τ) (p : Bytes) : List Bytes :=
  d.pre.map Subtype.val ++
    (match d.verdict with
      | .reply code body => [message code 0 (p.getD 2 0) body]
      | _ => []) ++ d.post.map Subtype.val

structure Target (τ : Type) where
  agent : τ
  tables : Tables
  loads : List Load

/-- The target once it has received a message: an accepted Env message changes the
tables, and every Load is recorded. -/
def Target.receive {τ : Type} (t : Target τ) (p : Bytes) (d : Decision τ) : Target τ where
  agent := d.agent
  tables :=
    if d.verdict.Accepts ∧ respCode p = cmdEnv then t.tables.apply (p.getD 1 0) (p.drop 4)
    else t.tables
  loads :=
    if respCode p = cmdLoad then t.loads ++ [⟨t.tables, loadStrings (p.drop 4)⟩] else t.loads

section

variable {τ : Type} (policy : τ → Bytes → Decision τ)

def target : Peer (Target τ) where
  recv t b :=
    match (readFrame .eof b).1 with
    | .error _ => some (t, [])
    | .ok p =>
        match (policy t.agent p).verdict with
        | .closed => none
        | _ => some (t.receive p (policy t.agent p), ((policy t.agent p).answer p).flatMap frame)
  fin _ := .timeout

structure Request where
  cmd : UInt8
  sub : UInt8
  body : Bytes

def Request.message (r : Request) (mid : UInt8) : Bytes := Qnxdbg.message r.cmd r.sub mid r.body

/-- What the agent says to requests that are sent one after another, the last message
id having been `mid`. -/
def verdicts : τ → UInt8 → List Request → List Verdict
  | _, _, [] => []
  | a, mid, r :: rs =>
      (policy a (r.message (mid + 1))).verdict ::
        verdicts (policy a (r.message (mid + 1))).agent (mid + 1) rs

theorem mem_verdicts_append {a : τ} {mid : UInt8} {rs : List Request} {v : Verdict}
    (h : v ∈ verdicts policy a mid rs) (ts : List Request) :
    v ∈ verdicts policy a mid (rs ++ ts) := by
  induction rs generalizing a mid with
  | nil => exact absurd h List.not_mem_nil
  | cons r rs ih =>
      rw [List.cons_append, verdicts]
      rcases List.mem_cons.mp h with rfl | h
      · exact List.mem_cons_self
      · exact List.mem_cons_of_mem _ (ih h)

end

/-! ## One request -/

namespace Client

variable {τ : Type} {policy : τ → Bytes → Decision τ} {c : Client (Target τ)}

theorem recv_target (policy : τ → Bytes → Decision τ) (t : Target τ) (p : Bytes) :
    (target policy).recv t (frame p) =
      match (policy t.agent p).verdict with
      | .closed => none
      | _ => some (t.receive p (policy t.agent p), ((policy t.agent p).answer p).flatMap frame) := by
  have hread := Qnxdbg.readFrame_frame .eof p []
  rw [List.append_nil] at hread
  simp only [target, hread]

theorem debugFrames_skipped (as : List Skipped) : debugFrames (as.map Subtype.val) = [] := by
  rw [debugFrames_eq_nil]
  intro p hp
  obtain ⟨a, -, rfl⟩ := List.mem_map.mp hp
  exact a.2

/-- The only debug frame of an answer is the reply. -/
theorem debugFrames_answer (d : Decision τ) (p : Bytes) :
    debugFrames (d.answer p) =
      match d.verdict with
      | .reply code body => [message code 0 (p.getD 2 0) body]
      | _ => [] := by
  rw [Decision.answer, debugFrames_append, debugFrames_append, debugFrames_skipped,
    debugFrames_skipped, List.nil_append, List.append_nil]
  cases d.verdict with
  | reply code body => exact debugFrames_message code 0 _ body
  | silent => rfl
  | closed => rfl

theorem loads_receive_load {t : Target τ} {r : Request} {mid : UInt8} {d : Decision τ}
    (h : r.cmd = cmdLoad) :
    (t.receive (r.message mid) d).loads = t.loads ++ [⟨t.tables, loadStrings r.body⟩] :=
  if_pos h

/-- No reply to a request is unread. -/
def Resting (c : Client (Target τ)) : Prop := Idle (fun _ => True) c

/-- The client with skippable frames to read. -/
def withUnread (c : Client (Target τ)) (unread : List Skipped) : Client (Target τ) :=
  { c with inp := (unread.map Subtype.val).flatMap frame }

/-- The client once the agent has replied to a request. -/
structure Replied (policy : τ → Bytes → Decision τ) (r : Request) (c c' : Client (Target τ)) :
    Prop where
  resting : Resting c'
  mid : c'.mid = c.mid + 1
  peer : c'.peer = c.peer.receive (r.message (c.mid + 1)) (policy c.peer.agent (r.message (c.mid + 1)))

theorem transactSub_accepted (hc : Resting c) (r : Request)
    (haccepts : (policy c.peer.agent (r.message (c.mid + 1))).verdict.Accepts) :
    ∃ p c', (transactSub (target policy) r.cmd r.sub r.body).run c = (.ok p, c') ∧
      respCode p ≠ respErr ∧ Replied policy r c c' := by
  obtain ⟨us, hus, hinp⟩ := hc.unread
  have hrecv := recv_target policy c.peer (r.message (c.mid + 1))
  have hdebug := debugFrames_answer (policy c.peer.agent (r.message (c.mid + 1)))
    (r.message (c.mid + 1))
  cases hv : (policy c.peer.agent (r.message (c.mid + 1))).verdict with
  | silent =>
      rw [hv] at haccepts
      exact haccepts.elim
  | closed =>
      rw [hv] at haccepts
      exact haccepts.elim
  | reply code body =>
      rw [hv] at hrecv hdebug haccepts
      obtain ⟨gs, out, hrun, hgs⟩ := transactSub_answered hinp hus hrecv hdebug
      exact ⟨_, _, hrun, haccepts, ⟨⟨gs, hgs, rfl⟩, trivial⟩, rfl, rfl⟩

/-- A request that is not accepted gets no reply or an error; the target has received
it or not. -/
theorem transactSub_not_accepted (hc : Resting c) (r : Request)
    (hrefused : ¬ (policy c.peer.agent (r.message (c.mid + 1))).verdict.Accepts) :
    ∃ res c', (transactSub (target policy) r.cmd r.sub r.body).run c = (res, c') ∧
      (∀ p, res = .ok p → respCode p = respErr) ∧
      (c'.peer = c.peer ∨ c'.peer = c.peer.receive (r.message (c.mid + 1))
        (policy c.peer.agent (r.message (c.mid + 1)))) := by
  obtain ⟨us, hus, hinp⟩ := hc.unread
  have hrecv := recv_target policy c.peer (r.message (c.mid + 1))
  have hdebug := debugFrames_answer (policy c.peer.agent (r.message (c.mid + 1)))
    (r.message (c.mid + 1))
  cases hv : (policy c.peer.agent (r.message (c.mid + 1))).verdict with
  | silent =>
      rw [hv] at hrecv hdebug
      obtain ⟨out, hrun⟩ := transactSub_unanswered hinp hus hrecv hdebug
      exact ⟨_, _, hrun, nofun, .inr rfl⟩
  | closed =>
      rw [hv] at hrecv
      exact ⟨_, _, transactSub_refused hrecv, nofun, .inl rfl⟩
  | reply code body =>
      rw [hv] at hrecv hdebug hrefused
      obtain ⟨gs, out, hrun, hgs⟩ := transactSub_answered hinp hus hrecv hdebug
      refine ⟨_, _, hrun, ?_, .inr rfl⟩
      rintro p ⟨⟩
      exact not_not.mp hrefused

/-- A command fails on whatever is no acceptance. -/
theorem acked_of_not_accepted {σ : Type} {P : Peer σ} {cmd subcmd : UInt8} {body : Bytes}
    {refused : Bytes → Err} {c c' : Client σ} {res : Except Err Bytes}
    (h : (transactSub P cmd subcmd body).run c = (res, c'))
    (hres : ∀ p, res = .ok p → respCode p = respErr) :
    ∃ e, (acked P cmd subcmd body refused).run c = (some e, c') := by
  cases res with
  | error e => exact ⟨e, acked_failed h⟩
  | ok p =>
      refine ⟨refused p, ?_⟩
      rw [acked_replied h, if_pos (hres p rfl)]

/-! ## The messages in front of the Load -/

/-- Any Env messages, up to the first that fails. -/
def envSeq {σ : Type} (P : Peer σ) : List (UInt8 × Bytes) → Act σ (Option Err)
  | [] => pure none
  | m :: ms => do
      match ← envCmd P m.1 m.2 with
      | some e => pure (some e)
      | none => envSeq P ms

theorem envEach_eq {σ : Type} (P : Peer σ) (sub : UInt8) (strings : List Bytes) :
    envEach P sub strings = envSeq P (strings.map fun e => (sub, e ++ [0])) := by
  induction strings with
  | nil => rfl
  | cons e es ih =>
      rewrite [List.map_cons, envEach, envSeq, ih]
      rfl

theorem stage_eq {σ : Type} (P : Peer σ) (reset sub : UInt8) (strings : List Bytes) :
    stage P reset sub strings =
      envSeq P ((reset, zeros 1024) :: strings.map fun e => (sub, e ++ [0])) := by
  rewrite [stage, envSeq, envEach_eq]
  rfl

/-- Behind messages that fail, no others are sent. -/
theorem envSeq_append {σ : Type} (P : Peer σ) (l m : List (UInt8 × Bytes)) (c : Client σ) :
    (envSeq P (l ++ m)).run c =
      match (envSeq P l).run c with
      | (some e, c') => (some e, c')
      | (none, c') => (envSeq P m).run c' := by
  induction l generalizing c with
  | nil => rfl
  | cons x l ih =>
      rw [List.cons_append, envSeq, envSeq, run_bind, run_bind]
      cases ((envCmd P x.1 x.2).run c).1 with
      | some e => rfl
      | none => exact ih _

/-- The client once the target has taken Env messages. -/
structure Staged (policy : τ → Bytes → Decision τ) (ms : List (UInt8 × Bytes))
    (c c' : Client (Target τ)) : Prop where
  resting : Resting c'
  tables : c'.peer.tables = ms.foldl (fun t m => t.apply m.1 m.2) c.peer.tables
  loads : c'.peer.loads = c.peer.loads
  /-- The agent goes on where the messages left it. -/
  verdicts : ∀ rs, verdicts policy c.peer.agent c.mid (ms.map (fun m => ⟨cmdEnv, m.1, m.2⟩) ++ rs) =
    verdicts policy c.peer.agent c.mid (ms.map fun m => ⟨cmdEnv, m.1, m.2⟩) ++
      verdicts policy c'.peer.agent c'.mid rs

theorem envCmd_accepted (hc : Resting c) (m : UInt8 × Bytes)
    (haccepts : (policy c.peer.agent
      ((⟨cmdEnv, m.1, m.2⟩ : Request).message (c.mid + 1))).verdict.Accepts) :
    ∃ c', (envCmd (target policy) m.1 m.2).run c = (none, c') ∧ Staged policy [m] c c' := by
  obtain ⟨p, c', hrun, hcode, hc'⟩ := transactSub_accepted hc ⟨cmdEnv, m.1, m.2⟩ haccepts
  refine ⟨c', ?_, hc'.resting, ?_, ?_, ?_⟩
  · rw [envCmd, acked_replied hrun, if_neg hcode]
  · rw [hc'.peer]
    exact if_pos ⟨haccepts, rfl⟩
  · rw [hc'.peer]
    rfl
  · intro rs
    rw [hc'.peer, hc'.mid]
    rfl

theorem envCmd_not_accepted (hc : Resting c) (m : UInt8 × Bytes)
    (hrefused : ¬ (policy c.peer.agent
      ((⟨cmdEnv, m.1, m.2⟩ : Request).message (c.mid + 1))).verdict.Accepts) :
    ∃ e c', (envCmd (target policy) m.1 m.2).run c = (some e, c') ∧
      c'.peer.loads = c.peer.loads := by
  obtain ⟨res, c', hrun, hres, hpeer⟩ := transactSub_not_accepted hc ⟨cmdEnv, m.1, m.2⟩ hrefused
  obtain ⟨e, he⟩ := acked_of_not_accepted hrun hres
  refine ⟨e, c', he, ?_⟩
  rcases hpeer with hpeer | hpeer
  · rw [hpeer]
  · rw [hpeer]
    rfl

theorem Staged.cons {m : UInt8 × Bytes} {ms : List (UInt8 × Bytes)} {c₁ c₂ : Client (Target τ)}
    (h : Staged policy [m] c c₁) (h' : Staged policy ms c₁ c₂) : Staged policy (m :: ms) c c₂ where
  resting := h'.resting
  tables := by
    rw [h'.tables, h.tables]
    rfl
  loads := h'.loads.trans h.loads
  verdicts rs := by
    have hfirst : ∀ rs, Qnxdbg.verdicts policy c.peer.agent c.mid (⟨cmdEnv, m.1, m.2⟩ :: rs) = _ :=
      h.verdicts
    rw [List.map_cons, List.cons_append, hfirst, hfirst, h'.verdicts, List.append_assoc]

/-- Accepted messages are all applied, by induction over the messages. -/
theorem envSeq_accepted (ms : List (UInt8 × Bytes)) (hc : Resting c)
    (haccepts : ∀ v ∈ verdicts policy c.peer.agent c.mid (ms.map fun m => ⟨cmdEnv, m.1, m.2⟩),
      v.Accepts) :
    ∃ c', (envSeq (target policy) ms).run c = (none, c') ∧ Staged policy ms c c' := by
  induction ms generalizing c with
  | nil => exact ⟨c, rfl, hc, rfl, rfl, fun _ => rfl⟩
  | cons m ms ih =>
      obtain ⟨c₁, hrun, h₁⟩ := envCmd_accepted hc m (haccepts _ List.mem_cons_self)
      have hrest : ∀ v ∈ verdicts policy c₁.peer.agent c₁.mid
          (ms.map fun m => ⟨cmdEnv, m.1, m.2⟩), v.Accepts := by
        intro v hv
        have hsplit := h₁.verdicts (ms.map fun m => ⟨cmdEnv, m.1, m.2⟩)
        apply haccepts v
        rw [List.map_cons]
        exact hsplit ▸ List.mem_append_right _ hv
      obtain ⟨c₂, hrun', h₂⟩ := ih h₁.resting hrest
      refine ⟨c₂, ?_, h₁.cons h₂⟩
      rw [envSeq, run_bind, hrun]
      exact hrun'

/-- A message that is not accepted ends the sequence. -/
theorem envSeq_not_accepted (ms : List (UInt8 × Bytes)) (hc : Resting c)
    (hrefused : ∃ v ∈ verdicts policy c.peer.agent c.mid (ms.map fun m => ⟨cmdEnv, m.1, m.2⟩),
      ¬ v.Accepts) :
    ∃ e c', (envSeq (target policy) ms).run c = (some e, c') ∧ c'.peer.loads = c.peer.loads := by
  induction ms generalizing c with
  | nil =>
      obtain ⟨v, hv, -⟩ := hrefused
      exact absurd hv List.not_mem_nil
  | cons m ms ih =>
      by_cases haccepts : (policy c.peer.agent
          ((⟨cmdEnv, m.1, m.2⟩ : Request).message (c.mid + 1))).verdict.Accepts
      · obtain ⟨c₁, hrun, h₁⟩ := envCmd_accepted hc m haccepts
        have hrest : ∃ v ∈ verdicts policy c₁.peer.agent c₁.mid
            (ms.map fun m => ⟨cmdEnv, m.1, m.2⟩), ¬ v.Accepts := by
          obtain ⟨v, hv, hnot⟩ := hrefused
          have hsplit := h₁.verdicts (ms.map fun m => ⟨cmdEnv, m.1, m.2⟩)
          rw [List.map_cons] at hv
          rcases List.mem_append.mp (hsplit ▸ hv) with hv | hv
          · rw [List.mem_singleton.mp hv] at hnot
            exact absurd haccepts hnot
          · exact ⟨v, hv, hnot⟩
        obtain ⟨e, c₂, hrun', hloads⟩ := ih h₁.resting hrest
        refine ⟨e, c₂, ?_, hloads.trans h₁.loads⟩
        rw [envSeq, run_bind, hrun]
        exact hrun'
      · obtain ⟨e, c₁, hrun, hloads⟩ := envCmd_not_accepted hc m haccepts
        refine ⟨e, c₁, ?_, hloads⟩
        rw [envSeq, run_bind, hrun]
        rfl

end Client

/-! ## Programs -/

/-- A program to launch; no string holds a NUL. -/
structure Program where
  path : Bytes
  args : List Bytes
  /-- `none` for the default list. -/
  env : Option (List Bytes)
  path_ne : path ≠ []
  path_nul : (0 : UInt8) ∉ path
  args_nul : ∀ a ∈ args, (0 : UInt8) ∉ a
  env_nul : ∀ es, env = some es → ∀ e ∈ es, (0 : UInt8) ∉ e

namespace Program

variable (p : Program)

def environment : List Bytes := p.env.getD defaultLaunchEnv

/-- The program file, and again as the first argument. -/
def staged : List Bytes := [p.path, p.path] ++ p.args

def envMessages : List (UInt8 × Bytes) :=
  ((envResetEnv, zeros 1024) :: p.environment.map fun e => (envSetEnv, e ++ [0])) ++
    ((envResetArgv, zeros 1024) :: p.staged.map fun a => (envSetArgv, a ++ [0]))

def envRequests : List Request := p.envMessages.map fun m => ⟨cmdEnv, m.1, m.2⟩

def loadRequest : Request := ⟨cmdLoad, 0, loadBody p.path p.staged.length⟩

/-- All requests of a launch. -/
def requests : List Request := p.envRequests ++ [p.loadRequest]

/-- The reference to a staged slot. -/
def marker (i : Nat) : Bytes := ascii "@" ++ fmtNat 10 i

def markers : List Bytes := (List.range (max 3 (2 + p.args.length))).map marker

theorem environment_nul : ∀ e ∈ p.environment, (0 : UInt8) ∉ e := by
  rw [environment]
  cases henv : p.env with
  | none =>
      have hdefault : (defaultLaunchEnv.all fun e => !e.contains 0) = true := by decide
      intro e he
      simpa using List.all_eq_true.mp hdefault e he
  | some es => exact p.env_nul es henv

theorem staged_nul : ∀ a ∈ p.staged, (0 : UInt8) ∉ a := by
  intro a ha
  rcases List.mem_append.mp ha with ha | ha
  · rcases List.mem_pair.mp ha with rfl | rfl <;> exact p.path_nul
  · exact p.args_nul a ha

/-- Messages that append strings, whatever the table. -/
theorem foldl_apply (sub : UInt8) (add : Tables → List Bytes → Tables)
    (hnil : ∀ t, add t [] = t) (hcons : ∀ t s ss, add (add t [s]) ss = add t (s :: ss))
    (happly : ∀ t s, (0 : UInt8) ∉ s → t.apply sub (s ++ [0]) = add t [s])
    {ss : List Bytes} (h : ∀ s ∈ ss, (0 : UInt8) ∉ s) (t : Tables) :
    (ss.map fun s => (sub, s ++ [0])).foldl (fun t m => t.apply m.1 m.2) t = add t ss := by
  induction ss generalizing t with
  | nil => exact (hnil t).symm
  | cons s ss ih =>
      rw [List.map_cons, List.foldl_cons, happly t s (h s List.mem_cons_self),
        ih fun s' hs' => h s' (List.mem_cons_of_mem _ hs'), hcons]

theorem apply_setEnv (t : Tables) {s : Bytes} (hs : (0 : UInt8) ∉ s) :
    t.apply envSetEnv (s ++ [0]) = { t with env := t.env ++ [s] } := by
  rw [Tables.apply, if_neg (by decide), if_neg (by decide), if_pos rfl, before_append hs]

theorem apply_setArgv (t : Tables) {s : Bytes} (hs : (0 : UInt8) ∉ s) :
    t.apply envSetArgv (s ++ [0]) = { t with argv := t.argv ++ [s] } := by
  rw [Tables.apply, if_neg (by decide), if_neg (by decide), if_neg (by decide), if_pos rfl,
    before_append hs]

/-- The resets clear whatever the tables held. -/
theorem foldl_envMessages (t : Tables) :
    p.envMessages.foldl (fun t m => t.apply m.1 m.2) t = ⟨p.environment, p.staged⟩ := by
  have henv := foldl_apply envSetEnv (fun t ss => { t with env := t.env ++ ss })
    (fun t => by simp) (fun t s ss => by simp) (fun t s hs => apply_setEnv t hs) p.environment_nul
  have hargv := foldl_apply envSetArgv (fun t ss => { t with argv := t.argv ++ ss })
    (fun t => by simp) (fun t s ss => by simp) (fun t s hs => apply_setArgv t hs) p.staged_nul
  rw [envMessages, List.foldl_append, List.foldl_cons, List.foldl_cons, henv, hargv]
  rfl

theorem marker_ne_nil (i : Nat) : marker i ≠ [] := by simp [marker, ascii]

theorem marker_nul (i : Nat) : (0 : UInt8) ∉ marker i := by
  rw [marker, List.mem_append, not_or]
  refine ⟨by decide, ?_⟩
  intro h
  exact absurd (forall_mem_fmtNat (by decide) (by decide) 0 h) (by decide)

theorem marker_injective : Function.Injective marker := fun _ _ h =>
  fmtNat_injective (by decide) (by decide) (List.append_cancel_left h)

/-- The strings of the Load are the program and its markers. -/
theorem loadStrings_loadBody : loadStrings (loadBody p.path p.staged.length) = p.path :: p.markers := by
  have hmax : max p.staged.length 3 = max 3 (2 + p.args.length) := by
    rw [Nat.max_comm, staged, List.length_append]
    rfl
  have hbody : (loadBody p.path p.staged.length).drop 8 =
      ((p.path :: p.markers).flatMap fun s => s ++ [0]) ++ [0] := by
    rw [loadBody, hmax, List.flatMap_cons, markers, List.flatMap_map]
    simp [zeros, marker]
  have hnul : ∀ s ∈ p.path :: p.markers, (0 : UInt8) ∉ s := by
    intro s hs
    rcases List.mem_cons.mp hs with rfl | hs
    · exact p.path_nul
    · obtain ⟨i, -, rfl⟩ := List.mem_map.mp hs
      exact marker_nul i
  have hne : ∀ s ∈ p.path :: p.markers, decide (s ≠ []) = true := by
    intro s hs
    rcases List.mem_cons.mp hs with rfl | hs
    · exact decide_eq_true p.path_ne
    · obtain ⟨i, -, rfl⟩ := List.mem_map.mp hs
      exact decide_eq_true (marker_ne_nil i)
  rw [loadStrings, hbody, splitOn_flatMap hnul]
  show ((p.path :: p.markers) ++ ([[]] ++ [[]])).dropLast.takeWhile _ = _
  rw [← List.append_assoc, List.dropLast_concat, List.takeWhile_append_of_pos hne]
  simp

/-! ## Launching -/

open Client

variable {τ : Type} {policy : τ → Bytes → Decision τ} {c : Client (Target τ)}

/-- The Load behind the Env messages. -/
def loadAct {σ : Type} (P : Peer σ) : Act σ (Value × Option Err) := do
  match ← fetched P cmdLoad 0 (loadBody p.path p.staged.length)
    fun r => .load p.path (errnoString (respBody r)) with
  | (_, some e) => pure (.nothing, some e)
  | (b, none) => pure (.launched (pidTid b).1 (pidTid b).2, none)

theorem launch_run {σ : Type} (P : Peer σ) (c : Client σ) :
    (launch P p.path p.args p.env).run c =
      match (envSeq P p.envMessages).run c with
      | (some e, c') => ((.nothing, some e), c')
      | (none, c') => (p.loadAct P).run c' := by
  have henv : stage P envResetEnv envSetEnv (p.env.getD defaultLaunchEnv) = _ := stage_eq P _ _ _
  have hargv : stage P envResetArgv envSetArgv p.staged = _ := stage_eq P _ _ _
  rw [launch, run_bind, henv, envMessages, envSeq_append]
  cases hrun : (envSeq P ((envResetEnv, zeros 1024) ::
      (p.env.getD defaultLaunchEnv).map fun e => (envSetEnv, e ++ [0]))).run c with
  | mk r c₁ =>
      rw [environment, hrun]
      cases r with
      | some e => rfl
      | none =>
          show (stage P envResetArgv envSetArgv p.staged >>= _).run c₁ = _
          rw [hargv, run_bind]
          dsimp only
          rcases (envSeq P ((envResetArgv, zeros 1024) ::
            p.staged.map fun e => (envSetArgv, e ++ [0]))).run c₁ with ⟨_ | e, c₂⟩
          · rfl
          · rfl

theorem loadAct_accepted (hc : Resting c)
    (haccepts : (policy c.peer.agent (p.loadRequest.message (c.mid + 1))).verdict.Accepts) :
    ((p.loadAct (target policy)).run c).1.2 = none ∧
      ((p.loadAct (target policy)).run c).2.peer.loads =
        c.peer.loads ++ [⟨c.peer.tables, p.path :: p.markers⟩] := by
  obtain ⟨r, c', hrun, hcode, hc'⟩ := transactSub_accepted hc p.loadRequest haccepts
  have hload : (p.loadAct (target policy)).run c =
      ((.launched (pidTid (respBody r)).1 (pidTid (respBody r)).2, none), c') := by
    have hfetched : (fetched (target policy) cmdLoad 0 (loadBody p.path p.staged.length)
        fun r => .load p.path (errnoString (respBody r))).run c = ((respBody r, none), c') := by
      have htransact : (transactSub (target policy) cmdLoad 0
          (loadBody p.path p.staged.length)).run c = (.ok r, c') := hrun
      rw [fetched, run_bind, command, run_bind, htransact]
      simp only [if_neg hcode]
      rfl
    rw [loadAct, run_bind, hfetched]
    rfl
  rw [hload]
  refine ⟨rfl, ?_⟩
  rw [hc'.peer, loads_receive_load rfl, ← p.loadStrings_loadBody]
  rfl

/-- **The requested program, or no Load.** Against any agent, with any tables and any
output of other programs in between: when the agent accepts every request of a launch,
the Load finds exactly the requested environment and arguments and names the program
and the slots in order; when one of the Env requests is not accepted, `Launch` returns
an error and no Load is sent. The markers refer to every staged slot once. -/
theorem launch_staged (policy : τ → Bytes → Decision τ) (c : Client (Target τ))
    (unread : List Skipped) :
    let r := (launch (target policy) p.path p.args p.env).run (c.withUnread unread)
    ((∀ v ∈ verdicts policy c.peer.agent c.mid p.requests, v.Accepts) →
      r.1.2 = none ∧
      r.2.peer.loads = c.peer.loads ++
        [⟨⟨p.environment, [p.path, p.path] ++ p.args⟩, p.path :: p.markers⟩]) ∧
    ((∃ v ∈ verdicts policy c.peer.agent c.mid p.envRequests, ¬ v.Accepts) →
      (∃ e, r.1.2 = some e) ∧ r.2.peer.loads = c.peer.loads) ∧
    p.markers.Nodup ∧ ∀ i < ([p.path, p.path] ++ p.args).length, p.markers[i]? = some (marker i) := by
  intro r
  have hrest : Resting (c.withUnread unread) := ⟨⟨_, debugFrames_skipped unread, rfl⟩, trivial⟩
  refine ⟨?_, ?_, ?_, ?_⟩
  · intro haccepts
    have hsome : ∀ v ∈ verdicts policy c.peer.agent c.mid p.envRequests, v.Accepts :=
      fun v hv => haccepts v (mem_verdicts_append policy hv _)
    obtain ⟨c', hrun, hstaged⟩ := envSeq_accepted p.envMessages hrest hsome
    have hload : (policy c'.peer.agent (p.loadRequest.message (c'.mid + 1))).verdict.Accepts := by
      apply haccepts
      rw [requests, envRequests, show verdicts policy c.peer.agent c.mid _ = _ from
        hstaged.verdicts [p.loadRequest]]
      exact List.mem_append_right _ List.mem_cons_self
    have hr : r = (p.loadAct (target policy)).run c' := by
      rw [show r = _ from p.launch_run (target policy) (c.withUnread unread), hrun]
    obtain ⟨hnone, hloads⟩ := p.loadAct_accepted hstaged.resting hload
    rw [hr]
    refine ⟨hnone, ?_⟩
    rw [hloads, hstaged.loads, hstaged.tables, p.foldl_envMessages]
    rfl
  · intro hrefused
    obtain ⟨e, c', hrun, hloads⟩ := envSeq_not_accepted p.envMessages hrest hrefused
    have hr : r = ((.nothing, some e), c') := by
      rw [show r = _ from p.launch_run (target policy) (c.withUnread unread), hrun]
    rw [hr]
    exact ⟨⟨e, rfl⟩, hloads⟩
  · exact List.nodup_range.map marker_injective
  · intro i hi
    have hlt : i < max 3 (2 + p.args.length) := by
      rw [List.length_append] at hi
      exact Nat.lt_of_lt_of_le hi (Nat.le_max_right _ _)
    rw [markers, List.getElem?_map, List.getElem?_range hlt]
    rfl

/-- `/bin/ls -l` with the default environment, against an agent that accepts
everything: stale tables are gone when the Load comes. -/
theorem launch_staged_ls :
    let p : Program := ⟨ascii "/bin/ls", [ascii "-l"], none, by decide, by decide, by decide, nofun⟩
    let policy : Unit → Bytes → Decision Unit := fun _ _ => ⟨(), .reply 0 [], [], []⟩
    let c : Client (Target Unit) :=
      ⟨[], .timeout, ⟨(), ⟨[ascii "A=1"], [ascii "old"]⟩, []⟩, 1, [], []⟩
    ((launch (target policy) p.path p.args p.env).run (c.withUnread [])).2.peer.loads =
        c.peer.loads ++ [⟨⟨p.environment, [p.path, p.path] ++ p.args⟩, p.path :: p.markers⟩] ∧
      p.environment = defaultLaunchEnv ∧
      p.markers = [ascii "@0", ascii "@1", ascii "@2"] := by
  intro p policy c
  have haccepts : ∀ v ∈ verdicts policy c.peer.agent c.mid p.requests, v.Accepts := by
    decide +kernel
  exact ⟨((p.launch_staged policy c []).1 haccepts).2, rfl, by decide +kernel⟩

end Program

end QconnMcp.Qnxdbg
