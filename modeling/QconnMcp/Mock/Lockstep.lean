import QconnMcp.Mock.Paired
import QconnMcp.Qconn.Services

/-!
# Client and mock daemon in lockstep

Every operation of the client, and so every run of operations on one connection,
keeps client and daemon paired.

The line the daemon sends behind its greeting is the one thing unread before the
first command. It becomes part of the first response and changes nothing there
(`exec_noise`).
-/

namespace QconnMcp.Mock

open Kit Qconn

section Lockstep

variable {host : Host} {k : Nat} {c : Client (Served Session)}

/-! ## Operations -/

/-- Open, body, close: the body may rely on the handle it gets. -/
theorem withFile_paired {α : Type} {path : Bytes} (hpath : PlainPath path) (flags mode : Int)
    {failed : Err → α} {body : FileHandle → Act (Served Session) α} {R : α → Prop}
    (hfailed : ∀ e, R (failed e))
    (hbody : ∀ h, Holds (fun c => InFile host (k + 1) c ∧ Opened path k h c.peer.state) (body h)
      (fun r c => InFile host (k + 1) c ∧ R r)) :
    Holds (Paired host k) (Client.withFile (mockPeer host) path flags mode failed body)
      (fun r c => Paired host (k + 1) c ∧ R r) := by
  refine (ensure_paired (.inr (.inl rfl))).bind ?_
  intro left
  cases left with
  | some e => exact .pure fun c hc => ⟨hc.1.mono (Nat.le_succ k), hfailed e⟩
  | none =>
      refine ((openFile_inFile hpath flags mode).conseq (fun c hc => ⟨hc.1, hc.2 rfl⟩)
        fun _ _ h => h).bind ?_
      intro opened
      cases opened with
      | error e => exact .pure fun c hc => ⟨hc.1.toPaired, hfailed e⟩
      | ok h =>
          refine ((hbody h).conseq (fun c hc => ⟨hc.1, hc.2 h rfl⟩) fun _ _ h => h).bind ?_
          intro r c hc
          exact ⟨(closeFile_inFile h.fd c hc.1).toPaired, hc.2⟩

/-- Offsets and lengths within `int64`. -/
def InRange : Op → Prop
  | .readFileRange _ off n => 0 ≤ off ∧ off + n < 2 ^ 63
  | .writeFile _ data _ => data.length < 2 ^ 63
  | .writeFileAt _ off data => 0 ≤ off ∧ off + data.length < 2 ^ 63
  | _ => True

/-- The arguments an operation is called with here. -/
structure Admissible (op : Op) : Prop where
  path : ∀ p ∈ op.path?, PlainPath p
  range : InRange op

/-- Rounds enough for the loop of `ReadFile`. -/
def Host.rounds (host : Host) : Nat := host.maxAlloc + 2 ^ 31

theorem versions_paired :
    Holds (Paired host k) (Client.versions (mockPeer host)) (fun _ c => Paired host k c) := by
  refine (ensure_paired (.inl rfl)).bind ?_
  intro left
  cases left with
  | some e => exact .pure fun c hc => hc.1
  | none =>
      refine ((raw_stays fun s hs => answers_versions host hs).conseq (fun c hc => ⟨hc.1, hc.2 rfl⟩)
        fun _ _ h => h).bind ?_
      intro r
      rcases r with ⟨resp, _ | e⟩
      · exact .pure fun c hc => hc.1
      · exact .pure fun c hc => hc.1

theorem info_paired :
    Holds (Paired host k) (Client.info (mockPeer host)) (fun _ c => Paired host k c) := by
  refine .bind (Q := fun _ c => Paired host k c) (fun _ h => h) ?_
  intro cached
  cases cached with
  | some m => exact .pure fun c hc => hc
  | none =>
      refine (ensure_paired (.inl rfl)).bind ?_
      intro left
      cases left with
      | some e => exact .pure fun c hc => hc.1
      | none =>
          refine ((raw_stays fun s hs => answers_info host hs).conseq (fun c hc => ⟨hc.1, hc.2 rfl⟩)
            fun _ _ h => h).bind ?_
          intro r
          rcases r with ⟨resp, _ | e⟩
          · -- the cache is not part of what the two sides share
            exact fun c hc => { hc.1 with }
          · exact .pure fun c hc => hc.1

theorem signal_paired (pid sig : Int) :
    Holds (Paired host k) (Client.signal (mockPeer host) pid sig) (fun _ c => Paired host k c) := by
  refine (ensure_paired (.inr (.inr rfl))).bind ?_
  intro left
  cases left with
  | some e => exact .pure fun c hc => hc.1
  | none =>
      refine ((raw_stays fun s hs => answers_kill hs pid sig).conseq (fun c hc => ⟨hc.1, hc.2 rfl⟩)
        fun _ _ h => h).bind ?_
      intro r
      rcases r with ⟨resp, _ | e⟩
      · dsimp only
        split
        · exact .pure fun c hc => hc.1
        · exact .pure fun c hc => hc.1
      · exact .pure fun c hc => hc.1

theorem delete_paired {path : Bytes} (hpath : PlainPath path) :
    Holds (Paired host k) (Client.delete (mockPeer host) path) (fun _ c => Paired host k c) := by
  refine (ensure_paired (.inr (.inl rfl))).bind ?_
  intro left
  cases left with
  | some e => exact .pure fun c hc => hc.1
  | none =>
      refine ((raw_stays fun s hs => answers_delete host hs hpath).conseq
        (fun c hc => ⟨hc.1, hc.2 rfl⟩) fun _ _ h => h).bind ?_
      intro r
      rcases r with ⟨resp, _ | e⟩
      · exact .pure fun c hc => hc.1
      · exact .pure fun c hc => hc.1

theorem mkdir_paired {path : Bytes} (hpath : PlainPath path) (mode : Int) :
    Holds (Paired host k) (Client.mkdir (mockPeer host) path mode)
      (fun _ c => Paired host (k + 1) c) := by
  refine (ensure_paired (.inr (.inl rfl))).bind ?_
  intro left
  cases left with
  | some e => exact .pure fun c hc => hc.1.mono (Nat.le_succ k)
  | none =>
      refine ((openFile_inFile hpath _ _).conseq (fun c hc => ⟨hc.1, hc.2 rfl⟩)
        fun _ _ h => h).bind ?_
      intro opened
      cases opened with
      | error e => exact .pure fun c hc => hc.1.toPaired
      | ok h => exact (closeFile_inFile h.fd).conseq (fun c hc => hc.1) fun _ _ hc => hc.toPaired

theorem chmod_body (h : FileHandle) (mode : Int) :
    Holds (InFile host k)
      (do
        match ← Client.raw (mockPeer host) (chmodCmd h.fd mode) with
        | (_, some e) => pure (some e)
        | (resp, none) => pure (if isOk resp then none else some (protoErr (ascii "chmod") resp)))
      (fun _ c => InFile host k c) := by
  have hraw := raw_ok host (k := k) (a := 97) (.inr (.inr rfl))
    (fmtInt 16 h.fd ++ 58 :: fmtInt 16 mode)
    (by simp) (by simp)
  have hcmd : chmodCmd h.fd mode = 97 :: 58 :: (fmtInt 16 h.fd ++ 58 :: fmtInt 16 mode) := by
    simp [chmodCmd, ascii]
  rw [hcmd]
  refine hraw.bind ?_
  intro r
  rcases r with ⟨resp, _ | e⟩
  · exact .pure fun _ hc => hc
  · exact .pure fun _ hc => hc

/-- Every operation keeps the two sides together. `ReadFile` ends, unless
descriptors have become too large for the client. -/
theorem exec_paired (fuel : Nat) {op : Op} (hop : Admissible op) :
    Holds (Paired host k) (op.exec (mockPeer host) fuel)
      (fun r c => Paired host (k + 1) c ∧ (k < 2 ^ 62 → host.rounds ≤ fuel → r.isSome)) := by
  have hpath := hop.path
  have hrange := hop.range
  cases op with
  | versions =>
      refine versions_paired.bind fun r => ?_
      exact .pure fun c hc => ⟨hc.mono (Nat.le_succ k), fun _ _ => rfl⟩
  | info =>
      refine info_paired.bind fun r => ?_
      exact .pure fun c hc => ⟨hc.mono (Nat.le_succ k), fun _ _ => rfl⟩
  | signal pid sig =>
      refine (signal_paired pid sig).bind fun r => ?_
      exact .pure fun c hc => ⟨hc.mono (Nat.le_succ k), fun _ _ => rfl⟩
  | delete path =>
      refine (delete_paired (hpath path rfl)).bind fun r => ?_
      exact .pure fun c hc => ⟨hc.mono (Nat.le_succ k), fun _ _ => rfl⟩
  | mkdir path mode =>
      refine (mkdir_paired (hpath path rfl) mode).bind fun r => ?_
      exact .pure fun c hc => ⟨hc, fun _ _ => rfl⟩
  | stat path =>
      refine (withFile_paired (hpath path rfl) _ _ (R := fun _ => True) (fun _ => trivial)
        fun h => ?_).bind fun r => ?_
      · exact .pure fun c hc => ⟨hc.1, trivial⟩
      · exact .pure fun c hc => ⟨hc.1, fun _ _ => rfl⟩
  | readFile path =>
      refine (withFile_paired (hpath path rfl) _ _
        (R := fun r => k < 2 ^ 62 → host.rounds ≤ fuel → r.isSome) (fun _ _ _ => rfl)
        fun h => ?_).bind fun r => ?_
      · intro c hc
        obtain ⟨hin, hends⟩ := readLoop_inFile c.peer.state h fuel [] 0 c ⟨hc.1, rfl, rfl⟩
        refine ⟨hin, ?_⟩
        intro hk hfuel
        have hmax := host.maxAlloc_le
        have hlimit : (0 : Int) < host.rounds := by
          unfold Host.rounds
          omega
        exact hends _ (hc.2.endsBy hc.1.store hk) (by omega) hc.2.range (by omega)
          hlimit (by unfold Host.rounds at hfuel; omega)
      · exact .pure fun c hc => ⟨hc.1, fun hk hfuel => by simpa using hc.2 hk hfuel⟩
  | readFileRange path off n =>
      refine (withFile_paired (hpath path rfl) _ _ (R := fun _ => True) (fun _ => trivial)
        fun h => ?_).bind fun r => ?_
      · exact (rangeLoop_inFile h.fd off n n.toNat []).conseq (fun c hc => hc.1)
          fun _ _ hc => ⟨hc, trivial⟩
      · exact .pure fun c hc => ⟨hc.1, fun _ _ => rfl⟩
  | writeFile path data mode =>
      refine (withFile_paired (hpath path rfl) _ _ (R := fun _ => True) (fun _ => trivial)
        fun h => ?_).bind fun r => ?_
      · intro c hc
        have hlen : (0 : Int) + data.length < 2 ^ 63 := by
          have : data.length < 2 ^ 63 := hrange
          omega
        exact ⟨writeLoop_inFile hc.2.range le_rfl hlen _ 0 (by omega) c hc.1, trivial⟩
      · exact .pure fun c hc => ⟨hc.1, fun _ _ => rfl⟩
  | writeFileAt path off data =>
      refine (withFile_paired (hpath path rfl) _ _ (R := fun _ => True) (fun _ => trivial)
        fun h => ?_).bind fun r => ?_
      · intro c hc
        exact ⟨writeLoop_inFile hc.2.range hrange.1 hrange.2 _ 0 (by omega) c hc.1, trivial⟩
      · exact .pure fun c hc => ⟨hc.1, fun _ _ => rfl⟩
  | chmod path mode =>
      refine (withFile_paired (hpath path rfl) _ _ (R := fun _ => True) (fun _ => trivial)
        fun h => ?_).bind fun r => ?_
      · exact (chmod_body h mode).conseq (fun c hc => hc.1) fun _ _ hc => ⟨hc, trivial⟩
      · exact .pure fun c hc => ⟨hc.1, fun _ _ => rfl⟩

/-- A whole run. -/
theorem runOps_paired (fuel : Nat) (ops : List Op) (hops : ∀ op ∈ ops, Admissible op) :
    Holds (Paired host k) (runOps (mockPeer host) fuel ops)
      (fun r c => Paired host (k + ops.length) c ∧
        (k + ops.length < 2 ^ 62 → host.rounds ≤ fuel →
          ∃ rs, r = some rs ∧ rs.length = ops.length)) := by
  induction ops generalizing k with
  | nil => exact .pure fun c hc => ⟨hc, fun _ _ => ⟨[], rfl, rfl⟩⟩
  | cons op ops ih =>
      have hrest := ih (k := k + 1) fun o ho => hops o (List.mem_cons_of_mem _ ho)
      have hlen : k + (op :: ops).length = k + 1 + ops.length := by
        rw [List.length_cons]
        omega
      rw [hlen]
      refine (exec_paired fuel (hops op List.mem_cons_self)).bind ?_
      intro r
      cases r with
      | none =>
          refine .pure fun c hc => ⟨hc.1.mono (Nat.le_add_right ..), ?_⟩
          intro hk hfuel
          exact absurd (hc.2 (by omega) hfuel) (by simp)
      | some r =>
          refine (hrest.conseq (fun c hc => hc.1) fun _ _ h => h).bind ?_
          intro rs
          refine .pure fun c hc => ⟨hc.1, ?_⟩
          intro hk hfuel
          obtain ⟨rs, rfl, hrs⟩ := hc.2 hk hfuel
          exact ⟨r :: rs, rfl, by rw [List.length_cons, List.length_cons, hrs]⟩

/-! ## The line behind the greeting -/

/-- What is unread between the handshake and the first command. -/
def noiseLine : Bytes := benignNoise ++ ascii "\r\n"

/-- The client with nothing unread. -/
def cleared (c : Client (Served Session)) : Client (Served Session) :=
  { c with fc := { c.fc with inp := [] } }

/-- A client between its handshake and its first command. -/
structure Fresh (c : Client (Served Session)) : Prop where
  unread : c.fc.inp = noiseLine
  peer : c.peer = ⟨Session.start, []⟩
  current : c.current = .broker
  infoMap : c.infoMap = none
  sent : c.sent = []

theorem Fresh.paired (hc : Fresh c) : Paired host 0 (cleared c) where
  svc := by
    show c.peer.state.svc = c.current
    rw [hc.peer, hc.current]
    rfl
  log := by
    show c.peer.state.log = c.sent
    rw [hc.peer, hc.sent]
    rfl
  unread := rfl
  idle := by
    intro _
    show c.peer.pending = []
    rw [hc.peer]
  service := .inl hc.current
  store := by
    show StoreOk host 0 c.peer.state
    rw [hc.peer]
    exact ⟨le_rfl, fun _ => Nat.zero_le _⟩

theorem Fresh.dispatched (hc : Fresh c) : c.Dispatched := by
  refine ⟨.inl hc.current, ?_⟩
  rw [hc.sent]
  exact fun e he => absurd he List.not_mem_nil

/-- The first response comes with the noise line in front, and the client is
then where it would be without. -/
theorem raw_noise (hc : Fresh c) {cmd t : Bytes} {s' : Session}
    (hans : Answers host Session.start cmd s' t) :
    ∃ c', (Client.raw (mockPeer host) cmd).run c =
        ((trimLeft (· == 32) (noiseLine ++ t), none), c') ∧
      (Client.raw (mockPeer host) cmd).run (cleared c) = ((trimLeft (· == 32) t, none), c') := by
  have hrecv : (mockPeer host).recv c.peer (cmd ++ [10]) = some (⟨s', []⟩, t ++ s'.prompt) := by
    rw [hc.peer]
    exact recv_answers rfl hans
  have hclean : iac ∉ t ++ s'.prompt := by
    simp only [List.mem_append, not_or]
    exact ⟨hans.clean, (prompt_bytes (prompt_mem s')).1⟩
  have hclean' : iac ∉ noiseLine ++ t ++ s'.prompt := by
    rw [List.append_assoc, List.mem_append, not_or]
    exact ⟨by decide, hclean⟩
  have hno : NoPrompt (noiseLine ++ t) := by
    have hnoise : NoPrompt (benignNoise ++ [13]) := noPrompt_of_no_lt (by decide)
    have hjoin := hnoise.join (b := 10) (fun p hp => (prompt_bytes hp).2.2.2.1) hans.noPrompt
    simpa [noiseLine, ascii] using hjoin
  have hpulls : Pulls (c.fc.inp ++ (t ++ s'.prompt)) (noiseLine ++ t ++ s'.prompt) [] [] := by
    rw [hc.unread, ← List.append_assoc]
    simpa using Pulls.of_clean hclean' []
  have hpulls' : Pulls ((cleared c).fc.inp ++ (t ++ s'.prompt)) (t ++ s'.prompt) [] [] := by
    simpa [cleared] using Pulls.of_clean hclean []
  have hrun := Client.raw_found hrecv (prompt_mem s') hno hpulls
  have hrun' := Client.raw_found (c := cleared c) hrecv (prompt_mem s') hans.noPrompt hpulls'
  exact ⟨_, hrun, hrun'⟩

variable (host) in
/-- Entering a service: the noise line is not its answer. -/
theorem ensure_noise (hc : Fresh c) {svc : Service} (hsvc : svc = .file ∨ svc = .cntl) :
    (Client.ensure (mockPeer host) svc).run c = (Client.ensure (mockPeer host) svc).run (cleared c) := by
  have hne : svc ≠ .broker := by
    rcases hsvc with rfl | rfl <;> decide
  obtain ⟨c', hrun, hrun'⟩ := raw_noise hc (answers_service host rfl hsvc)
  rw [Client.ensure_entered hc.current hne hrun (by decide),
    Client.ensure_entered (c := cleared c) hc.current hne hrun' (by decide)]

theorem versions_noise (hc : Fresh c) :
    (Client.versions (mockPeer host)).run c = (Client.versions (mockPeer host)).run (cleared c) := by
  obtain ⟨c', hrun, hrun'⟩ := raw_noise hc (answers_versions host rfl)
  have hline : Client.parseVersions (trimLeft (· == 32) (noiseLine ++ versionsText)) =
      Client.parseVersions (trimLeft (· == 32) versionsText) := by
    have hfirst : firstLine (trimLeft (· == 32) (noiseLine ++ versionsText)) =
        firstLine (trimLeft (· == 32) versionsText) := by
      decide +kernel
    rw [Client.parseVersions, hfirst]
    rfl
  rw [Client.versions, run_bind, run_bind, Client.ensure_there hc.current,
    Client.ensure_there (c := cleared c) hc.current]
  show (Client.raw _ _ >>= _).run _ = (Client.raw _ _ >>= _).run _
  rw [run_bind, run_bind, hrun, hrun']
  show ((Client.parseVersions _, none), c') = ((Client.parseVersions _, none), c')
  rw [hline]

theorem trimLeft_noise (t : Bytes) : trimLeft (· == 32) (noiseLine ++ t) = noiseLine ++ t := by
  rfl

theorem fields_noise (t : Bytes) :
    fields (noiseLine ++ t) =
      [ascii "error", ascii "linemode-or-echo-not-supported"] ++ fields t := by
  rfl

theorem info_noise (hc : Fresh c) :
    (Client.info (mockPeer host)).run c = (Client.info (mockPeer host)).run (cleared c) := by
  obtain ⟨c', hrun, hrun'⟩ := raw_noise hc (answers_info host rfl)
  have hfields : Client.parseInfo (trimLeft (· == 32) (noiseLine ++ (mockInfo ++ ascii "\r\n"))) =
      Client.parseInfo (trimLeft (· == 32) (mockInfo ++ ascii "\r\n")) := by
    have hblank : trimLeft (· == 32) (mockInfo ++ ascii "\r\n") = mockInfo ++ ascii "\r\n" := by
      rfl
    -- the two words of the noise line are no assignments
    rw [trimLeft_noise, hblank, Client.parseInfo, fields_noise, List.foldl_append]
    rfl
  have hthere := Client.ensure_there (P := mockPeer host) hc.current
  have hthere' := Client.ensure_there (P := mockPeer host) (c := cleared c) hc.current
  rw [Client.info_answered hc.infoMap hthere hrun,
    Client.info_answered (c := cleared c) hc.infoMap hthere' hrun', hfields]

/-- Programs that start alike go on alike. -/
theorem run_bind_congr {α β : Type} {m : Act (Served Session) α} {f : α → Act (Served Session) β}
    {c d : Client (Served Session)} (h : m.run c = m.run d) : (m >>= f).run c = (m >>= f).run d := by
  rw [run_bind, run_bind, h]

/-- The noise line does not change what the first operation returns, nor the
client after it. -/
theorem exec_noise (hc : Fresh c) (fuel : Nat) (op : Op) :
    (op.exec (mockPeer host) fuel).run c = (op.exec (mockPeer host) fuel).run (cleared c) := by
  have hfile := ensure_noise host hc (.inl rfl)
  -- every operation but the two of the broker starts by entering its service
  cases op with
  | versions => exact run_bind_congr (versions_noise hc)
  | info => exact run_bind_congr (info_noise hc)
  | signal pid sig => exact run_bind_congr (run_bind_congr (ensure_noise host hc (.inr rfl)))
  | stat path => exact run_bind_congr (run_bind_congr hfile)
  | readFile path => exact run_bind_congr (run_bind_congr hfile)
  | readFileRange path off n => exact run_bind_congr (run_bind_congr hfile)
  | writeFile path data mode => exact run_bind_congr (run_bind_congr hfile)
  | writeFileAt path off data => exact run_bind_congr (run_bind_congr hfile)
  | delete path => exact run_bind_congr (run_bind_congr hfile)
  | mkdir path mode => exact run_bind_congr (run_bind_congr hfile)
  | chmod path mode => exact run_bind_congr (run_bind_congr hfile)

variable (host) in
/-- A run that does anything at all is the same with and without the noise
line. -/
theorem runOps_noise (hc : Fresh c) (fuel : Nat) {ops : List Op} (hne : ops ≠ []) :
    (runOps (mockPeer host) fuel ops).run c = (runOps (mockPeer host) fuel ops).run (cleared c) := by
  cases ops with
  | nil => exact absurd rfl hne
  | cons op ops => exact run_bind_congr (exec_noise hc fuel op)

/-- The connection on which the daemon's greeting has arrived; `buffered` says
how the bytes come in. -/
def greeted (host : Host) (buffered : List Nat) : FrameConn :=
  ⟨greeting, (mockPeer host).fin ⟨Session.start, []⟩, buffered, [], 0⟩

/-- The handshake stops at the prompt of the greeting. -/
theorem dial_greeted (host : Host) (buffered : List Nat) :
    ∃ c, Client.dial ⟨Session.start, []⟩ (greeted host buffered) = (none, c) ∧ Fresh c := by
  have hpulls : Pulls greeting (ascii "QCONN\r\n" ++ ascii "<qconn-broker>") noiseLine [] :=
    Pulls.of_clean (d := ascii "QCONN\r\n" ++ ascii "<qconn-broker>") (by decide) noiseLine
  have hread := FrameConn.readUntilPrompt_found (f := greeted host buffered)
    (p := ascii "<qconn-broker>") (by decide) (by decide) hpulls
  have hinp : swallowBlanks (buffered.headD 0) noiseLine = noiseLine := by
    cases buffered.headD 0 <;> rfl
  refine ⟨⟨(greeted host buffered).afterPrompt noiseLine [], ⟨Session.start, []⟩, .broker, none, []⟩,
    ?_, hinp, rfl, rfl, rfl, rfl⟩
  have hconn : (Client.readUntilPrompt (σ := Served Session)).run
      ⟨greeted host buffered, ⟨Session.start, []⟩, .broker, none, []⟩ =
        ((trimLeft (· == 32) (ascii "QCONN\r\n"), none),
          ⟨(greeted host buffered).afterPrompt noiseLine [], ⟨Session.start, []⟩, .broker, none, []⟩) := by
    show ((greeted host buffered).readUntilPrompt.1, Client.mk (greeted host buffered).readUntilPrompt.2
      _ _ _ _) = _
    rw [hread]
  rw [Client.dial, Client.handshake, run_bind, hconn]
  rfl

/-- **Lockstep.** After the handshake the noise line is unread. Every run of
operations returns what it would return without that line, whether the daemon
crashes on the way or not; after it both sides are in the same service, the
daemon has dispatched exactly the commands that were sent, each in the service it
is meant for, and nothing is unread. The run ends. -/
theorem service_lockstep (host : Host) (buffered : List Nat) :
    ∃ c₀, Client.dial ⟨Session.start, []⟩ (greeted host buffered) = (none, c₀) ∧
      c₀.fc.inp = benignNoise ++ ascii "\r\n" ∧
      ∀ (fuel : Nat) (ops : List Op), ops ≠ [] → (∀ op ∈ ops, Admissible op) →
        let run := (runOps (mockPeer host) fuel ops).run
        let c := (run c₀).2
        (run c₀ = run (cleared c₀)) ∧
          c.current = c.peer.state.svc ∧ c.peer.state.log = c.sent ∧
          (∀ e ∈ c.peer.state.log, meantFor e.2 = some e.1) ∧ c.fc.inp = [] ∧
          (ops.length < 2 ^ 62 → host.rounds ≤ fuel →
            ∃ rs, (run c₀).1 = some rs ∧ rs.length = ops.length) := by
  obtain ⟨c₀, hdial, hfresh⟩ := dial_greeted host buffered
  refine ⟨c₀, hdial, hfresh.unread, ?_⟩
  intro fuel ops hne hops
  have hnoise := runOps_noise host hfresh fuel hne
  obtain ⟨hpaired, hends⟩ := runOps_paired fuel ops hops (cleared c₀) hfresh.paired
  rw [← hnoise, Nat.zero_add] at hpaired hends
  -- that the client sends each command in its service is its own doing
  have hmeant := (runOps_dispatched (P := mockPeer host) fuel ops c₀ hfresh.dispatched).sent
  rw [← hpaired.log] at hmeant
  exact ⟨hnoise, hpaired.svc.symm, hpaired.log, hmeant, hpaired.unread, hends⟩

/-- An upload, a broker command and the download of what was stored. -/
def uploadOps : List Op :=
  [.writeFile (ascii "/tmp/x") [0, 255, 10] 0, .versions, .readFile (ascii "/tmp/x")]

theorem uploadOps_admissible : ∀ op ∈ uploadOps, Admissible op := by
  have hpath : PlainPath (ascii "/tmp/x") :=
    ⟨by decide, by decide, by decide, by decide, by decide, by decide⟩
  have hsame : ∀ p, some (ascii "/tmp/x") = some p → PlainPath p :=
    fun p hp => Option.some.inj hp ▸ hpath
  intro op hop
  simp only [uploadOps, List.mem_cons, List.not_mem_nil, or_false] at hop
  rcases hop with rfl | rfl | rfl
  · exact ⟨fun p hp => hsame p hp, show 3 < 2 ^ 63 by decide⟩
  · exact ⟨nofun, trivial⟩
  · exact ⟨fun p hp => hsame p hp, trivial⟩

theorem service_lockstep_upload :
    ∃ c₀, Client.dial ⟨Session.start, []⟩ (greeted smallHost []) = (none, c₀) ∧
      (∀ op ∈ uploadOps, Admissible op) ∧
      ∃ rs, ((runOps (mockPeer smallHost) smallHost.rounds uploadOps).run c₀).1 = some rs ∧
        rs.length = 3 := by
  obtain ⟨c₀, hdial, -, hruns⟩ := service_lockstep smallHost []
  obtain ⟨-, -, -, -, -, hends⟩ :=
    hruns smallHost.rounds uploadOps (by simp [uploadOps]) uploadOps_admissible
  exact ⟨c₀, hdial, uploadOps_admissible, hends (by decide) le_rfl⟩

end Lockstep

end QconnMcp.Mock
