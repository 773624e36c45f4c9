import QconnMcp.Qconn.Exchange

/-!
# The service a command is for

The daemon reads a command line in whatever service the connection is in, so a
command is understood only there. `meantFor` says by its text which service a
command of the client is for. The client keeps the service it is in itself
(`current`): every operation switches first, and sends its own commands only when
the switch succeeded, whatever the daemon answers (`runOps_dispatched`).
-/

namespace QconnMcp.Qconn

open Kit

/-- The service whose command this is: `versions`, `info` and `service` are the
broker's, the single-letter commands the file service's, `kill` the one of cntl.
`q` leaves the file service and `done` any other. -/
def meantFor (cmd : Bytes) : Option Service :=
  if cmd = ascii "versions ?" ∨ cmd = ascii "info" ∨ (ascii "service ").isPrefixOf cmd then
    some .broker
  else if cmd = ascii "q" ∨
      [ascii "o:", ascii "r:", ascii "w:", ascii "c:", ascii "a:", ascii "d:"].any
        (·.isPrefixOf cmd) then
    some .file
  else if cmd = ascii "done" ∨ (ascii "kill ").isPrefixOf cmd then some .cntl
  else none

/-- The services that the operations of `Op` use. -/
def Service.Used (s : Service) : Prop := s = .broker ∨ s = .file ∨ s = .cntl

namespace Client

variable {σ : Type} {P : Peer σ} {svc : Service}

/-- Every command went to the service it is for. -/
structure Dispatched (c : Client σ) : Prop where
  current : c.current.Used
  sent : ∀ e ∈ c.sent, meantFor e.2 = some e.1

/-- The program sends commands for `svc` only, and stays there. -/
def Stays {α : Type} (svc : Service) (m : Act σ α) : Prop :=
  Holds (fun c => Dispatched c ∧ c.current = svc) m fun _ c => Dispatched c ∧ c.current = svc

section Stays

variable {α β : Type}

theorem Stays.pure (a : α) : Stays svc (Pure.pure a : Act σ α) := fun _ hc => hc

theorem Stays.bind {m : Act σ α} {f : α → Act σ β} (hm : Stays svc m) (hf : ∀ a, Stays svc (f a)) :
    Stays svc (m >>= f) :=
  Holds.bind hm hf

theorem Stays.ite {p : Prop} [Decidable p] {m n : Act σ α} (hm : Stays svc m) (hn : Stays svc n) :
    Stays svc (if p then m else n) := by
  split
  · exact hm
  · exact hn

/-- Reading sends nothing. -/
theorem Stays.onConn (rd : FrameConn → α × FrameConn) : Stays svc (onConn rd : Act σ α) :=
  fun _ hc => ⟨⟨hc.1.current, hc.1.sent⟩, hc.2⟩

theorem writeRaw_stays (b : Bytes) : Stays svc (writeRaw P b) := by
  intro c hc
  cases hrecv : P.recv c.peer b with
  | none =>
      rw [writeRaw_none hrecv]
      exact hc
  | some r =>
      rw [writeRaw_some hrecv]
      exact ⟨⟨hc.1.current, hc.1.sent⟩, hc.2⟩

theorem writeLine_stays {cmd : Bytes} (h : meantFor cmd = some svc) : Stays svc (writeLine P cmd) := by
  intro c hc
  cases hrecv : P.recv c.peer (cmd ++ [10]) with
  | none =>
      rw [writeLine_none hrecv]
      exact hc
  | some r =>
      rw [writeLine_some hrecv]
      refine ⟨⟨hc.1.current, ?_⟩, hc.2⟩
      intro e he
      rcases List.mem_append.mp he with he | he
      · exact hc.1.sent e he
      · obtain rfl := List.mem_singleton.mp he
        show meantFor cmd = some c.current
        rw [h, hc.2]

theorem raw_stays {cmd : Bytes} (h : meantFor cmd = some svc) : Stays svc (raw P cmd) := by
  refine (writeLine_stays h).bind ?_
  intro e
  cases e with
  | some e => exact .pure _
  | none => exact (Stays.onConn _).bind fun _ => .pure _

end Stays

/-! ## Switching -/

theorem leaveService_dispatched :
    Holds (fun c : Client σ => Dispatched c ∧ c.current ≠ .broker) (leaveService P)
      fun r c => Dispatched c ∧ (r = none → c.current = .broker) := by
  intro c hc
  have hcmd : meantFor (if c.current = .file then ascii "q" else ascii "done") = some c.current := by
    rcases hc.1.current with h | h | h
    · exact absurd h hc.2
    · rw [h]
      rfl
    · rw [h]
      rfl
  obtain ⟨hleft, -⟩ := raw_stays (P := P) hcmd c ⟨hc.1, rfl⟩
  rcases hrun : (raw P (if c.current = .file then ascii "q" else ascii "done")).run c with
    ⟨⟨resp, e⟩, c'⟩
  rw [hrun] at hleft
  rw [leaveService, run_bind, service_run]
  show _ ∧ _
  rw [run_bind, hrun]
  cases e with
  | some e => exact ⟨hleft, fun h => absurd h (Option.some_ne_none e)⟩
  | none => exact ⟨⟨.inl rfl, hleft.sent⟩, fun _ => rfl⟩

/-- A switch that succeeds leads to the service asked for. -/
theorem ensure_dispatched {s : Service} (hs : s.Used) :
    Holds (fun c : Client σ => Dispatched c) (ensure P s)
      fun r c => Dispatched c ∧ (r = none → c.current = s) := by
  refine Holds.bind (Q := fun cur c => Dispatched c ∧ c.current = cur) (fun c hc => ⟨hc, rfl⟩) ?_
  intro cur
  split
  · rename_i hthere
    exact .pure fun c hc => ⟨hc.1, fun _ => hc.2.trans hthere⟩
  · refine Holds.bind (Q := fun r c => Dispatched c ∧ (r = none → c.current = .broker)) ?_ ?_
    · split
      · rename_i hbroker
        exact .pure fun c hc => ⟨hc.1, fun _ => hc.2.trans hbroker⟩
      · rename_i hleaf
        exact leaveService_dispatched.conseq (fun c hc => ⟨hc.1, by rw [hc.2]; exact hleaf⟩)
          fun _ _ h => h
    intro left
    cases left with
    | some e => exact .pure fun c hc => ⟨hc.1, fun h => absurd h (Option.some_ne_none e)⟩
    | none =>
        dsimp only
        split
        · rename_i hbroker
          exact .pure fun c hc => ⟨hc.1, fun _ => (hc.2 rfl).trans hbroker.symm⟩
        · -- from the broker into the service
          have hcmd : meantFor (ascii "service " ++ s.name) = some .broker := by
            cases s <;> rfl
          refine Holds.bind (Holds.conseq (raw_stays hcmd) (fun c hc => ⟨hc.1, hc.2 rfl⟩)
            fun _ _ h => h) ?_
          rintro ⟨resp, e⟩
          cases e with
          | some e => exact .pure fun c hc => ⟨hc.1, fun h => absurd h (Option.some_ne_none e)⟩
          | none =>
              dsimp only
              split
              · exact fun c hc => ⟨⟨hs, hc.1.sent⟩, fun _ => rfl⟩
              · exact .pure fun c hc => ⟨hc.1, fun h => absurd h (Option.some_ne_none _)⟩

/-- An operation: the switch, and then commands of the service. -/
theorem ensure_then_stays {α : Type} {s : Service} (hs : s.Used) {f : Option Err → Act σ α}
    (hfailed : ∀ e, ∃ a, f (some e) = pure a) (hf : Stays s (f none)) :
    Holds (fun c : Client σ => Dispatched c) (ensure P s >>= f) fun _ c => Dispatched c := by
  refine (ensure_dispatched hs).bind ?_
  intro r
  cases r with
  | some e =>
      obtain ⟨a, ha⟩ := hfailed e
      rw [ha]
      exact .pure fun c hc => hc.1
  | none => exact Holds.conseq hf (fun c hc => ⟨hc.1, hc.2 rfl⟩) fun _ c hc => hc.1

/-! ## The file service -/

theorem openFile_stays (path : Bytes) (flags mode : Int) :
    Stays .file (openFile P path flags mode) := by
  refine (raw_stays rfl).bind ?_
  rintro ⟨resp, e⟩
  cases e with
  | some e => exact .pure _
  | none =>
      dsimp only
      split
      · exact .pure _
      · exact .pure _

theorem closeFile_stays (fd : Int) : Stays .file (closeFile P fd) := by
  refine (raw_stays rfl).bind ?_
  rintro ⟨resp, e⟩
  cases e with
  | some e => exact .pure _
  | none => exact .pure _

theorem readStatus_stays (line : Bytes) : Stays svc (readStatus (σ := σ) line) := by
  have hprompt : Stays svc (readUntilPrompt (σ := σ)) := .onConn _
  rw [readStatus]
  refine .ite (hprompt.bind fun _ => .pure _) (.ite ?_ (hprompt.bind fun _ => .pure _))
  rcases statusCount line with ⟨numread, e⟩
  cases e with
  | some e => exact .pure _
  | none =>
      refine Stays.bind (.ite (.onConn _) (.pure _)) ?_
      rintro ⟨data, e⟩
      cases e with
      | some e => exact .pure _
      | none => exact hprompt.bind fun _ => .pure _

theorem readAt_stays (fd off n : Int) : Stays .file (readAt P fd off n) := by
  refine (writeLine_stays rfl).bind ?_
  intro e
  cases e with
  | some e => exact .pure _
  | none =>
      refine Stays.bind (.onConn _) ?_
      rintro ⟨line, e⟩
      cases e with
      | some e => exact .pure _
      | none => exact readStatus_stays line

theorem writeAt_stays (fd off : Int) (data : Bytes) : Stays .file (writeAt P fd off data) := by
  refine (writeLine_stays rfl).bind ?_
  intro e
  cases e with
  | some e => exact .pure _
  | none =>
      refine (writeRaw_stays data).bind ?_
      intro e
      cases e with
      | some e => exact .pure _
      | none =>
          refine Stays.bind (.onConn _) ?_
          rintro ⟨line, e⟩
          cases e with
          | some e => exact .pure _
          | none => exact .ite (Stays.bind (.onConn _) fun _ => .pure _) (.pure _)

theorem readLoop_stays (h : FileHandle) (fuel : Nat) (out : Bytes) (off : Int) :
    Stays .file (readLoop P h fuel out off) := by
  induction fuel generalizing out off with
  | zero => exact .pure _
  | succ fuel ih =>
      refine (readAt_stays h.fd off maxReadChunk).bind ?_
      rintro ⟨chunk, e⟩
      cases e with
      | some e => exact .pure _
      | none => exact .ite (.pure _) (.ite (.pure _) (ih _ _))

theorem rangeLoop_stays (fd off n : Int) (fuel : Nat) (out : Bytes) :
    Stays .file (rangeLoop P fd off n fuel out) := by
  induction fuel generalizing out with
  | zero => exact .pure _
  | succ fuel ih =>
      rw [rangeLoop]
      refine .ite ((readAt_stays fd _ _).bind ?_) (.pure _)
      rintro ⟨chunk, e⟩
      cases e with
      | some e => exact .pure _
      | none => exact .ite (.pure _) (ih _)

theorem writeLoop_stays (fd off : Int) (data : Bytes) (fuel : Nat) (total : Int) :
    Stays .file (writeLoop P fd off data fuel total) := by
  induction fuel generalizing total with
  | zero => exact .pure _
  | succ fuel ih =>
      rw [writeLoop]
      refine .ite (.ite (.pure _) ((writeAt_stays fd _ _).bind ?_)) (.pure _)
      rintro ⟨nw, e⟩
      cases e with
      | some e => exact .pure _
      | none => exact .ite (.pure _) (ih _)

theorem withFile_dispatched {α : Type} {path : Bytes} {flags mode : Int} {failed : Err → α}
    {body : FileHandle → Act σ α} (hbody : ∀ h, Stays .file (body h)) :
    Holds (fun c : Client σ => Dispatched c) (withFile P path flags mode failed body)
      fun _ c => Dispatched c := by
  refine ensure_then_stays (.inr (.inl rfl)) (fun e => ⟨_, rfl⟩) ?_
  refine (openFile_stays path flags mode).bind ?_
  intro r
  cases r with
  | error e => exact .pure _
  | ok h => exact (hbody h).bind fun r => (closeFile_stays h.fd).bind fun _ => .pure _

/-! ## Operations -/

theorem versions_dispatched :
    Holds (fun c : Client σ => Dispatched c) (versions P) fun _ c => Dispatched c := by
  refine ensure_then_stays (.inl rfl) (fun e => ⟨_, rfl⟩) ?_
  refine (raw_stays rfl).bind ?_
  rintro ⟨resp, e⟩
  cases e with
  | some e => exact .pure _
  | none => exact .pure _

theorem info_dispatched :
    Holds (fun c : Client σ => Dispatched c) (info P) fun _ c => Dispatched c := by
  refine Holds.bind (Q := fun _ c => Dispatched c) (fun _ hc => hc) ?_
  intro cached
  cases cached with
  | some m => exact .pure fun _ hc => hc
  | none =>
      refine ensure_then_stays (.inl rfl) (fun e => ⟨_, rfl⟩) ?_
      refine (raw_stays rfl).bind ?_
      rintro ⟨resp, e⟩
      cases e with
      | some e => exact .pure _
      | none => exact fun c hc => ⟨⟨hc.1.current, hc.1.sent⟩, hc.2⟩

theorem signal_dispatched (pid sig : Int) :
    Holds (fun c : Client σ => Dispatched c) (signal P pid sig) fun _ c => Dispatched c := by
  refine ensure_then_stays (.inr (.inr rfl)) (fun e => ⟨_, rfl⟩) ?_
  refine (raw_stays rfl).bind ?_
  rintro ⟨resp, e⟩
  cases e with
  | some e => exact .pure _
  | none => exact .ite (.pure _) (.pure _)

theorem delete_dispatched (path : Bytes) :
    Holds (fun c : Client σ => Dispatched c) (delete P path) fun _ c => Dispatched c := by
  refine ensure_then_stays (.inr (.inl rfl)) (fun e => ⟨_, rfl⟩) ?_
  refine (raw_stays rfl).bind ?_
  rintro ⟨resp, e⟩
  cases e with
  | some e => exact .pure _
  | none => exact .pure _

theorem mkdir_dispatched (path : Bytes) (mode : Int) :
    Holds (fun c : Client σ => Dispatched c) (mkdir P path mode) fun _ c => Dispatched c := by
  refine ensure_then_stays (.inr (.inl rfl)) (fun e => ⟨_, rfl⟩) ?_
  refine (openFile_stays path _ _).bind ?_
  intro r
  cases r with
  | error e => exact .pure _
  | ok h => exact closeFile_stays h.fd

theorem chmod_dispatched (path : Bytes) (mode : Int) :
    Holds (fun c : Client σ => Dispatched c) (chmod P path mode) fun _ c => Dispatched c := by
  refine withFile_dispatched fun h => ?_
  refine (raw_stays rfl).bind ?_
  rintro ⟨resp, e⟩
  cases e with
  | some e => exact .pure _
  | none => exact .pure _

end Client

variable {σ : Type} {P : Peer σ}

/-- One operation, whatever the daemon answers. -/
theorem Op.exec_dispatched (op : Op) (fuel : Nat) :
    Holds (fun c : Client σ => c.Dispatched) (op.exec P fuel) fun _ c => c.Dispatched := by
  cases op with
  | versions => exact Client.versions_dispatched
  | info => exact Client.info_dispatched
  | stat path =>
      have hstat : Holds (fun c : Client σ => c.Dispatched) (Client.stat P path)
          fun _ c => c.Dispatched :=
        Client.withFile_dispatched fun h => .pure _
      exact hstat
  | readFile path => exact Client.withFile_dispatched fun h => Client.readLoop_stays h fuel [] 0
  | readFileRange path off n =>
      exact Client.withFile_dispatched fun h => Client.rangeLoop_stays h.fd off n n.toNat []
  | writeFile path data mode =>
      exact Client.withFile_dispatched fun h => Client.writeLoop_stays h.fd 0 data _ 0
  | writeFileAt path off data =>
      exact Client.withFile_dispatched fun h => Client.writeLoop_stays h.fd off data _ 0
  | delete path => exact Client.delete_dispatched path
  | mkdir path mode => exact Client.mkdir_dispatched path mode
  | chmod path mode => exact Client.chmod_dispatched path mode
  | signal pid sig => exact Client.signal_dispatched pid sig

/-- Every run sends each command in the service it is for. -/
theorem runOps_dispatched (fuel : Nat) (ops : List Op) :
    Holds (fun c : Client σ => c.Dispatched) (runOps P fuel ops) fun _ c => c.Dispatched := by
  induction ops with
  | nil => exact .pure fun _ hc => hc
  | cons op ops ih =>
      refine (op.exec_dispatched fuel).bind ?_
      intro r
      cases r with
      | none => exact .pure fun _ hc => hc
      | some r => exact ih.bind fun _ => .pure fun _ hc => hc

end QconnMcp.Qconn
