import QconnMcp.Mock.Answers

/-!
# Client and mock daemon, exchange by exchange

The client tracks the service of its connection in `current`, the daemon in
`svc`; neither sees the other's. `Paired` ties the two: the same service, the
same commands in the same services, nothing unread. Every exchange keeps it,
whether it succeeds or not, and also when the daemon crashes in the middle of
one, after which every write is refused.
-/

namespace QconnMcp.Mock

open Kit Qconn

/-! ## The invariant -/

/-- The descriptors handed out and the sizes of the stored files. -/
structure StoreOk (host : Host) (k : Nat) (s : Session) : Prop where
  opened : s.nfd ≤ k
  small : ∀ p, (s.files p).length ≤ host.maxAlloc + 20

structure Paired (host : Host) (k : Nat) (c : Client (Served Session)) : Prop where
  svc : c.peer.state.svc = c.current
  log : c.peer.state.log = c.sent
  unread : c.fc.inp = []
  idle : c.peer.state.alive = true → c.peer.pending = []
  service : c.current = .broker ∨ c.current = .file ∨ c.current = .cntl
  store : StoreOk host k c.peer.state

section Paired

variable {host : Host} {k : Nat} {c c' : Client (Served Session)} {s' : Session}

theorem Paired.peer_eq (hc : Paired host k c) (ha : c.peer.state.alive = true) :
    c.peer = ⟨c.peer.state, []⟩ := by
  have := hc.idle ha
  cases h : c.peer with
  | mk st pending =>
      rw [h] at this
      exact congrArg (Served.mk st) this

/-- A text exchange: refused by a dead daemon, completed by a live one. -/
theorem raw_paired (hc : Paired host k c) {cmd t : Bytes}
    (hans : Answers host c.peer.state cmd s' t) :
    (Client.raw (mockPeer host) cmd).run c = (([], some (.io .closed)), c) ∨
      ∃ c', (Client.raw (mockPeer host) cmd).run c = ((trimLeft (· == 32) t, none), c') ∧
        Client.After .nothing c ⟨s', []⟩ [cmd] c' := by
  cases ha : c.peer.state.alive with
  | false => exact .inl (Client.raw_refused (recv_dead ha _ _))
  | true =>
      have hrecv := recv_answers ha hans
      rw [← hc.peer_eq ha] at hrecv
      exact .inr (Client.raw_of_reply (T := .nothing) hc.unread hrecv (textReply_answers hans))

/-- After an exchange the two sides agree again, up to a change of service that
the client has still to record. -/
theorem Paired.after {k' : Nat} {cmd : Bytes} (hc : Paired host k c)
    (hafter : Client.After .nothing c ⟨s', []⟩ [cmd] c')
    (hlog : s'.log = c.peer.state.log ++ [(c.peer.state.svc, cmd)]) (hstore : StoreOk host k' s')
    (hservice : s'.svc = .broker ∨ s'.svc = .file ∨ s'.svc = .cntl) :
    Paired host k' { c' with current := s'.svc } where
  svc := by
    show c'.peer.state.svc = s'.svc
    rw [hafter.peer]
  log := by
    show c'.peer.state.log = c'.sent
    rw [hafter.peer, hafter.sent, hlog, hc.log, hc.svc]
    rfl
  unread := hafter.unread
  idle := by
    intro _
    show c'.peer.pending = []
    rw [hafter.peer]
  service := hservice
  store := by
    show StoreOk host k' c'.peer.state
    rw [hafter.peer]
    exact hstore

theorem Paired.mono {k' : Nat} (hk : k ≤ k') (hc : Paired host k c) : Paired host k' c :=
  { hc with store := ⟨hc.store.opened.trans hk, hc.store.small⟩ }

variable (host) in
/-- A command that moves the daemon to another service; the client's record
follows. -/
theorem raw_moves (svc svc' : Service) (hsvc' : svc' = .broker ∨ svc' = .file ∨ svc' = .cntl)
    {cmd t : Bytes}
    (hans : ∀ s : Session, s.svc = svc →
      Answers host s cmd { s.logged cmd with svc := svc' } t) :
    Holds (fun c => Paired host k c ∧ c.current = svc) (Client.raw (mockPeer host) cmd)
      (fun r c => (r = ([], some (.io .closed)) ∧ Paired host k c) ∨
        (r = (trimLeft (· == 32) t, none) ∧ Paired host k { c with current := svc' })) := by
  intro c h
  obtain ⟨hc, hcur⟩ := h
  have hans := hans c.peer.state (hc.svc.trans hcur)
  rcases raw_paired hc hans with hrun | ⟨c', hrun, hafter⟩
  · rw [hrun]
    exact .inl ⟨rfl, hc⟩
  · rw [hrun]
    exact .inr ⟨rfl, hc.after hafter hans.log ⟨hc.store.opened, hc.store.small⟩ hsvc'⟩

/-- A command that leaves the daemon in its service. -/
theorem raw_stays {svc : Service} {cmd t : Bytes}
    (hans : ∀ s : Session, s.svc = svc → Answers host s cmd (s.logged cmd) t) :
    Holds (fun c => Paired host k c ∧ c.current = svc) (Client.raw (mockPeer host) cmd)
      (fun _ c => Paired host k c ∧ c.current = svc) := by
  intro c h
  obtain ⟨hc, hcur⟩ := h
  have hsvc : c.peer.state.svc = svc := hc.svc.trans hcur
  have hans := hans c.peer.state hsvc
  rcases raw_paired hc hans with hrun | ⟨c', hrun, hafter⟩
  · rw [hrun]
    exact ⟨hc, hcur⟩
  · rw [hrun]
    have hcur' : c'.current = svc := hafter.current.trans hcur
    have hpaired := hc.after hafter hans.log ⟨hc.store.opened, hc.store.small⟩
      (hc.svc ▸ hc.service)
    rw [show (c.peer.state.logged cmd).svc = c'.current from hsvc.trans hcur'.symm] at hpaired
    exact ⟨hpaired, hcur'⟩

/-! ## Changing services -/

theorem service_holds {pre : Client (Served Session) → Prop} :
    Holds pre Client.service (fun cur c => pre c ∧ c.current = cur) :=
  fun _ h => ⟨h, rfl⟩

theorem leaveService_paired :
    Holds (fun c => Paired host k c ∧ c.current ≠ .broker) (Client.leaveService (mockPeer host))
      (fun r c => Paired host k c ∧ (r = none → c.current = .broker)) := by
  refine service_holds.bind ?_
  intro cur
  by_cases hcur : cur = .file ∨ cur = .cntl
  · have hraw := raw_moves host (k := k) cur .broker (.inl rfl)
      fun s hs => answers_leave hcur hs
    refine (hraw.conseq (fun c h => ⟨h.1.1, h.2⟩) fun _ _ h => h).bind ?_
    intro r c h
    rcases h with ⟨rfl, hc⟩ | ⟨rfl, hc⟩
    · exact ⟨hc, nofun⟩
    · exact ⟨hc, fun _ => rfl⟩
  · intro c h
    obtain ⟨⟨hc, hne⟩, rfl⟩ := h
    exact absurd (hc.service.resolve_left hne) hcur

/-- A switch of service ends in that service, unless the daemon is gone. -/
theorem ensure_paired {svc : Service} (hsvc : svc = .broker ∨ svc = .file ∨ svc = .cntl) :
    Holds (Paired host k) (Client.ensure (mockPeer host) svc)
      (fun r c => Paired host k c ∧ (r = none → c.current = svc)) := by
  refine service_holds.bind ?_
  intro cur
  by_cases hcur : cur = svc
  · simp only [if_pos hcur]
    exact .pure fun c h => ⟨h.1, fun _ => h.2.trans hcur⟩
  · simp only [if_neg hcur]
    refine .bind (Q := fun r c => Paired host k c ∧ (r = none → c.current = .broker)) ?_ ?_
    · by_cases hb : cur = .broker
      · simp only [if_pos hb]
        exact .pure fun c h => ⟨h.1, fun _ => h.2.trans hb⟩
      · simp only [if_neg hb]
        exact leaveService_paired.conseq (fun c h => ⟨h.1, h.2 ▸ hb⟩) fun _ _ h => h
    · intro left
      cases left with
      | some e => exact .pure fun c h => ⟨h.1, nofun⟩
      | none =>
          by_cases hs : svc = .broker
          · simp only [if_pos hs]
            exact .pure fun c h => ⟨h.1, fun _ => (h.2 trivial).trans hs.symm⟩
          · simp only [if_neg hs]
            have hraw := raw_moves host (k := k) .broker svc hsvc
              fun s h => answers_service host h (hsvc.resolve_left hs)
            refine (hraw.conseq (fun c h => ⟨h.1, h.2 trivial⟩) fun _ _ h => h).bind ?_
            intro r c h
            rcases h with ⟨rfl, hc⟩ | ⟨rfl, hc⟩
            · exact ⟨hc, nofun⟩
            · exact ⟨hc, fun _ => rfl⟩

/-! ## Exchanges in the file service -/

structure InFile (host : Host) (k : Nat) (c : Client (Served Session)) : Prop
    extends Paired host k c where
  inFile : c.current = .file

theorem InFile.svc_file (hc : InFile host k c) : c.peer.state.svc = .file :=
  hc.svc.trans hc.inFile

theorem InFile.mono {k' : Nat} (hk : k ≤ k') (hc : InFile host k c) : InFile host k' c :=
  ⟨hc.toPaired.mono hk, hc.inFile⟩

theorem InFile.after {k' : Nat} {cmd : Bytes} (hc : InFile host k c)
    (hafter : Client.After .nothing c ⟨s', []⟩ [cmd] c') (hsvc : s'.svc = .file)
    (hlog : s'.log = c.peer.state.log ++ [(c.peer.state.svc, cmd)]) (hstore : StoreOk host k' s') :
    InFile host k' c' := by
  have hcur : c'.current = .file := hafter.current.trans hc.inFile
  have hpaired := hc.toPaired.after hafter hlog hstore (.inr (.inl hsvc))
  rw [hsvc, ← hcur] at hpaired
  exact ⟨hpaired, hcur⟩

/-- A daemon that crashes on a command has received that command. -/
theorem InFile.crash (hc : InFile host k c) {fc : FrameConn} (hfc : fc.inp = []) (cmd : Bytes) :
    InFile host k ⟨fc, ⟨c.peer.state.crashed cmd, []⟩, c.current, c.infoMap,
      c.sent ++ [(c.current, cmd)]⟩ where
  svc := hc.svc
  log := by
    show c.peer.state.log ++ [(c.peer.state.svc, cmd)] = c.sent ++ [(c.current, cmd)]
    rw [hc.log, hc.svc]
  unread := hfc
  idle := nofun
  service := hc.service
  store := ⟨hc.store.opened, hc.store.small⟩
  inFile := hc.inFile

variable (host) in
/-- Close, delete and chmod. -/
theorem raw_ok {a : UInt8} (ha : a = 99 ∨ a = 100 ∨ a = 97) (rest : Bytes)
    (hlf : (10 : UInt8) ∉ rest) (hcr : (13 : UInt8) ∉ rest) :
    Holds (InFile host k) (Client.raw (mockPeer host) (a :: 58 :: rest))
      (fun _ c => InFile host k c) :=
  (raw_stays fun _ hs => answers_ok host hs ha hlf hcr).conseq
    (fun _ hc => ⟨hc.toPaired, hc.inFile⟩) fun _ _ hc => ⟨hc.1, hc.2⟩

theorem closeFile_inFile (fd : Int) :
    Holds (InFile host k) (Client.closeFile (mockPeer host) fd) (fun _ c => InFile host k c) := by
  refine (raw_ok host (.inl rfl) _ (lf_not_mem_hex fd) (cr_not_mem_hex fd)).bind ?_
  intro r
  rcases r with ⟨resp, _ | e⟩
  · exact .pure fun _ h => h
  · exact .pure fun _ h => h

/-- What an open of `path` as number `k` leaves behind. The daemon finds the
descriptor again as long as its number fits the client's `int64`. -/
structure Opened (path : Bytes) (k : Nat) (h : FileHandle) (s : Session) : Prop where
  range : 0 ≤ h.fd ∧ h.fd < 2 ^ 63
  entry : k < 2 ^ 62 → s.fds h.fd.toNat = some ⟨path, Session.isProcPath path⟩
  size : Session.isProcPath path = true → h.size = 0x7fffffff

theorem Session.sizeAt_lt {path : Bytes} {s : Session} (h : StoreOk host k s) :
    s.sizeAt path < 2 ^ 63 := by
  have hmax := host.maxAlloc_le
  have hfiles := h.small path
  unfold Session.sizeAt Session.filesAt
  split
  · decide
  · split
    · rw [Function.update_self]
      decide
    · omega

/-- Opening a node below `/proc/` may create a short file. -/
theorem StoreOk.openCase {path : Bytes} {s : Session} (h : StoreOk host k s) :
    StoreOk host (k + 1) (s.openCase path).1 where
  opened := Nat.succ_le_succ h.opened
  small := by
    intro p
    show (s.filesAt path p).length ≤ _
    unfold Session.filesAt
    split
    · by_cases hp : p = path
      · subst hp
        rw [Function.update_self]
        exact (by decide : (ascii "synthetic proc node\n").length ≤ 20).trans (Nat.le_add_left 20 _)
      · rw [Function.update_of_ne hp]
        exact h.small p
    · exact h.small p

/-- An open whose request fails is an error that leaves what the request left. -/
theorem openFile_failed {σ : Type} {P : Peer σ} {c c' : Client σ} {path resp : Bytes}
    {flags mode : Int} {e : Err}
    (h : (Client.raw P (openCmd path flags mode)).run c = ((resp, some e), c')) :
    (Client.openFile P path flags mode).run c = (.error e, c') := by
  rw [Client.openFile, run_bind, h]
  rfl

theorem openFile_inFile {path : Bytes} (hpath : PlainPath path) (flags mode : Int) :
    Holds (InFile host k) (Client.openFile (mockPeer host) path flags mode)
      (fun r c => InFile host (k + 1) c ∧ ∀ h, r = .ok h → Opened path k h c.peer.state) := by
  intro c hc
  have hmono := hc.mono (Nat.le_succ k)
  rcases answers_open host hc.svc_file hpath flags mode with hans | hans
  · rcases raw_paired hc.toPaired hans with hrun | ⟨c', hrun, hafter⟩
    · rw [openFile_failed hrun]
      exact ⟨hmono, nofun⟩
    · have hopen : (Client.openFile (mockPeer host) path flags mode).run c =
          (.error (.openFailed path (ascii "error bad-open")), c') := by
        rw [Client.openFile, run_bind, hrun]
        rfl
      rw [hopen]
      exact ⟨hmono.after hafter hc.svc_file hans.log ⟨hmono.store.opened, hmono.store.small⟩, nofun⟩
  · rcases raw_paired hc.toPaired hans with hrun | ⟨c', hrun, hafter⟩
    · rw [openFile_failed hrun]
      exact ⟨hmono, nofun⟩
    · have hopen : (Client.openFile (mockPeer host) path flags mode).run c =
          (.ok ⟨(parseInt 16 (fmtNat 16 (c.peer.state.nfd + 3))).1, (parseInt 16 (fmtNat 16 0o100644)).1,
            (parseInt 16 (fmtNat 16 (c.peer.state.sizeAt path))).1, path⟩, c') := by
        rw [Client.openFile, run_bind, hrun]
        simp only [firstLine_openAnswer hpath.lf, parseOpen_openAnswer hpath.ne_nil hpath.lf]
        rfl
      rw [hopen]
      have hstore : StoreOk host k (c.peer.state.logged (openCmd path flags mode)) :=
        ⟨hc.store.opened, hc.store.small⟩
      refine ⟨hc.after hafter hc.svc_file hans.log hstore.openCase, ?_⟩
      intro h hh
      obtain rfl := Except.ok.inj hh
      refine ⟨?_, ?_, ?_⟩
      · rw [parseInt_of_digits fmtNat_hex]
        exact ⟨clampInt_false_nonneg _, clampInt_lt _ _⟩
      · intro hk
        have hopened := hc.store.opened
        rw [hafter.peer, parseInt_fmtNat (by decide) (by decide) (by omega)]
        exact Function.update_self ..
      · intro hproc
        rw [parseInt_fmtNat (by decide) (by decide) (Session.sizeAt_lt hc.store), Session.sizeAt,
          if_pos hproc]
        rfl

/-! ## Status lines -/

/-- The answer to a read command, as the client takes it apart. -/
theorem statusReply_read (s : Session) (d : Bytes) :
    StatusReply .nothing (countLine d.length (ascii "0:0\r")) d
      (ascii "o:" ++ fmtNat 16 d.length ++ ascii ":0:0\r\n" ++ d ++ s.prompt) := by
  have h := statusReply_countLine (t := ascii "0:0\r") (prompt_mem s) d.length (by decide)
    (by decide) (show Trail.ok .nothing [] from rfl) d
  simpa [countLine, ascii] using h

theorem statusReply_write (s : Session) (n : Nat) :
    StatusReply .nothing (countLine n (ascii "0\r")) []
      (ascii "o:" ++ fmtNat 16 n ++ ascii ":0\r\n" ++ s.prompt) := by
  have h := statusReply_countLine (t := ascii "0\r") (prompt_mem s) n (by decide) (by decide)
    (show Trail.ok .nothing [] from rfl) []
  simpa [countLine, ascii] using h

/-- The refusal of a read command. -/
theorem statusReply_badRead (s : Session) :
    StatusReply .nothing (ascii "error bad-read\r") [] (ascii "error bad-read\r\n" ++ s.prompt) := by
  have h : StatusReply .nothing (ascii "error bad-read\r") []
      (ascii "error bad-read\r" ++ [10] ++ ([] ++ (s.prompt ++ []))) :=
    statusReply_of_clean (prompt_mem s) (by decide) (by decide) rfl
  simpa [ascii] using h

/-! ## Reading -/

/-- The same descriptors and files. -/
def SameStore (s s' : Session) : Prop := s'.fds = s.fds ∧ s'.files = s.files

theorem clipRead_range {n : Int} (hn : 0 ≤ n) :
    0 ≤ Client.clipRead n ∧ Client.clipRead n < 2 ^ 63 := by
  have hmax : (maxReadChunk : Int) = 2048 := rfl
  unfold Client.clipRead
  split <;> omega

/-- Reading keeps the two sides together; what it returns is what the daemon
holds at that place. -/
theorem readAt_inFile (fd off : Int) {n : Int} (hn : 0 ≤ n) (s : Session) :
    Holds (fun c => InFile host k c ∧ SameStore s c.peer.state)
      (Client.readAt (mockPeer host) fd off n)
      (fun r c => (InFile host k c ∧ SameStore s c.peer.state) ∧
        (r.2 = none → 0 ≤ fd ∧ fd < 2 ^ 63 → 0 ≤ off ∧ off < 2 ^ 63 →
          s.readVfile host fd.toNat off.toNat (Client.clipRead n).toNat = some r.1)) := by
  intro c h
  obtain ⟨hc, hsame⟩ := h
  have hkeep : StoreOk host k
      (c.peer.state.logged (readCmd fd off (Client.clipRead n))) :=
    ⟨hc.store.opened, hc.store.small⟩
  have hvfile : ∀ fd off n, c.peer.state.readVfile host fd off n = s.readVfile host fd off n := by
    intro fd off n
    simp only [Session.readVfile, hsame.1, hsame.2]
  cases ha : c.peer.state.alive with
  | false =>
      rw [Client.readAt_refused (recv_dead ha _ _)]
      exact ⟨⟨hc, hsame⟩, fun hnil => absurd hnil (Option.some_ne_none _)⟩
  | true =>
      have hpeer := hc.peer_eq ha
      rcases recv_read host ha hc.svc_file fd off (clipRead_range hn) with
        hrecv | hrecv | ⟨fd', off', d, hparse, hread, hrecv⟩
      · rw [← hpeer] at hrecv
        obtain ⟨fc, hrun, hinp⟩ := Client.readAt_unanswered hc.unread hrecv
        rw [hrun]
        exact ⟨⟨hc.crash hinp _, hsame⟩, fun hnil => absurd hnil (Option.some_ne_none _)⟩
      · rw [← hpeer] at hrecv
        have hann : Client.Announces (statusLine (ascii "error bad-read\r")) [] := by
          rw [Client.Announces, if_neg (by decide)]
        obtain ⟨c', hrun, hafter⟩ := Client.readAt_of_reply (T := .nothing) hc.unread hrecv
          (statusReply_badRead _) hann
        rw [hrun]
        refine ⟨⟨hc.after hafter hc.svc_file rfl hkeep, ?_⟩,
          fun hnil => absurd hnil (Option.some_ne_none _)⟩
        rw [hafter.peer]
        exact hsame
      · rw [← hpeer] at hrecv
        have hlen : d.length < 2 ^ 63 := by
          have := readVfile_length hread
          have := clipRead_range hn
          omega
        obtain ⟨c', hrun, hafter⟩ := Client.readAt_of_reply (T := .nothing) hc.unread hrecv
          (statusReply_read _ d) (announces_countLine hlen)
        rw [hrun]
        refine ⟨⟨hc.after hafter hc.svc_file rfl hkeep, ?_⟩, ?_⟩
        · rw [hafter.peer]
          exact hsame
        · intro _ hfd hoff
          rw [parseRw_readCmd hfd hoff (clipRead_range hn)] at hparse
          simp only [Option.some.injEq, Prod.mk.injEq, and_true] at hparse
          obtain ⟨rfl, rfl⟩ := hparse
          rw [← hvfile, hread, readResult_countLine]

theorem readAt_keeps (fd off : Int) {n : Int} (hn : 0 ≤ n) :
    Holds (InFile host k) (Client.readAt (mockPeer host) fd off n) (fun _ c => InFile host k c) :=
  fun c hc => (readAt_inFile fd off hn c.peer.state c ⟨hc, rfl, rfl⟩).1.1

/-- A read that finds data here and reaches `limit` reaches the announced size. -/
def EndsBy (host : Host) (s : Session) (h : FileHandle) (limit : Nat) : Prop :=
  ∀ off d, s.readVfile host h.fd.toNat off maxReadChunk = some d → d ≠ [] →
    limit ≤ off + d.length → 0 < h.size ∧ h.size ≤ off + d.length

/-- The loop of `ReadFile` keeps the two sides together, and ends within
`limit` rounds where reading ends there. -/
theorem readLoop_inFile (s : Session) (h : FileHandle) (fuel : Nat) (out : Bytes) (off : Int) :
    Holds (fun c => InFile host k c ∧ SameStore s c.peer.state)
      (Client.readLoop (mockPeer host) h fuel out off)
      (fun r c => InFile host k c ∧
        ∀ limit, EndsBy host s h limit → limit < 2 ^ 62 → 0 ≤ h.fd ∧ h.fd < 2 ^ 63 →
          0 ≤ off → off < limit → limit ≤ off + fuel → r.isSome) := by
  induction fuel generalizing out off with
  | zero =>
      refine .pure fun c hc => ⟨hc.1, ?_⟩
      intro limit _ _ _ _ hlt hle
      omega
  | succ fuel ih =>
      refine (readAt_inFile h.fd off (Int.natCast_nonneg maxReadChunk) s).bind ?_
      intro r
      rcases r with ⟨chunk, _ | e⟩
      · by_cases hempty : chunk = []
        · simp only [if_pos hempty]
          exact .pure fun c hc => ⟨hc.1.1, fun _ _ _ _ _ _ _ => rfl⟩
        · simp only [if_neg hempty]
          by_cases hend : 0 < h.size ∧ h.size ≤ wrap64 (off + chunk.length)
          · simp only [if_pos hend]
            exact .pure fun c hc => ⟨hc.1.1, fun _ _ _ _ _ _ _ => rfl⟩
          · simp only [if_neg hend]
            intro c hc
            obtain ⟨hstate, hread⟩ := hc
            obtain ⟨hin, hrest⟩ := ih (out ++ chunk) (wrap64 (off + chunk.length)) c hstate
            refine ⟨hin, ?_⟩
            intro limit hends hlimit hfd hoff hlt hle
            have hvfile := hread trivial hfd ⟨hoff, by omega⟩
            have hlen : chunk.length ≤ 2048 := readVfile_length hvfile
            have hpos : 0 < chunk.length := List.length_pos_iff.mpr hempty
            have hwrap : wrap64 (off + chunk.length) = off + chunk.length :=
              wrap64_of_bounds (by omega) (by omega)
            rw [hwrap] at hend
            refine hrest limit hends hlimit hfd (by omega) ?_ (by omega)
            rw [hwrap]
            by_contra hover
            exact hend (by
              have := hends off.toNat chunk hvfile hempty (by omega)
              omega)
      · exact .pure fun c hc => ⟨hc.1.1, fun _ _ _ _ _ _ _ => rfl⟩

/-- Every file of the daemon ends, and so do its endless nodes at the size they
announce. -/
theorem Opened.endsBy {path : Bytes} {h : FileHandle} {s : Session} (hs : StoreOk host k s)
    {j : Nat} (ho : Opened path j h s) (hj : j < 2 ^ 62) :
    EndsBy host s h (host.maxAlloc + 2 ^ 31) := by
  intro off d hread hne hlimit
  have hsmall := hs.small path
  simp only [Session.readVfile, ho.entry hj] at hread
  split at hread
  · rename_i hproc
    have hsize := ho.size hproc
    omega
  · split at hread
    · exact absurd (Option.some.inj hread).symm hne
    · split at hread
      · simp at hread
      · obtain rfl := Option.some.inj hread
        simp only [List.length_take, List.length_drop] at hlimit
        omega

theorem rangeLoop_inFile (fd off n : Int) (fuel : Nat) (out : Bytes) :
    Holds (InFile host k) (Client.rangeLoop (mockPeer host) fd off n fuel out)
      (fun _ c => InFile host k c) := by
  induction fuel generalizing out with
  | zero => exact .pure fun _ h => h
  | succ fuel ih =>
      unfold Client.rangeLoop
      by_cases hlt : (out.length : Int) < n
      · simp only [if_pos hlt]
        refine (readAt_keeps fd _ (clipRead_range (by omega)).1).bind ?_
        intro r
        rcases r with ⟨chunk, _ | e⟩
        · by_cases hempty : chunk = []
          · simp only [if_pos hempty]
            exact .pure fun _ h => h
          · simp only [if_neg hempty]
            exact ih (out ++ chunk)
        · exact .pure fun _ h => h
      · simp only [if_neg hlt]
        exact .pure fun _ h => h

/-! ## Writing -/

/-- An upload that does not crash the daemon keeps files below the largest
buffer. -/
theorem StoreOk.store {s : Session} (h : StoreOk host k s) {fd off : Nat} {data : Bytes}
    (hstore : s.storeVfile host fd off data = some s') :
    StoreOk host k s' ∧ s'.svc = s.svc ∧ s'.log = s.log := by
  unfold Session.storeVfile at hstore
  split at hstore
  · cases hstore
    exact ⟨h, rfl, rfl⟩
  · rename_i vf hfd
    split at hstore
    · cases hstore
      exact ⟨h, rfl, rfl⟩
    · split at hstore
      · simp at hstore
      · rename_i hfits
        cases hstore
        refine ⟨⟨h.opened, ?_⟩, rfl, rfl⟩
        intro p
        have hsmall := h.small p
        by_cases hp : p = vf.path
        · subst hp
          show (Function.update s.files vf.path _ vf.path).length ≤ _
          rw [Function.update_self, overwrite_length]
          omega
        · show (Function.update s.files vf.path _ p).length ≤ _
          rw [Function.update_of_ne hp]
          exact hsmall

/-- An upload keeps the two sides together; what the daemon takes at all it
takes completely. -/
theorem writeAt_inFile {fd off : Int} (hfd : 0 ≤ fd ∧ fd < 2 ^ 63) (hoff : 0 ≤ off ∧ off < 2 ^ 63)
    {data : Bytes} (hne : data ≠ []) (hlen : data.length < 2 ^ 63) :
    Holds (InFile host k) (Client.writeAt (mockPeer host) fd off data)
      (fun r c => InFile host k c ∧ (r.2 = none → r.1 = data.length)) := by
  intro c hc
  cases ha : c.peer.state.alive with
  | false =>
      rw [Client.writeAt_refused (recv_dead ha _ _)]
      exact ⟨hc, nofun⟩
  | true =>
      have hpeer := hc.peer_eq ha
      obtain ⟨hcrash, hgoes⟩ := recv_writeCmd host ha hc.svc_file hfd hoff hne hlen
      rw [← hpeer] at hcrash hgoes
      by_cases hbig : host.maxAlloc < data.length
      · obtain ⟨fc, hrun, hinp⟩ :=
          Client.writeAt_cut hc.unread (hcrash hbig) (recv_dead rfl _ _)
        rw [hrun]
        exact ⟨hc.crash hinp _, nofun⟩
      obtain ⟨hreq, hpay⟩ := hgoes hbig
      cases hstore : (c.peer.state.logged (writeCmd fd off data.length)).storeVfile host fd.toNat
          off.toNat data with
      | none =>
        rw [hstore] at hpay
        obtain ⟨fc, hrun, hinp⟩ := Client.writeAt_unanswered hc.unread hreq hpay
        rw [hrun]
        exact ⟨hc.crash hinp _, nofun⟩
      | some s' =>
        rw [hstore] at hpay
        have hlogged : StoreOk host k
            (c.peer.state.logged (writeCmd fd off data.length)) :=
          ⟨hc.store.opened, hc.store.small⟩
        obtain ⟨hstore', hsvc, hlog⟩ := hlogged.store hstore
        have hline := statusLine_countLine data.length (ascii "0\r")
        obtain ⟨c', hrun, hafter⟩ := Client.writeAt_of_reply (T := .nothing) hc.unread hreq hpay
          (statusReply_write s' data.length) (by rw [hline]; exact isPrefixOf_countLine _ _)
        rw [hrun]
        refine ⟨hc.after hafter (hsvc.trans hc.svc_file) hlog hstore', ?_⟩
        intro _
        rw [hline, statusCount_countLine hlen]

/-- The upload loop: every chunk is taken completely, so offsets stay inside the
data. -/
theorem writeLoop_inFile {fd off : Int} (hfd : 0 ≤ fd ∧ fd < 2 ^ 63) {data : Bytes} (hoff : 0 ≤ off)
    (hlen : off + data.length < 2 ^ 63) (fuel : Nat) (total : Int)
    (htotal : 0 ≤ total ∧ total ≤ data.length) :
    Holds (InFile host k) (Client.writeLoop (mockPeer host) fd off data fuel total)
      (fun _ c => InFile host k c) := by
  induction fuel generalizing total with
  | zero => exact .pure fun _ h => h
  | succ fuel ih =>
      unfold Client.writeLoop
      by_cases hlt : total < data.length
      · have hpos : ¬ total < 0 := by omega
        have hchunk := Client.chunk_ne_nil hlt hpos
        have hsize : ((data.drop total.toNat).take maxWriteChunk).length ≤
            data.length - total.toNat := by
          simp only [List.length_take, List.length_drop]
          omega
        have hwrap : wrap64 (off + total) = off + total :=
          wrap64_of_bounds (by omega) (by omega)
        simp only [if_pos hlt, if_neg hpos, hwrap]
        refine (writeAt_inFile hfd (by omega) hchunk (by omega)).bind ?_
        intro r
        rcases r with ⟨nw, _ | e⟩
        · by_cases hnw : nw ≤ 0
          · simp only [if_pos hnw]
            exact .pure fun _ h => h.1
          · simp only [if_neg hnw]
            intro c hc
            obtain ⟨hin, hcount⟩ := hc
            have hnw := hcount trivial
            refine ih (wrap64 (total + nw)) ?_ c hin
            rw [wrap64_of_bounds (by omega) (by omega)]
            omega
        · exact .pure fun _ h => h.1
      · simp only [if_neg hlt]
        exact .pure fun _ h => h

end Paired

end QconnMcp.Mock
