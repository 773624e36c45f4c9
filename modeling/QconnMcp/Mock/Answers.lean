import QconnMcp.Mock.Grammar

/-!
# What the mock daemon answers to the client

For every command the client sends in a service, the session state behind it
and the text of the answer (`Answers`). Reads and writes on descriptors have a
status line and data of their own, and may crash the session.
-/

namespace QconnMcp.Mock

open Kit Qconn

/-! ## Text answers -/

/-- In state `s` the command `cmd` is answered by the text `t` and a prompt, and
leads to `s'`. -/
structure Answers (host : Host) (s : Session) (cmd : Bytes) (s' : Session) (t : Bytes) : Prop where
  line : (10 : UInt8) ∉ cmd
  trim : Session.trimLine cmd = cmd
  payload : s.payload host cmd = 0
  step : s.dispatch host cmd [] = Session.prompted (s', t)
  alive : s'.alive = s.alive
  log : s'.log = s.log ++ [(s.svc, cmd)]
  noPrompt : NoPrompt t
  clean : iac ∉ t

theorem prompt_mem (s : Session) : s.prompt ∈ prompts := by
  unfold Session.prompt
  cases s.svc <;> decide

/-- A command that does not end in a line break is dispatched as it is. -/
theorem trimLine_concat {cmd : Bytes} {b : UInt8} (hb : (b == 13 || b == 10) = false) :
    Session.trimLine (cmd ++ [b]) = cmd ++ [b] :=
  trimRight_concat_of_not hb cmd

theorem trimLine_eq {cmd : Bytes} (h : (13 : UInt8) ∉ cmd) (h' : (10 : UInt8) ∉ cmd) :
    Session.trimLine cmd = cmd := by
  rcases List.eq_nil_or_concat cmd with rfl | ⟨t, b, rfl⟩
  · rfl
  · rw [List.concat_eq_append] at h h' ⊢
    apply trimLine_concat
    simp only [List.mem_append, List.mem_singleton, not_or] at h h'
    simp [Ne.symm h.2, Ne.symm h'.2]

section Fixed

variable {host : Host} {s : Session}

theorem payload_of_not_file (h : s.svc ≠ .file) (cmd : Bytes) : s.payload host cmd = 0 := by
  rw [Session.payload, if_neg]
  exact fun h' => h h'.1

def versionsText : Bytes :=
  ascii "versions: broker/256 launcher/256 file/256 cntl/256 sinfo/256\r\n"

variable (host) in
theorem answers_versions (h : s.svc = .broker) :
    Answers host s (ascii "versions ?") (s.logged (ascii "versions ?")) versionsText where
  line := by decide
  trim := by decide
  payload := payload_of_not_file (by simp [h]) _
  step := by
    simp only [Session.dispatch, h]
    rfl
  alive := rfl
  log := rfl
  noPrompt := by decide
  clean := by decide

theorem mockInfo_bytes : ∀ b ∈ mockInfo ++ ascii "\r\n", b ≠ 60 ∧ b ≠ iac := by
  decide +kernel

variable (host) in
theorem answers_info (h : s.svc = .broker) :
    Answers host s (ascii "info") (s.logged (ascii "info")) (mockInfo ++ ascii "\r\n") where
  line := by decide
  trim := by decide
  payload := payload_of_not_file (by simp [h]) _
  step := by
    simp only [Session.dispatch, h]
    rfl
  alive := rfl
  log := rfl
  noPrompt := noPrompt_of_no_lt fun h => (mockInfo_bytes _ h).1 rfl
  clean := fun h => (mockInfo_bytes _ h).2 rfl

variable (host) in
/-- Entering one of the services the client uses. -/
theorem answers_service (h : s.svc = .broker) {svc : Service} (hsvc : svc = .file ∨ svc = .cntl) :
    Answers host s (ascii "service " ++ svc.name)
      { s.logged (ascii "service " ++ svc.name) with svc := svc } (ascii "OK\r\n") where
  line := by rcases hsvc with rfl | rfl <;> decide
  trim := by rcases hsvc with rfl | rfl <;> decide
  payload := payload_of_not_file (by simp [h]) _
  step := by
    simp only [Session.dispatch, h]
    rcases hsvc with rfl | rfl <;> rfl
  alive := rfl
  log := rfl
  noPrompt := by decide
  clean := by decide

/-- The client's leave command of either service. -/
theorem answers_leave {svc : Service} (hsvc : svc = .file ∨ svc = .cntl) (h : s.svc = svc) :
    Answers host s (if svc = .file then ascii "q" else ascii "done")
      { s.logged (if svc = .file then ascii "q" else ascii "done") with svc := .broker } [] where
  line := by rcases hsvc with rfl | rfl <;> decide
  trim := by rcases hsvc with rfl | rfl <;> decide
  payload := by
    rw [Session.payload, if_neg]
    rcases hsvc with rfl | rfl <;> simp [ascii]
  step := by
    simp only [Session.dispatch, h]
    rcases hsvc with rfl | rfl <;> rfl
  alive := rfl
  log := rfl
  noPrompt := noPrompt_nil
  clean := by simp

theorem answers_kill (h : s.svc = .cntl) (pid sig : Int) :
    Answers host s (ascii "kill " ++ fmtInt 10 pid ++ ascii " " ++ fmtInt 10 sig)
      (s.logged (ascii "kill " ++ fmtInt 10 pid ++ ascii " " ++ fmtInt 10 sig))
      (ascii "ok\r\n") where
  line := by simp [ascii]
  trim := by apply trimLine_eq <;> simp [ascii]
  payload := payload_of_not_file (by simp [h]) _
  step := by
    simp only [Session.dispatch, h, List.append_assoc]
    rfl
  alive := rfl
  log := rfl
  noPrompt := by decide
  clean := by decide

end Fixed

/-! ## The file service -/

section File

variable {host : Host} {s : Session}

theorem dispatch_file (h : s.svc = .file) (cmd data : Bytes) :
    s.dispatch host cmd data = (s.logged cmd).file host cmd data := by
  simp only [Session.dispatch, h]

theorem not_leave (a : UInt8) (rest : Bytes) :
    ¬ (a :: 58 :: rest = ascii "q" ∨ a :: 58 :: rest = ascii "done" ∨
      a :: 58 :: rest = ascii "quit") := by
  simp [ascii]

/-! The file service looks at the letter in front of the first colon. -/

variable (host) in
theorem fileSwitch_open (rest data : Bytes) :
    s.fileSwitch host (111 :: 58 :: rest) data =
      match parseOpen (111 :: 58 :: rest) with
      | none => some (s, ascii "error bad-open\r\n")
      | some (path, _, _) => some (s.openCase path) := by
  rw [Session.fileSwitch, if_neg (not_leave _ _)]
  rfl

theorem fileSwitch_ok {a : UInt8} (ha : a = 99 ∨ a = 100 ∨ a = 97) (rest data : Bytes) :
    s.fileSwitch host (a :: 58 :: rest) data = some (s, ascii "o\r\n") := by
  rw [Session.fileSwitch, if_neg (not_leave _ _)]
  rcases ha with rfl | rfl | rfl <;> rfl

variable (host) in
theorem fileSwitch_read (rest data : Bytes) :
    s.fileSwitch host (114 :: 58 :: rest) data =
      match parseRw (114 :: 58 :: rest) with
      | none => some (s, ascii "error bad-read\r\n")
      | some (fd, off, n) =>
          (s.readVfile host fd off n).map fun d =>
            (s, ascii "o:" ++ fmtNat 16 d.length ++ ascii ":0:0\r\n" ++ d) := by
  rw [Session.fileSwitch, if_neg (not_leave _ _)]
  rfl

variable (host) in
theorem fileSwitch_write (rest data : Bytes) :
    s.fileSwitch host (119 :: 58 :: rest) data =
      match parseRw (119 :: 58 :: rest) with
      | none => some (s, ascii "error bad-write\r\n")
      | some (fd, off, n) =>
          if host.maxAlloc < n then none
          else
            (s.storeVfile host fd off data).map fun s =>
              (s, ascii "o:" ++ fmtNat 16 n ++ ascii ":0\r\n") := by
  rw [Session.fileSwitch, if_neg (not_leave _ _)]
  rfl

variable (host) in
/-- Only uploads take a payload. -/
theorem payload_of_letter {a : UInt8} (ha : a ≠ 119) (rest : Bytes) :
    s.payload host (a :: 58 :: rest) = 0 := by
  rw [Session.payload, if_neg]
  intro h
  have h2 : ((119 == a) && List.isPrefixOf [58] (58 :: rest)) = true := h.2
  simp only [Bool.and_eq_true, beq_iff_eq] at h2
  exact ha h2.1.symm

variable (host) in
/-- Close, delete and chmod are always answered `o`. -/
theorem answers_ok (h : s.svc = .file) {a : UInt8} (ha : a = 99 ∨ a = 100 ∨ a = 97) {rest : Bytes}
    (hlf : (10 : UInt8) ∉ rest) (hcr : (13 : UInt8) ∉ rest) :
    Answers host s (a :: 58 :: rest) (s.logged (a :: 58 :: rest)) (ascii "o\r\n") := by
  have hline : (10 : UInt8) ∉ a :: 58 :: rest := by
    rcases ha with rfl | rfl | rfl <;> simp [hlf]
  refine ⟨hline, trimLine_eq ?_ hline, payload_of_letter host ?_ rest, ?_, rfl, rfl, by decide, by decide⟩
  · rcases ha with rfl | rfl | rfl <;> simp [hcr]
  · rcases ha with rfl | rfl | rfl <;> decide
  · rw [dispatch_file h, Session.file, fileSwitch_ok ha]

variable (host) in
theorem answers_delete (h : s.svc = .file) {path : Bytes} (hpath : PlainPath path) :
    Answers host s (deleteCmd path) (s.logged (deleteCmd path)) (ascii "o\r\n") := by
  have hlf : (10 : UInt8) ∉ 34 :: (path ++ ascii "\":1") := by simp [ascii, hpath.lf]
  have hcr : (13 : UInt8) ∉ 34 :: (path ++ ascii "\":1") := by simp [ascii, hpath.cr]
  exact answers_ok host h (.inr (.inl rfl)) hlf hcr

variable (host) in
/-- Every open command for a plain path is one line without a payload. -/
theorem openCmd_line {path : Bytes} (hpath : PlainPath path) (flags mode : Int) :
    (10 : UInt8) ∉ openCmd path flags mode ∧
      Session.trimLine (openCmd path flags mode) = openCmd path flags mode ∧
      s.payload host (openCmd path flags mode) = 0 := by
  have hline : (10 : UInt8) ∉ openCmd path flags mode := by
    simp [openCmd, ascii, hpath.lf]
  refine ⟨hline, trimLine_eq ?_ hline, payload_of_letter host (by decide) _⟩
  simp [openCmd, ascii, hpath.cr]

theorem dispatch_openCmd (h : s.svc = .file) (path : Bytes) (flags mode : Int) :
    s.dispatch host (openCmd path flags mode) [] =
      Session.prompted
        (match parseOpen (openCmd path flags mode) with
        | none => (s.logged (openCmd path flags mode), ascii "error bad-open\r\n")
        | some (path', _, _) => (s.logged (openCmd path flags mode)).openCase path') := by
  have hswitch := fileSwitch_open host (s := s.logged (openCmd path flags mode))
    (34 :: (path ++ ascii "\":" ++ fmtInt 16 flags ++ ascii ":" ++ fmtInt 16 mode)) []
  have hcmd : openCmd path flags mode =
      111 :: 58 :: 34 :: (path ++ ascii "\":" ++ fmtInt 16 flags ++ ascii ":" ++ fmtInt 16 mode) := rfl
  rw [← hcmd] at hswitch
  rw [dispatch_file h, Session.file, hswitch]
  cases parseOpen (openCmd path flags mode) with
  | none => rfl
  | some r => rfl

/-- Outside `/proc/` an open hands out the next descriptor and touches no file. -/
theorem openCase_ordinary {path : Bytes} (hproc : (ascii "/proc/").isPrefixOf path = false) :
    s.openCase path =
      ({ s with
          nfd := s.nfd + 1
          fds := Function.update s.fds (s.nfd + 3) (some ⟨path, false⟩) },
        openAnswer (s.nfd + 3) 0o100644 (s.files path).length path ++ ascii "\r\n") := by
  have hnode : Session.isProcPath path = false := by
    rw [Session.isProcPath, hproc, Bool.false_and]
  have hfiles : s.filesAt path = s.files := by
    rw [Session.filesAt, hproc, Bool.false_and, if_neg (by decide)]
  have hsize : s.sizeAt path = (s.files path).length := by
    rw [Session.sizeAt, hnode, if_neg (by decide), hfiles]
  rw [Session.openCase, hnode, hfiles, hsize]

variable (host) in
/-- An open command whose numbers the daemon can read opens the path it names. -/
theorem answers_opened (h : s.svc = .file) {path : Bytes} (hpath : PlainPath path)
    {flags mode : Int} {f m : Bytes} (hparse : parseOpen (openCmd path flags mode) = some (path, f, m)) :
    Answers host s (openCmd path flags mode) ((s.logged (openCmd path flags mode)).openCase path).1
      (openAnswer (s.nfd + 3) 0o100644 (s.sizeAt path) path ++ ascii "\r\n") := by
  obtain ⟨hline, htrim, hpay⟩ := openCmd_line host (s := s) hpath flags mode
  obtain ⟨hno, hclean⟩ := openAnswer_text hpath (s.nfd + 3) 0o100644 (s.sizeAt path)
  refine ⟨hline, htrim, hpay, ?_, rfl, rfl, hno, hclean⟩
  rw [dispatch_openCmd h, hparse]
  rfl

variable (host) in
/-- An open command is refused for its numbers, or opens the path it names. -/
theorem answers_open (h : s.svc = .file) {path : Bytes} (hpath : PlainPath path)
    (flags mode : Int) :
    Answers host s (openCmd path flags mode) (s.logged (openCmd path flags mode))
        (ascii "error bad-open\r\n") ∨
      Answers host s (openCmd path flags mode)
        ((s.logged (openCmd path flags mode)).openCase path).1
        (openAnswer (s.nfd + 3) 0o100644 (s.sizeAt path) path ++ ascii "\r\n") := by
  cases hparse : parseOpen (openCmd path flags mode) with
  | none =>
      obtain ⟨hline, htrim, hpay⟩ := openCmd_line host (s := s) hpath flags mode
      refine .inl ⟨hline, htrim, hpay, ?_, rfl, rfl, by decide, by decide⟩
      rw [dispatch_openCmd h, hparse]
  | some r =>
      obtain ⟨p, f, m⟩ := r
      obtain rfl := parseOpen_openCmd_path hpath.quote hparse
      exact .inr (answers_opened host h hpath hparse)

end File

/-! ## On the wire -/

/-- The mock daemon as the client's peer. -/
abbrev mockPeer (host : Host) : Peer (Served Session) := (serve host).toPeer

section Wire

variable {host : Host} {s s' : Session}

theorem recv_dead (h : s.alive = false) (p b : Bytes) : (mockPeer host).recv ⟨s, p⟩ b = none := by
  simp [mockPeer, LineDaemon.toPeer, serve, h]

/-! A line with nothing to trim is dispatched as it is. -/

theorem serve_payload {line : Bytes} (htrim : Session.trimLine line = line) :
    (serve host).payload s line = s.payload host line := congrArg (s.payload host) htrim

theorem serve_handle {line : Bytes} (htrim : Session.trimLine line = line) (data : Bytes) :
    (serve host).handle s line data = s.dispatch host line data :=
  congrArg (s.dispatch host · data) htrim

theorem recv_answers (ha : s.alive = true) {cmd t : Bytes} (h : Answers host s cmd s' t) :
    (mockPeer host).recv ⟨s, []⟩ (cmd ++ [10]) = some (⟨s', []⟩, t ++ s'.prompt) := by
  have hpay : (serve host).payload s cmd = 0 := (serve_payload h.trim).trans h.payload
  rw [LineDaemon.recv_line _ ha h.line hpay, serve_handle h.trim, h.step]
  rfl

theorem textReply_answers {cmd t : Bytes} (h : Answers host s cmd s' t) :
    TextReply .nothing t (t ++ s'.prompt) := by
  have := textReply_of_clean (prompt_mem s') h.noPrompt h.clean (show Trail.ok .nothing [] from rfl)
  rwa [List.append_nil] at this

/-- A read command is dispatched as it is. -/
theorem trimLine_rw {letter : UInt8} (hletter : letter = 114 ∨ letter = 119) (fd off n : Int) :
    (10 : UInt8) ∉ letter :: 58 :: (fmtInt 16 fd ++ 58 :: (fmtInt 16 off ++ 58 :: fmtInt 16 n)) ∧
    Session.trimLine (letter :: 58 :: (fmtInt 16 fd ++ 58 :: (fmtInt 16 off ++ 58 :: fmtInt 16 n))) =
      letter :: 58 :: (fmtInt 16 fd ++ 58 :: (fmtInt 16 off ++ 58 :: fmtInt 16 n)) := by
  have hlf : (10 : UInt8) ∉
      letter :: 58 :: (fmtInt 16 fd ++ 58 :: (fmtInt 16 off ++ 58 :: fmtInt 16 n)) := by
    rcases hletter with rfl | rfl <;> simp
  refine ⟨hlf, trimLine_eq ?_ hlf⟩
  rcases hletter with rfl | rfl <;> simp

theorem readCmd_eq (fd off n : Int) :
    readCmd fd off n =
      114 :: 58 :: (fmtInt 16 fd ++ 58 :: (fmtInt 16 off ++ 58 :: fmtInt 16 n)) := by
  simp only [readCmd, List.append_assoc]
  rfl

theorem writeCmd_eq (fd off : Int) (n : Nat) :
    writeCmd fd off n =
      119 :: 58 :: (fmtInt 16 fd ++ 58 :: (fmtInt 16 off ++ 58 :: fmtInt 16 n)) := by
  simp only [writeCmd, List.append_assoc]
  rfl

/-- A session that has crashed on a command. -/
def Session.crashed (s : Session) (cmd : Bytes) : Session := { s.logged cmd with alive := false }

theorem readVfile_length {fd off n : Nat} {d : Bytes} (h : s.readVfile host fd off n = some d) :
    d.length ≤ n := by
  unfold Session.readVfile at h
  split at h
  · cases h
    simp
  · split at h
    · split at h
      · simp at h
      · cases h
        simp
    · split at h
      · cases h
        simp
      · split at h
        · simp at h
        · cases h
          simp

/-- A read command gets what the file service makes of it. -/
theorem recv_readCmd (ha : s.alive = true) (hsvc : s.svc = .file) (fd off n : Int) :
    (mockPeer host).recv ⟨s, []⟩ (readCmd fd off n ++ [10]) =
      match parseRw (readCmd fd off n) with
      | none => some (⟨s.logged (readCmd fd off n), []⟩, ascii "error bad-read\r\n" ++ s.prompt)
      | some (fd', off', n') =>
          match s.readVfile host fd' off' n' with
          | none => some (⟨s.crashed (readCmd fd off n), []⟩, [])
          | some d => some (⟨s.logged (readCmd fd off n), []⟩,
              ascii "o:" ++ fmtNat 16 d.length ++ ascii ":0:0\r\n" ++ d ++ s.prompt) := by
  obtain ⟨hline, htrim⟩ := trimLine_rw (.inl rfl) fd off n
  have hswitch := fileSwitch_read host (s := s.logged (readCmd fd off n))
    (fmtInt 16 fd ++ 58 :: (fmtInt 16 off ++ 58 :: fmtInt 16 n)) []
  have hpayload := payload_of_letter host (s := s) (a := 114) (by decide)
    (fmtInt 16 fd ++ 58 :: (fmtInt 16 off ++ 58 :: fmtInt 16 n))
  rw [← readCmd_eq] at hline htrim hswitch hpayload
  have hpay : (serve host).payload s (readCmd fd off n) = 0 := (serve_payload htrim).trans hpayload
  have hvfile : ∀ fd' off' n', (s.logged (readCmd fd off n)).readVfile host fd' off' n' =
      s.readVfile host fd' off' n' := fun _ _ _ => rfl
  rw [LineDaemon.recv_line _ ha hline hpay, serve_handle htrim, dispatch_file hsvc, Session.file,
    hswitch]
  cases parseRw (readCmd fd off n) with
  | none => rfl
  | some r =>
      obtain ⟨fd', off', n'⟩ := r
      simp only [hvfile]
      cases s.readVfile host fd' off' n' with
      | none => rfl
      | some d => rfl

variable (host) in
/-- The answers to a read command: a crash, a refusal, or data. -/
theorem recv_read (ha : s.alive = true) (hsvc : s.svc = .file) (fd off : Int) {n : Int}
    (hn : 0 ≤ n ∧ n < 2 ^ 63) :
    (mockPeer host).recv ⟨s, []⟩ (readCmd fd off n ++ [10]) =
        some (⟨s.crashed (readCmd fd off n), []⟩, []) ∨
    (mockPeer host).recv ⟨s, []⟩ (readCmd fd off n ++ [10]) =
        some (⟨s.logged (readCmd fd off n), []⟩, ascii "error bad-read\r\n" ++ s.prompt) ∨
    ∃ fd' off' d, parseRw (readCmd fd off n) = some (fd', off', n.toNat) ∧
      s.readVfile host fd' off' n.toNat = some d ∧
      (mockPeer host).recv ⟨s, []⟩ (readCmd fd off n ++ [10]) =
        some (⟨s.logged (readCmd fd off n), []⟩,
          ascii "o:" ++ fmtNat 16 d.length ++ ascii ":0:0\r\n" ++ d ++ s.prompt) := by
  rw [recv_readCmd ha hsvc]
  cases hparse : parseRw (readCmd fd off n) with
  | none => exact .inr (.inl rfl)
  | some r =>
      obtain ⟨fd', off', n'⟩ := r
      obtain rfl := parseRw_readCmd_count hn hparse
      dsimp only
      cases hread : s.readVfile host fd' off' n.toNat with
      | none => exact .inl rfl
      | some d => exact .inr (.inr ⟨fd', off', d, rfl, hread, rfl⟩)

variable (host) in
/-- An upload in two steps: the command line, on whose count the session may
crash, and the data, which is stored unless the file would become too large. -/
theorem recv_writeCmd (ha : s.alive = true) (hsvc : s.svc = .file) {fd off : Int}
    (hfd : 0 ≤ fd ∧ fd < 2 ^ 63) (hoff : 0 ≤ off ∧ off < 2 ^ 63) {data : Bytes}
    (hne : data ≠ []) (hlen : data.length < 2 ^ 63) :
    (host.maxAlloc < data.length →
      (mockPeer host).recv ⟨s, []⟩ (writeCmd fd off data.length ++ [10]) =
        some (⟨s.crashed (writeCmd fd off data.length), []⟩, [])) ∧
    (¬ host.maxAlloc < data.length →
      (mockPeer host).recv ⟨s, []⟩ (writeCmd fd off data.length ++ [10]) =
          some (⟨s, writeCmd fd off data.length ++ [10]⟩, []) ∧
        (mockPeer host).recv ⟨s, writeCmd fd off data.length ++ [10]⟩ data =
          match (s.logged (writeCmd fd off data.length)).storeVfile host fd.toNat off.toNat data with
          | none => some (⟨s.crashed (writeCmd fd off data.length), []⟩, [])
          | some s' => some (⟨s', []⟩,
              ascii "o:" ++ fmtNat 16 data.length ++ ascii ":0\r\n" ++ s'.prompt)) := by
  obtain ⟨hline, htrim⟩ := trimLine_rw (.inr rfl) fd off data.length
  have hswitch := fun d => fileSwitch_write host
    (s := s.logged (writeCmd fd off data.length))
    (fmtInt 16 fd ++ 58 :: (fmtInt 16 off ++ 58 :: fmtInt 16 data.length)) d
  rw [← writeCmd_eq] at hline htrim hswitch
  rw [parseRw_writeCmd hfd hoff hlen] at hswitch
  have hpayload : (serve host).payload s (writeCmd fd off data.length) =
      if host.maxAlloc < data.length then 0 else data.length := by
    rw [serve_payload htrim, Session.payload, if_pos ⟨hsvc, by rw [writeCmd_eq]; rfl⟩,
      parseRw_writeCmd hfd hoff hlen]
  have hhandle : ∀ d, (serve host).handle s (writeCmd fd off data.length) d =
      (s.logged (writeCmd fd off data.length)).file host (writeCmd fd off data.length) d := by
    intro d
    rw [serve_handle htrim, dispatch_file hsvc]
  refine ⟨?_, ?_⟩
  · intro hbig
    rw [if_pos hbig] at hpayload
    rw [LineDaemon.recv_line _ ha hline hpayload, hhandle, Session.file, hswitch]
    simp only [if_pos hbig]
    rfl
  · intro hbig
    rw [if_neg hbig] at hpayload
    refine ⟨LineDaemon.recv_request _ ha hline ?_, ?_⟩
    · rw [hpayload]
      exact List.length_pos_iff.mpr hne
    · rw [LineDaemon.recv_payload _ ha hline hpayload, hhandle, Session.file, hswitch]
      simp only [if_neg hbig]
      cases (s.logged (writeCmd fd off data.length)).storeVfile host fd.toNat off.toNat data with
      | none => rfl
      | some s' => rfl

end Wire

end QconnMcp.Mock
