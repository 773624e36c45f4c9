import QconnMcp.Mock.Paired
import QconnMcp.Qconn.FileServer

/-!
# Uploading a file and reading it back

The end-to-end property of the file service (`transfer_round_trip`), against any
`FileServer`. The mock daemon is one as soon as its opens honour `O_TRUNC`, which
`truncating` adds in front of it.
-/

namespace QconnMcp.Qconn

open Kit

section Daemon

open Mock

variable {host : Host} {s : Served Session} {path : Bytes} {svc : Service}

/-! ## Exchanges with the mock daemon -/

/-- The daemon between two commands, in the service `svc`. -/
structure Standing (host : Host) (path : Bytes) (svc : Service) (s : Served Session) : Prop where
  svc : s.state.svc = svc
  alive : s.state.alive = true
  pending : s.pending = []
  small : (s.state.files path).length ≤ host.maxAlloc

theorem Standing.eq (h : Standing host path svc s) : s = ⟨s.state, []⟩ := by
  cases s with
  | mk st pending => exact congrArg (Served.mk st) h.pending

theorem Standing.logged (h : Standing host path svc s) (cmd : Bytes) :
    Standing host path svc ⟨s.state.logged cmd, []⟩ :=
  ⟨h.svc, h.alive, rfl, h.small⟩

theorem recv_enter (h : Standing host path .broker s) :
    ∃ out, (mockPeer host).recv s (ascii "service " ++ Service.file.name ++ [10]) =
        some (⟨{ s.state.logged (ascii "service " ++ Service.file.name) with svc := .file }, []⟩, out) ∧
      TextReply .nothing (ascii "OK\r\n") out := by
  have hans := answers_service host h.svc (.inl rfl : Service.file = .file ∨ Service.file = .cntl)
  have hrecv := recv_answers h.alive hans
  rw [← h.eq] at hrecv
  exact ⟨_, hrecv, textReply_answers hans⟩

/-- An open command for a path outside `/proc/`: the next descriptor, and the file as it
is. -/
theorem recv_open (hpath : PlainPath path) (hproc : (ascii "/proc/").isPrefixOf path = false)
    {flags mode : Int} (hflags : 0 ≤ flags) (hmode : 0 ≤ mode) (h : Standing host path .file s) :
    ∃ s' out, (mockPeer host).recv s (openCmd path flags mode ++ [10]) = some (⟨s', []⟩, out) ∧
      TextReply .nothing
        (openAnswer (s.state.nfd + 3) 0o100644 (s.state.files path).length path ++ ascii "\r\n") out ∧
      Standing host path .file ⟨s', []⟩ ∧ s'.nfd = s.state.nfd + 1 ∧ s'.files = s.state.files ∧
      s'.fds (s.state.nfd + 3) = some ⟨path, false⟩ := by
  have hparse := parseOpen_openCmd hpath.ne_nil hpath.quote hflags hmode
  have hans := answers_opened host h.svc hpath hparse
  have hcase := openCase_ordinary (s := s.state) hproc
  have hcase' := openCase_ordinary (s := s.state.logged (openCmd path flags mode)) hproc
  have hsize := congrArg Prod.snd hcase
  change openAnswer (s.state.nfd + 3) 0o100644 (s.state.sizeAt path) path ++ ascii "\r\n" = _ at hsize
  rw [hcase', hsize] at hans
  have hrecv := recv_answers h.alive hans
  rw [← h.eq] at hrecv
  exact ⟨_, _, hrecv, textReply_answers hans, ⟨h.svc, h.alive, rfl, h.small⟩, rfl, rfl,
    Function.update_self ..⟩

/-- A read on a descriptor of the file returns the slice. -/
theorem recv_slice {fd off n : Nat} (h : Standing host path .file s)
    (hfd : s.state.fds fd = some ⟨path, false⟩ ∧ fd < 2 ^ 63)
    (hoff : off ≤ (s.state.files path).length) (hn : 0 < n) (hle : n ≤ maxReadChunk) :
    ∃ out data t, (mockPeer host).recv s (readCmd fd off n ++ [10]) =
        some (⟨s.state.logged (readCmd fd off n), []⟩, out) ∧
      StatusReply .nothing (countLine data.length t) data out ∧
      data <+: (s.state.files path).drop off ∧ data.length ≤ n ∧
      (data = [] → (s.state.files path).length ≤ off) := by
  have hsmall := h.small
  have hmax := host.maxAlloc_le
  have hchunk : maxReadChunk = 2048 := rfl
  have hparse : Mock.parseRw (readCmd fd off n) = some (fd, off, n) := by
    have hcmd : Mock.parseRw (readCmd fd off n) =
        some ((fd : Int).toNat, (off : Int).toNat, (n : Int).toNat) :=
      parseRw_readCmd (by omega) (by omega) (by omega)
    simpa using hcmd
  have hread : s.state.readVfile host fd off n = some (((s.state.files path).drop off).take n) := by
    rw [Session.readVfile, hfd.1]
    dsimp only
    rw [if_neg (by decide)]
    split
    · rename_i hend
      rw [List.drop_eq_nil_of_le hend, List.take_nil]
    · rw [if_neg (by omega)]
  have hrecv := @recv_readCmd host s.state h.alive h.svc fd off n
  rw [hparse] at hrecv
  dsimp only at hrecv
  rw [hread, ← h.eq] at hrecv
  refine ⟨_, _, _, hrecv, statusReply_read _ _, List.take_prefix _ _, List.length_take_le _ _, ?_⟩
  intro hempty
  have hlen := congrArg List.length hempty
  simp only [List.length_take, List.length_drop, List.length_nil] at hlen
  omega

/-- The session after an upload into the file. -/
def stored (s : Session) (path : Bytes) (fd off : Nat) (data : Bytes) : Session :=
  { s.logged (writeCmd fd off data.length) with
    files := Function.update s.files path (overwrite (s.files path) off data) }

/-- An upload to a descriptor of the file overwrites it. -/
theorem recv_upload {fd off : Nat} {data : Bytes} (h : Standing host path .file s)
    (hfd : s.state.fds fd = some ⟨path, false⟩ ∧ fd < 2 ^ 63) (hne : data ≠ [])
    (hcap : off + data.length ≤ host.maxAlloc) :
    ∃ out, (mockPeer host).recv s (writeCmd fd off data.length ++ [10]) =
        some (⟨s.state, writeCmd fd off data.length ++ [10]⟩, []) ∧
      (mockPeer host).recv ⟨s.state, writeCmd fd off data.length ++ [10]⟩ data =
        some (⟨stored s.state path fd off data, []⟩, out) ∧
      StatusReply .nothing (countLine data.length (ascii "0\r")) [] out ∧
      Standing host path .file ⟨stored s.state path fd off data, []⟩ := by
  have hmax := host.maxAlloc_le
  have hsmall := h.small
  obtain ⟨hreq, hpay⟩ := (recv_writeCmd host h.alive h.svc
    (by omega : 0 ≤ (fd : Int) ∧ (fd : Int) < 2 ^ 63)
    (by omega : 0 ≤ (off : Int) ∧ (off : Int) < 2 ^ 63) hne (by omega)).2 (by omega)
  have hstore : (s.state.logged (writeCmd fd off data.length)).storeVfile host fd off data =
      some (stored s.state path fd off data) := by
    have hentry : (s.state.logged (writeCmd fd off data.length)).fds fd = some ⟨path, false⟩ := hfd.1
    rw [Session.storeVfile, hentry]
    dsimp only
    rw [if_neg (by decide), if_neg (by omega)]
    rfl
  rw [Int.toNat_natCast, Int.toNat_natCast, hstore] at hpay
  rw [← h.eq] at hreq
  refine ⟨_, hreq, hpay, statusReply_write _ _, h.svc, h.alive, rfl, ?_⟩
  show (Function.update s.state.files path _ path).length ≤ _
  rw [Function.update_self, overwrite_length]
  omega

theorem recv_close (fd : Nat) (h : Standing host path .file s) :
    ∃ out t, (mockPeer host).recv s (closeCmd fd ++ [10]) =
      some (⟨s.state.logged (closeCmd fd), []⟩, out) ∧ TextReply .nothing t out := by
  have hans := answers_ok host h.svc (a := 99) (.inl rfl) (lf_not_mem_hex fd) (cr_not_mem_hex fd)
  have hrecv := recv_answers h.alive hans
  rw [← h.eq] at hrecv
  exact ⟨_, _, hrecv, textReply_answers hans⟩

end Daemon

/-! ## The mock daemon as a file server -/

section Truncating

open Mock

/-- What an open command that asks for `O_TRUNC` does first. The target reuses
its one descriptor. -/
def truncated (s : Session) (cmd : Bytes) : Session :=
  match Mock.parseOpen cmd with
  | none => s
  | some (path, flags, _) =>
      if hasFlag (parseInt 16 flags).1 oTrunc then
        { s with nfd := 0, files := Function.update s.files path [] }
      else { s with nfd := 0 }

/-- The mock daemon, with opens that truncate. -/
def truncating (host : Host) : Peer (Served Session) where
  recv s b :=
    (mockPeer host).recv
      (if s.pending = [] then ⟨truncated s.state (Session.trimLine b), []⟩ else s) b
  fin := (mockPeer host).fin

variable {host : Host} {path : Bytes}

/-- A first line is looked at before it is served. -/
theorem truncating_recv_idle {s : Session} (b : Bytes) :
    (truncating host).recv ⟨s, []⟩ b =
      (mockPeer host).recv ⟨truncated s (Session.trimLine b), []⟩ b := by
  simp only [truncating, if_true]

theorem truncating_recv_pending {s : Session} {pending : Bytes} (h : pending ≠ []) (b : Bytes) :
    (truncating host).recv ⟨s, pending⟩ b = (mockPeer host).recv ⟨s, pending⟩ b := by
  simp only [truncating, if_neg h]

theorem parseOpen_of_letter {a : UInt8} (ha : a ≠ 111) (rest : Bytes) :
    Mock.parseOpen (a :: rest) = none := by
  cases h : Mock.parseOpen (a :: rest) with
  | none => rfl
  | some r =>
      obtain ⟨p, f, m⟩ := r
      obtain ⟨-, -, rest', hline⟩ := parseOpen_inv h
      exact absurd (List.cons.inj hline).1 ha

theorem trimLine_terminated {cmd : Bytes} (h : Session.trimLine cmd = cmd) :
    Session.trimLine (cmd ++ [10]) = cmd := by
  rw [Session.trimLine, trimRight_concat_of (by decide)]
  exact h

/-- Only open commands are treated in a special way. -/
theorem truncating_recv {svc : Service} {s : Served Session} (h : Standing host path svc s)
    {a : UInt8} {rest : Bytes} (ha : a ≠ 111) (htrim : Session.trimLine (a :: rest) = a :: rest) :
    (truncating host).recv s (a :: rest ++ [10]) = (mockPeer host).recv s (a :: rest ++ [10]) := by
  rw [h.eq, truncating_recv_idle, trimLine_terminated htrim, truncated, parseOpen_of_letter ha]

/-- The state in which the daemon gets an open command. -/
theorem truncated_open {s : Served Session} (hpath : PlainPath path) {flags mode : Int}
    (hflags : 0 ≤ flags ∧ flags < 2 ^ 63) (hmode : 0 ≤ mode) (h : Standing host path .file s) :
    Standing host path .file ⟨truncated s.state (openCmd path flags mode), []⟩ ∧
      (truncated s.state (openCmd path flags mode)).nfd = 0 ∧
      (truncated s.state (openCmd path flags mode)).files path =
        if hasFlag flags oTrunc then [] else s.state.files path := by
  have hparse := parseOpen_openCmd hpath.ne_nil hpath.quote hflags.1 hmode
  have hread : (parseInt 16 (fmtInt 16 flags)).1 = flags := by
    rw [parseInt_fmtInt (by decide) (by decide) (by omega) hflags.2]
  simp only [truncated, hparse, hread]
  split
  · refine ⟨⟨h.svc, h.alive, rfl, ?_⟩, rfl, Function.update_self ..⟩
    show (Function.update s.state.files path [] path).length ≤ _
    rw [Function.update_self]
    exact Nat.zero_le _
  · exact ⟨⟨h.svc, h.alive, rfl, h.small⟩, rfl, rfl⟩

theorem truncating_open {s : Served Session} (hpath : PlainPath path)
    (hproc : (ascii "/proc/").isPrefixOf path = false) {flags mode : Int}
    (hflags : 0 ≤ flags ∧ flags < 2 ^ 63) (hmode : 0 ≤ mode) (h : Standing host path .file s) :
    ∃ s' out, (truncating host).recv s (openCmd path flags mode ++ [10]) = some (⟨s', []⟩, out) ∧
      TextReply .nothing (openAnswer 3 0o100644
        (if hasFlag flags oTrunc then [] else s.state.files path).length path ++ ascii "\r\n") out ∧
      Standing host path .file ⟨s', []⟩ ∧ s'.fds 3 = some ⟨path, false⟩ ∧
      s'.files path = if hasFlag flags oTrunc then [] else s.state.files path := by
  obtain ⟨-, htrim, -⟩ := openCmd_line host (s := s.state) hpath flags mode
  obtain ⟨hstanding, hnfd, hfile⟩ := truncated_open hpath hflags hmode h
  obtain ⟨s', out, hrecv, hreply, hstanding', -, hfiles, hopened⟩ :=
    recv_open hpath hproc hflags.1 hmode hstanding
  dsimp only at hreply hopened hfiles
  rw [hnfd, hfile] at hreply
  rw [hnfd] at hopened
  refine ⟨s', out, ?_, hreply, hstanding', hopened, ?_⟩
  · rw [h.eq, truncating_recv_idle, trimLine_terminated htrim, hrecv]
  · rw [hfiles, hfile]

theorem truncating_enter {s : Served Session} (h : Standing host path .broker s) :
    ∃ s' out, (truncating host).recv s (ascii "service " ++ Service.file.name ++ [10]) =
        some (s', out) ∧ TextReply .nothing (ascii "OK\r\n") out ∧ Standing host path .file s' ∧
      s'.state.files path = s.state.files path := by
  obtain ⟨out, hrecv, hreply⟩ := recv_enter h
  refine ⟨_, out, (truncating_recv h ?_ ?_).trans hrecv, hreply, ⟨rfl, h.alive, rfl, h.small⟩, rfl⟩
  · decide
  · decide

/-- The truncating mock daemon handles every plain path outside `/proc/`. -/
def truncatingServer (host : Host) {path : Bytes} (hpath : PlainPath path)
    (hproc : (ascii "/proc/").isPrefixOf path = false) :
    FileServer (truncating host) .nothing path host.maxAlloc where
  atBroker := Standing host path .broker
  atFile := Standing host path .file
  content s := some (s.state.files path)
  opened s fd := s.state.fds fd = some ⟨path, false⟩ ∧ fd < 2 ^ 63
  enter := by
    intro s h
    obtain ⟨s', out, hrecv, hreply, hfile, hcontent⟩ := truncating_enter h
    exact ⟨s', out, _, hrecv, hreply, by decide, hfile, congrArg some hcontent⟩
  openPath := by
    intro s flags mode hflags hmode h _
    obtain ⟨s', out, hrecv, hreply, hfile, hopened, hcontent⟩ :=
      truncating_open hpath hproc hflags hmode h
    exact ⟨⟨s', []⟩, out, 3, 0o100644, _, hrecv, hreply, by decide, rfl, hfile, ⟨hopened, by decide⟩,
      congrArg some hcontent⟩
  read := by
    intro s fd buf off n h hfd hbuf hoff hn hle
    obtain rfl := Option.some.inj hbuf
    obtain ⟨out, data, t, hrecv, hreply, hprefix, hlen, hempty⟩ := recv_slice h hfd hoff hn hle
    obtain ⟨-, htrim⟩ := trimLine_rw (.inl rfl) fd off n
    rw [← readCmd_eq] at htrim
    refine ⟨_, out, data, t, (truncating_recv h (by decide) htrim).trans hrecv, hreply, hprefix, hlen,
      hempty, h.logged _, hfd, rfl⟩
  write := by
    intro s fd buf off data h hfd hbuf hne hcap
    obtain rfl := Option.some.inj hbuf
    obtain ⟨out, hreq, hpay, hreply, hfile⟩ := recv_upload h hfd hne hcap
    obtain ⟨-, htrim⟩ := trimLine_rw (.inr rfl) fd off data.length
    rw [← writeCmd_eq] at htrim
    refine ⟨_, _, out, data.length, _, (truncating_recv h (by decide) htrim).trans hreq,
      (truncating_recv_pending (by simp) data).trans hpay, hreply, List.length_pos_iff.mpr hne, le_rfl,
      hfile, hfd, ?_⟩
    rw [List.take_length]
    exact congrArg some (Function.update_self ..)
  close := by
    intro s fd buf h _ hbuf
    obtain rfl := Option.some.inj hbuf
    obtain ⟨out, t, hrecv, hreply⟩ := recv_close fd h
    have htrim : Session.trimLine (closeCmd fd) = closeCmd fd :=
      (answers_ok host h.svc (a := 99) (.inl rfl) (lf_not_mem_hex fd) (cr_not_mem_hex fd)).trim
    exact ⟨_, out, t, (truncating_recv h (by decide) htrim).trans hrecv, hreply, h.logged _, rfl⟩

end Truncating

/-! ## The round trip -/

/-- **Round trip.** What is uploaded is what is downloaded, for all contents that
the server has room for. -/
theorem transfer_round_trip {σ : Type} {P : Peer σ} {T : Trail} {path : Bytes} {cap : Nat}
    (F : FileServer P T path cap) (hpath : PlainPath path) {d : Bytes} (hcap : d.length ≤ cap)
    (hlen : d.length < 2 ^ 63) {mode : Int} (hmode : 0 ≤ mode) {content : Option Bytes}
    {c : Client σ} (hc : F.Ready content c) :
    ∃ c', (Client.writeFile P path d mode).run c = (((d.length : Int), none), c') ∧
      ∀ fuel, d.length < fuel → ((Client.readFile P fuel path).run c').1 = some (d, none) := by
  obtain ⟨hresult, hready⟩ := FileServer.writeFile_stores hpath hcap hlen hmode content c hc
  refine ⟨((Client.writeFile P path d mode).run c).2, Prod.ext hresult rfl, ?_⟩
  intro fuel hfuel
  exact (FileServer.readFile_returns hpath hlen hfuel _ (.inl hready)).1

/-- A client that has entered no service yet, connected to the truncating mock
daemon; the line behind the greeting is unread. -/
def connected : Client (Served Mock.Session) :=
  ⟨⟨benignNoise ++ ascii "\r\n", .timeout, [], [], 1⟩, ⟨Mock.Session.start, []⟩, .broker, none, []⟩

theorem fresh_of_noise {host : Mock.Host} {path : Bytes} (hpath : PlainPath path)
    (hproc : (ascii "/proc/").isPrefixOf path = false) (c : Client (Served Mock.Session))
    (hinp : c.fc.inp = benignNoise ++ ascii "\r\n") (hcur : c.current = .broker)
    (h : Standing host path .broker c.peer) :
    (truncatingServer host hpath hproc).Fresh (some (c.peer.state.files path)) c where
  unread := ⟨benignNoise ++ [13], hinp, by decide, by decide, noPrompt_of_no_lt (by decide), by decide⟩
  current := hcur
  content := rfl
  enter := by
    obtain ⟨s', out, hrecv, hreply, hfile, hcontent⟩ := truncating_enter h
    exact ⟨s', out, _, hrecv, hreply, by decide, hfile, congrArg some hcontent⟩

theorem transfer_round_trip_prompt_text :
    ∃ c', (Client.writeFile (truncating Mock.smallHost) (ascii "/tmp/x")
          ([255, 10] ++ ascii "<qconn-file>") 0).run connected = ((14, none), c') ∧
      ∀ fuel, 14 < fuel →
        ((Client.readFile (truncating Mock.smallHost) fuel (ascii "/tmp/x")).run c').1 =
          some ([255, 10] ++ ascii "<qconn-file>", none) := by
  have hpath : PlainPath (ascii "/tmp/x") :=
    ⟨by decide, by decide, by decide, by decide, by decide, by decide⟩
  have hready : (truncatingServer Mock.smallHost hpath (by decide)).Ready (some []) connected :=
    .inr (fresh_of_noise hpath (by decide) connected rfl rfl ⟨rfl, rfl, rfl, Nat.zero_le _⟩)
  exact transfer_round_trip (truncatingServer Mock.smallHost hpath (by decide)) hpath
    (d := [255, 10] ++ ascii "<qconn-file>") (by decide) (by decide) le_rfl hready

end QconnMcp.Qconn
