import QconnMcp.Mock.Lockstep
import QconnMcp.Mock.Store
import QconnMcp.Qconn.Transfer

/-!
# Uploads and deletions against the mock daemon

What `WriteFile`, `Delete` and `ReadFile` of the client do to the files of the mock
daemon. `WriteFile` asks for `O_TRUNC`, which the daemon ignores, so the new data lies
over the old file (`writeFile_holding`), and `Delete` removes nothing
(`delete_holding`). Where that makes no difference, a file reads back as it was last
written. `store_refined` joins this to the single commands of `Mock.Store`.
-/

namespace QconnMcp.Mock

open Kit Qconn

/-! ## One file of the daemon -/

/-- The descriptors handed out, and the files beside the one at `path`. -/
structure Beside (path : Bytes) (g : Bytes → Bytes) (n : Nat) (s : Session) : Prop where
  nfd : s.nfd = n
  others : ∀ q, q ≠ path → s.files q = g q

/-- The file at `path`, while nothing happens to the others. -/
def mockAccess (host : Host) (path : Bytes) (g : Bytes → Bytes) (n : Nat) :
    FileAccess (mockPeer host) .nothing host.maxAlloc where
  atBroker s := Standing host path .broker s ∧ Beside path g n s.state
  atFile s := Standing host path .file s ∧ Beside path g n s.state
  content s := some (s.state.files path)
  opened s fd := s.state.fds fd = some ⟨path, false⟩ ∧ fd < 2 ^ 63
  enter := by
    rintro s ⟨h, hbeside⟩
    obtain ⟨out, hrecv, hreply⟩ := recv_enter h
    exact ⟨_, out, _, hrecv, hreply, by decide,
      ⟨⟨rfl, h.alive, rfl, h.small⟩, hbeside.nfd, hbeside.others⟩, rfl⟩
  read := by
    rintro s fd buf off k ⟨h, hbeside⟩ hfd hbuf hoff hk hle
    obtain rfl := Option.some.inj hbuf
    obtain ⟨out, data, t, hrecv, hreply, hprefix, hlen, hempty⟩ := recv_slice h hfd hoff hk hle
    exact ⟨_, out, data, t, hrecv, hreply, hprefix, hlen, hempty,
      ⟨h.logged _, hbeside.nfd, hbeside.others⟩, hfd, rfl⟩
  write := by
    rintro s fd buf off data ⟨h, hbeside⟩ hfd hbuf hne hcap
    obtain rfl := Option.some.inj hbuf
    obtain ⟨out, hreq, hpay, hreply, hfile⟩ := recv_upload h hfd hne hcap
    refine ⟨_, _, out, data.length, _, hreq, hpay, hreply, List.length_pos_iff.mpr hne, le_rfl,
      ⟨hfile, hbeside.nfd, ?_⟩, hfd, ?_⟩
    · intro q hq
      exact (Function.update_of_ne hq ..).trans (hbeside.others q hq)
    · rw [List.take_length]
      exact congrArg some (Function.update_self ..)
  close := by
    rintro s fd buf ⟨h, hbeside⟩ _ hbuf
    obtain rfl := Option.some.inj hbuf
    obtain ⟨out, t, hrecv, hreply⟩ := recv_close fd h
    exact ⟨_, out, t, hrecv, hreply, ⟨h.logged _, hbeside.nfd, hbeside.others⟩, rfl⟩

/-! ## All files of the daemon -/

/-- Between two operations the daemon holds `g` and has handed out `n` descriptors. -/
structure Holding (host : Host) (g : Bytes → Bytes) (n : Nat) (c : Client (Served Session)) : Prop where
  unread : c.fc.inp = []
  service : c.current = .broker ∧ c.peer.state.svc = .broker ∨
    c.current = .file ∧ c.peer.state.svc = .file
  alive : c.peer.state.alive = true
  pending : c.peer.pending = []
  files : c.peer.state.files = g
  nfd : c.peer.state.nfd = n
  small : ∀ p, (g p).length ≤ host.maxAlloc

section

variable {host : Host} {g : Bytes → Bytes} {n : Nat} {path : Bytes}

theorem Holding.ready {c : Client (Served Session)} (hc : Holding host g n c) (path : Bytes) :
    (mockAccess host path g n).Ready (some (g path)) c := by
  have hsmall : (c.peer.state.files path).length ≤ host.maxAlloc := by
    rw [hc.files]
    exact hc.small path
  have hbeside : Beside path g n c.peer.state := ⟨hc.nfd, fun q _ => congrFun hc.files q⟩
  refine .inl ⟨hc.unread, ?_, congrArg some (congrFun hc.files path)⟩
  rcases hc.service with ⟨hcur, hsvc⟩ | ⟨hcur, hsvc⟩
  · exact .inl ⟨hcur, ⟨hsvc, hc.alive, hc.pending, hsmall⟩, hbeside⟩
  · exact .inr ⟨hcur, ⟨hsvc, hc.alive, hc.pending, hsmall⟩, hbeside⟩

theorem holding_of_idle {c : Client (Served Session)} {buf : Bytes}
    (hg : ∀ p, (g p).length ≤ host.maxAlloc) (hc : (mockAccess host path g n).Idle (some buf) c) :
    Holding host (Function.update g path buf) n c := by
  obtain ⟨svc, hservice, hstanding, hbeside⟩ : ∃ svc,
      (c.current = .broker ∧ svc = .broker ∨ c.current = .file ∧ svc = .file) ∧
        Standing host path svc c.peer ∧ Beside path g n c.peer.state := by
    rcases hc.service with ⟨hcur, hstanding, hbeside⟩ | ⟨hcur, hstanding, hbeside⟩
    · exact ⟨_, .inl ⟨hcur, rfl⟩, hstanding, hbeside⟩
    · exact ⟨_, .inr ⟨hcur, rfl⟩, hstanding, hbeside⟩
  have hbuf : c.peer.state.files path = buf := Option.some.inj hc.content
  refine ⟨hc.unread, ?_, hstanding.alive, hstanding.pending, ?_, hbeside.nfd, ?_⟩
  · rw [hstanding.svc]
    exact hservice
  · funext q
    by_cases hq : q = path
    · subst hq
      rw [Function.update_self, hbuf]
    · rw [Function.update_of_ne hq]
      exact hbeside.others q hq
  · intro q
    by_cases hq : q = path
    · subst hq
      rw [Function.update_self, ← hbuf]
      exact hstanding.small
    · rw [Function.update_of_ne hq]
      exact hg q

theorem holding_of_unchanged {c : Client (Served Session)} (hg : ∀ p, (g p).length ≤ host.maxAlloc)
    (hc : (mockAccess host path g n).Idle (some (g path)) c) : Holding host g n c := by
  have hholding := holding_of_idle hg hc
  rwa [Function.update_eq_self] at hholding

/-- Every open finds the file as it is, whatever its flags ask for. -/
theorem openFile_serving (hpath : PlainPath path) (hproc : (ascii "/proc/").isPrefixOf path = false)
    (hn : n < 2 ^ 62) {flags mode : Int} (hflags : 0 ≤ flags) (hmode : 0 ≤ mode) (buf : Bytes) :
    Holds ((mockAccess host path g n).Serving (some buf)) (Client.openFile (mockPeer host) path flags mode)
      (fun r c => ∃ (fd : Nat) (md : Int), r = .ok ⟨fd, md, (buf.length : Int), path⟩ ∧
        (mockAccess host path g (n + 1)).Open fd buf c) := by
  intro c hc
  obtain ⟨hstanding, hbeside⟩ := hc.atFile
  have hbuf : c.peer.state.files path = buf := Option.some.inj hc.content
  obtain ⟨s', out, hrecv, hreply, hstanding', hnfd, hfiles, hopened⟩ :=
    recv_open hpath hproc hflags hmode hstanding
  have hmax := host.maxAlloc_le
  have hsmall := hstanding.small
  have hcount := hbeside.nfd
  have hfd : c.peer.state.nfd + 3 < 2 ^ 63 := by omega
  obtain ⟨c', hopen, hafter⟩ := Client.openFile_of_reply hpath hc.unread hrecv hreply hfd (by omega)
  rw [hopen, hbuf]
  refine ⟨_, _, rfl, ⟨hafter.unread, hafter.current.trans hc.current, ?_, ?_⟩, ?_⟩
  · rw [hafter.peer]
    refine ⟨hstanding', hnfd.trans (congrArg (· + 1) hcount), ?_⟩
    intro q hq
    rw [hfiles]
    exact hbeside.others q hq
  · rw [hafter.peer]
    exact congrArg some ((congrFun hfiles path).trans hbuf)
  · rw [hafter.peer]
    exact ⟨hopened, hfd⟩

/-- An upload lies over the file that was there. -/
theorem writeFile_holding (hpath : PlainPath path) (hproc : (ascii "/proc/").isPrefixOf path = false)
    (hn : n < 2 ^ 62) {data : Bytes} (hcap : data.length ≤ host.maxAlloc) {mode : Int} (hmode : 0 ≤ mode) :
    Holds (Holding host g n) (Client.writeFile (mockPeer host) path data mode)
      (fun r c => r = ((data.length : Int), none) ∧
        Holding host (Function.update g path (data ++ (g path).drop data.length)) (n + 1) c) := by
  have hmax := host.maxAlloc_le
  have hmode' : 0 ≤ if mode = 0 then modeRWAll else mode := by
    split
    · decide
    · exact hmode
  have hwrite : Holds ((mockAccess host path g n).Ready (some (g path)))
      (Client.writeFile (mockPeer host) path data mode)
      (fun r c => r = ((data.length : Int), none) ∧
        (mockAccess host path g (n + 1)).Idle (some (data ++ (g path).drop data.length)) c) := by
    refine FileAccess.withFile_runs (openFile_serving hpath hproc hn (by decide) hmode' (g path)) ?_
    intro fd md
    exact FileAccess.writeLoop_stores fd (g path) hcap (by omega) (data.length + 1) 0
      (Nat.zero_le _) (by omega)
  intro c hc
  obtain ⟨hresult, hidle⟩ := hwrite c (hc.ready path)
  exact ⟨hresult, holding_of_idle hc.small hidle⟩

/-- A download returns what the daemon holds. -/
theorem readFile_holding (hpath : PlainPath path) (hproc : (ascii "/proc/").isPrefixOf path = false)
    (hn : n < 2 ^ 62) {fuel : Nat} (hfuel : (g path).length < fuel) :
    Holds (Holding host g n) (Client.readFile (mockPeer host) fuel path)
      (fun r c => r = some (g path, none) ∧ Holding host g (n + 1) c) := by
  intro c hc
  have hmax := host.maxAlloc_le
  have hsmall := hc.small path
  have hread : Holds ((mockAccess host path g n).Ready (some (g path)))
      (Client.readFile (mockPeer host) fuel path)
      (fun r c => r = some (g path, none) ∧ (mockAccess host path g (n + 1)).Idle (some (g path)) c) := by
    refine FileAccess.withFile_runs (openFile_serving hpath hproc hn (by decide) le_rfl (g path)) ?_
    intro fd md
    exact FileAccess.readLoop_returns (by omega) fuel 0 (Nat.zero_le _) (by omega)
  obtain ⟨hresult, hidle⟩ := hread c (hc.ready path)
  exact ⟨hresult, holding_of_unchanged hc.small hidle⟩

/-- A deletion is acknowledged, and the file stays. -/
theorem delete_holding (hpath : PlainPath path) :
    Holds (Holding host g n) (Client.delete (mockPeer host) path)
      (fun r c => r = none ∧ Holding host g n c) := by
  intro c hc
  have hdelete : Holds ((mockAccess host path g n).Ready (some (g path)))
      (Client.delete (mockPeer host) path)
      (fun r c => r = none ∧ (mockAccess host path g n).Idle (some (g path)) c) := by
    -- behind `ensure`, the command and the test of its answer
    refine (FileAccess.ensure_serves (some (g path))).bind_value ?_
    intro c hc
    obtain ⟨hstanding, hbeside⟩ := hc.atFile
    have hans := answers_delete host hstanding.svc hpath
    have hrecv := recv_answers hstanding.alive hans
    rw [← hstanding.eq] at hrecv
    obtain ⟨c', hrun, hafter⟩ := Client.raw_of_reply (T := .nothing) hc.unread hrecv
      (textReply_answers hans)
    rw [run_bind, hrun]
    show none = none ∧ (mockAccess host path g n).Idle (some (g path)) c'
    refine ⟨rfl, hafter.unread, .inr ⟨hafter.current.trans hc.current, ?_⟩, ?_⟩
    · rw [hafter.peer]
      exact ⟨hstanding.logged _, hbeside.nfd, hbeside.others⟩
    · rw [hafter.peer]
      exact hc.content
  obtain ⟨hresult, hidle⟩ := hdelete c (hc.ready path)
  exact ⟨hresult, holding_of_unchanged hc.small hidle⟩

end

/-! ## Sequences of changes -/

/-- A call of `WriteFile` or `Delete`. -/
inductive Change where
  | write (path data : Bytes) (mode : Int)
  | delete (path : Bytes)
  deriving DecidableEq, Repr

namespace Change

def op : Change → Op
  | write path data mode => .writeFile path data mode
  | delete path => .delete path

def path : Change → Bytes
  | write path _ _ => path
  | delete path => path

/-- What the call returns. -/
def result : Change → Value × Option Err
  | write _ data _ => (.count data.length, none)
  | delete _ => (.unit, none)

/-- What it is to do: the path holds the data, or is gone. -/
def apply (files : Bytes → Option Bytes) : Change → Bytes → Option Bytes
  | write path data _ => Function.update files path (some data)
  | delete path => Function.update files path none

/-- Where the path stands, the call does that: the data cover what the path holds, or
it holds nothing to delete. -/
def Covers (host : Host) (files : Bytes → Option Bytes) : Change → Prop
  | write path data mode =>
      0 ≤ mode ∧ ((files path).getD []).length ≤ data.length ∧ data.length ≤ host.maxAlloc
  | delete path => (files path).getD [] = []

/-- The path can be named on a command line and echoed in an answer, and is not below
`/proc/`. -/
def Named (path : Bytes) : Prop := PlainPath path ∧ (ascii "/proc/").isPrefixOf path = false

end Change

/-- The store from one change to the next. -/
def changeStep (files : Bytes → Option Bytes) (change : Change) : Option (Bytes → Option Bytes) :=
  some (change.apply files)

/-- What the path holds after a sequence of changes, from an empty store: what was
written last, or nothing. -/
def lastContent (changes : List Change) (path : Bytes) : Bytes :=
  (changes.foldl Change.apply (fun _ => none) path).getD []

section

variable {host : Host} {n : Nat}

/-- One change that covers what is there leaves the daemon with what it is to leave. -/
theorem exec_change (fuel : Nat) {files : Bytes → Option Bytes} {change : Change}
    (hnamed : Change.Named change.path) (hcovers : change.Covers host files) (hn : n < 2 ^ 62) :
    Holds (Holding host (fun p => (files p).getD []) n) (change.op.exec (mockPeer host) fuel)
      (fun r c => r = some change.result ∧
        ∃ n' ≤ n + 1, Holding host (fun p => (change.apply files p).getD []) n' c) := by
  cases change with
  | write path data mode =>
      obtain ⟨hpath, hproc⟩ : PlainPath path ∧ (ascii "/proc/").isPrefixOf path = false := hnamed
      obtain ⟨hmode, hcover, hcap⟩ := hcovers
      have hafter : Function.update (fun p => (files p).getD []) path
            (data ++ ((files path).getD []).drop data.length) =
          fun p => ((Change.write path data mode).apply files p).getD [] := by
        -- nothing of the old content reaches beyond the data
        rw [List.drop_eq_nil_of_le hcover, List.append_nil]
        exact (Store.getD_update files path (some data)).symm
      refine (writeFile_holding hpath hproc hn hcap hmode).bind_value ?_
      rw [hafter]
      exact .pure fun c hc => ⟨rfl, n + 1, le_rfl, hc⟩
  | delete path =>
      obtain ⟨hpath, -⟩ : PlainPath path ∧ (ascii "/proc/").isPrefixOf path = false := hnamed
      have hnothing : (files path).getD [] = [] := hcovers
      have hafter : (fun p => (files p).getD []) =
          fun p => ((Change.delete path).apply files p).getD [] := by
        refine Eq.trans ?_ (Store.getD_update files path none).symm
        exact (Function.update_eq_self_iff.mpr hnothing.symm).symm
      refine (delete_holding hpath).bind_value ?_
      rw [hafter]
      exact .pure fun c hc => ⟨rfl, n, Nat.le_succ n, hc⟩

theorem runOps_changes {fuel : Nat} {path : Bytes} (hread : Change.Named path) (changes : List Change)
    (hnamed : ∀ ch ∈ changes, Change.Named ch.path) {files : Bytes → Option Bytes}
    (hcovers : Along changeStep (Change.Covers host) files changes)
    (hn : n + changes.length < 2 ^ 62)
    (hfuel : ((changes.foldl Change.apply files path).getD []).length < fuel) :
    Holds (Holding host (fun p => (files p).getD []) n)
      (runOps (mockPeer host) fuel (changes.map Change.op ++ [.readFile path]))
      (fun r _ => r = some (changes.map Change.result ++
        [(.bytes ((changes.foldl Change.apply files path).getD []), none)])) := by
  induction changes generalizing files n with
  | nil =>
      have hexec : Holds (Holding host (fun p => (files p).getD []) n)
          (Op.exec (mockPeer host) fuel (.readFile path))
          (fun r c => r = some (.bytes ((files path).getD []), none) ∧
            Holding host (fun p => (files p).getD []) (n + 1) c) := by
        refine (readFile_holding hread.1 hread.2 hn hfuel).bind_value ?_
        exact .pure fun c hc => ⟨rfl, hc⟩
      refine hexec.bind_value ?_
      exact .pure fun c hc => rfl
  | cons ch changes ih =>
      obtain ⟨hfirst, hrest⟩ := List.forall_mem_cons.mp hnamed
      rw [List.length_cons] at hn
      refine (exec_change fuel hfirst hcovers.1 (by omega)).bind_value ?_
      rintro c ⟨n', hle, hc⟩
      -- the daemon holds what the first change is to leave, so the rest starts from there
      have hruns := ih hrest (hcovers.2 _ rfl) (by omega) hfuel c hc
      show ((runOps (mockPeer host) fuel (changes.map Change.op ++ [.readFile path]) >>= _).run c).1 = _
      rw [run_bind, hruns]
      rfl

end

theorem Fresh.holding (host : Host) {c : Client (Served Session)} (hc : Fresh c) :
    Holding host (fun _ => []) 0 (cleared c) := by
  have hpeer : (cleared c).peer = ⟨Session.start, []⟩ := hc.peer
  refine ⟨rfl, .inl ⟨hc.current, ?_⟩, ?_, ?_, ?_, ?_, fun _ => Nat.zero_le _⟩ <;> rw [hpeer] <;> rfl

/-- **The file service as a store.** The answers to every sequence of file commands whose
steps all meet `Fine` are the reports of the plain store. And after every sequence of
`WriteFile` and `Delete` calls on a connection, each of which covers what its path holds
then, every call has succeeded and a `ReadFile` returns what was written last. -/
theorem store_refined (host : Host) :
    (∀ cmds : List FileCmd,
      Along storeStep (Fine host) (Store.empty 3) (cmds.map FileCmd.request) →
      answersTo host ⟨Session.atFile, []⟩ cmds =
        some (((Store.empty 3).reports (cmds.map FileCmd.request)).map answer)) ∧
    ∀ (buffered : List Nat) (changes : List Change) (path : Bytes) (fuel : Nat),
      Change.Named path → (∀ ch ∈ changes, Change.Named ch.path) →
      Along changeStep (Change.Covers host) (fun _ => none) changes →
      changes.length < 2 ^ 62 → (lastContent changes path).length < fuel →
      ∃ c₀, Client.dial ⟨Session.start, []⟩ (greeted host buffered) = (none, c₀) ∧
        ((runOps (mockPeer host) fuel (changes.map Change.op ++ [.readFile path])).run c₀).1 =
          some (changes.map Change.result ++ [(.bytes (lastContent changes path), none)]) := by
  refine ⟨fun cmds => answersTo_eq (tracks_empty host) cmds, ?_⟩
  intro buffered changes path fuel hread hnamed hcovers hlen hfuel
  obtain ⟨c₀, hdial, hfresh⟩ := dial_greeted host buffered
  refine ⟨c₀, hdial, ?_⟩
  have hops : changes.map Change.op ++ [.readFile path] ≠ [] := by simp
  -- the noise behind the greeting falls to the first call and changes no result
  rw [runOps_noise host hfresh fuel hops]
  exact runOps_changes hread changes hnamed hcovers (by omega) hfuel (cleared c₀) (hfresh.holding host)

/-- The path and the numbers of the command lines below. -/
def fileF : OrdinaryPath := ⟨ascii "/f", by decide, by decide, by decide, by decide⟩

def hexFlags : HexNum := ⟨ascii "301", by decide, by decide +kernel⟩
def hexThree : HexNum := ⟨ascii "3", by decide, by decide +kernel⟩
def hexZero : HexNum := ⟨ascii "0", by decide, by decide +kernel⟩
def hexFive : HexNum := ⟨ascii "5", by decide, by decide +kernel⟩

/-- Open with `O_TRUNC`, upload, read back. -/
def uploadCmds : List FileCmd :=
  [.openFile fileF hexFlags hexZero, .write hexThree hexZero hexFive (ascii "hello") (by decide),
    .read hexThree hexZero hexFive]

/-- The same, and opened with `O_TRUNC` again. -/
def reopenCmds : List FileCmd := uploadCmds ++ [.openFile fileF hexFlags hexZero]

/-- A short file, then a longer one, and the deletion of a path that is not there. -/
def growingChanges : List Change :=
  [.write (ascii "/f") (ascii "hi") 0, .write (ascii "/f") (ascii "hello") 0, .delete (ascii "/g")]

theorem store_refined_growing :
    answersTo smallHost ⟨Session.atFile, []⟩ uploadCmds =
        some (((Store.empty 3).reports (uploadCmds.map FileCmd.request)).map answer) ∧
      ∃ c₀, Client.dial ⟨Session.start, []⟩ (greeted smallHost []) = (none, c₀) ∧
        ((runOps (mockPeer smallHost) 6
            (growingChanges.map Change.op ++ [.readFile (ascii "/f")])).run c₀).1 =
          some (growingChanges.map Change.result ++ [(.bytes (ascii "hello"), none)]) := by
  obtain ⟨hcmds, hchanges⟩ := store_refined smallHost
  have hf : Change.Named (ascii "/f") :=
    ⟨⟨by decide, by decide, by decide, by decide, by decide, by decide⟩, by decide⟩
  have hg : Change.Named (ascii "/g") :=
    ⟨⟨by decide, by decide, by decide, by decide, by decide, by decide⟩, by decide⟩
  refine ⟨hcmds uploadCmds ?_, hchanges [] growingChanges (ascii "/f") 6 hf ?_ ?_ (by decide) (by decide)⟩
  · refine ⟨by decide +kernel, ?_⟩
    rintro _ ⟨⟩
    refine ⟨by decide +kernel, ?_⟩
    rintro _ ⟨⟩
    exact ⟨by decide +kernel, fun _ _ => trivial⟩
  · intro ch hch
    simp only [growingChanges, List.mem_cons, List.not_mem_nil, or_false] at hch
    rcases hch with rfl | rfl | rfl
    · exact hf
    · exact hf
    · exact hg
  · refine ⟨⟨by decide, by decide, by decide⟩, ?_⟩
    rintro _ ⟨⟩
    refine ⟨⟨by decide, by decide, by decide⟩, ?_⟩
    rintro _ ⟨⟩
    exact ⟨show _ = _ by decide, fun _ _ => trivial⟩

/-- Opened with `O_TRUNC` a second time, the file is announced with its old size. A
shorter upload leaves the end of the longer one behind it, and a deleted file reads as
before. -/
theorem store_not_refined :
    answersTo smallHost ⟨Session.atFile, []⟩ reopenCmds ≠
        some (((Store.empty 3).reports (reopenCmds.map FileCmd.request)).map answer) ∧
      ((runOps (mockPeer smallHost) 6 [.writeFile (ascii "/f") (ascii "hello") 0,
          .writeFile (ascii "/f") (ascii "hi") 0, .readFile (ascii "/f"), .delete (ascii "/f"),
          .readFile (ascii "/f")]).run
        (Client.dial ⟨Session.start, []⟩ (greeted smallHost [])).2).1 =
        some [(.count 5, none), (.count 2, none), (.bytes (ascii "hillo"), none), (.unit, none),
          (.bytes (ascii "hillo"), none)] :=
  ⟨by decide +kernel, by decide +kernel⟩

end QconnMcp.Mock
