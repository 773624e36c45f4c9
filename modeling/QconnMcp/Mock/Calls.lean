import QconnMcp.Mock.Uploads

/-!
# The file operations against the mock daemon

What every file operation of the client returns and leaves behind on the mock daemon,
stated on the daemon's files alone (`FileOp.spec`). This is the mock's behaviour and not
that of a file system: a write lies over what is there and cuts nothing off, and deleting,
making directories and changing modes only report success. The paths are outside
`/proc/`, and the numbers small enough for the buffers of the daemon (`FileOp.Fits`).

`exec_spec` is one operation; the runs are in `Pool.Shared`.
-/

namespace QconnMcp.Mock

open Kit Qconn

/-! ## Operations and what they are to do -/

inductive FileOp where
  | stat (path : Bytes)
  | read (path : Bytes)
  | readRange (path : Bytes) (off n : Int)
  | write (path data : Bytes) (mode : Int)
  | writeAt (path : Bytes) (off : Int) (data : Bytes)
  | delete (path : Bytes)
  | mkdir (path : Bytes) (mode : Int)
  | chmod (path : Bytes) (mode : Int)
  deriving DecidableEq, Repr

namespace FileOp

def op : FileOp → Op
  | stat path => .stat path
  | read path => .readFile path
  | readRange path off n => .readFileRange path off n
  | write path data mode => .writeFile path data mode
  | writeAt path off data => .writeFileAt path off data
  | delete path => .delete path
  | mkdir path mode => .mkdir path mode
  | chmod path mode => .chmod path mode

def path : FileOp → Bytes
  | stat path | read path | readRange path _ _ | write path _ _ | writeAt path _ _ | delete path
  | mkdir path _ | chmod path _ => path

/-- The result, and what the mock daemon's files are afterwards. It does not truncate,
delete, make directories or change modes, and says that it did. -/
def spec : FileOp → StateM (Bytes → Bytes) (Value × Option Err)
  | stat path => fun g => ((.stat 0o100644 (g path).length, none), g)
  | read path => fun g => ((.bytes (g path), none), g)
  | readRange path off n => fun g => ((.bytes (((g path).drop off.toNat).take n.toNat), none), g)
  | write path data _ => fun g =>
      ((.count data.length, none), Function.update g path (data ++ (g path).drop data.length))
  | writeAt path off data => fun g =>
      ((.count data.length, none),
        if data = [] then g else Function.update g path (overwrite (g path) off.toNat data))
  | delete _ => fun g => ((.unit, none), g)
  | mkdir _ _ => fun g => ((.unit, none), g)
  | chmod _ _ => fun g => ((.unit, none), g)

/-- The numbers of an operation stay within `int64` and the daemon's buffers. -/
def InBounds (host : Host) : FileOp → Prop
  | readRange _ off n => 0 ≤ off ∧ off + n < 2 ^ 63
  | write _ data mode => data.length ≤ host.maxAlloc ∧ 0 ≤ mode
  | writeAt _ off data => 0 ≤ off ∧ off + data.length ≤ host.maxAlloc
  | mkdir _ mode => 0 ≤ mode ∧ mode < 2 ^ 63
  | _ => True

structure Fits (host : Host) (o : FileOp) : Prop where
  named : Change.Named o.path
  bounds : o.InBounds host

end FileOp

section

variable {host : Host} {g : Bytes → Bytes} {n : Nat} {path : Bytes}

/-! ## Descriptors -/

/-- The reported mode is always that of a plain file. -/
theorem openFile_handle (hpath : PlainPath path) (hproc : (ascii "/proc/").isPrefixOf path = false)
    (hn : n < 2 ^ 62) {flags mode : Int} (hflags : 0 ≤ flags) (hmode : 0 ≤ mode) (buf : Bytes) :
    Holds ((mockAccess host path g n).Serving (some buf)) (Client.openFile (mockPeer host) path flags mode)
      (fun r c => ∃ fd : Nat, r = .ok ⟨fd, 0o100644, (buf.length : Int), path⟩ ∧
        (mockAccess host path g (n + 1)).Open fd buf c) := by
  intro c hc
  obtain ⟨hstanding, -⟩ := hc.atFile
  obtain rfl : c.peer.state.files path = buf := Option.some.inj hc.content
  obtain ⟨s', out, hrecv, hreply, -⟩ := recv_open hpath hproc hflags hmode hstanding
  have hmax := host.maxAlloc_le
  have hsmall := hstanding.small
  have hcount := hc.atFile.2.nfd
  obtain ⟨c', hopen, -⟩ := Client.openFile_of_reply hpath hc.unread hrecv hreply
    (by omega : c.peer.state.nfd + 3 < 2 ^ 63) (by omega)
  obtain ⟨fd, md, hr, hopened⟩ := openFile_serving hpath hproc hn hflags hmode _ c hc
  refine ⟨fd, ?_, hopened⟩
  rw [hopen] at hr ⊢
  obtain ⟨⟩ := hr
  rfl

/-- A command that the daemon only acknowledges. -/
theorem raw_acknowledged {a : UInt8} (ha : a = 99 ∨ a = 100 ∨ a = 97) {rest : Bytes}
    (hlf : (10 : UInt8) ∉ rest) (hcr : (13 : UInt8) ∉ rest) (fd : Nat) (buf : Bytes) :
    Holds ((mockAccess host path g n).Open fd buf) (Client.raw (mockPeer host) (a :: 58 :: rest))
      (fun r c => r = (ascii "o\r\n", none) ∧ (mockAccess host path g n).Open fd buf c) := by
  intro c hc
  obtain ⟨hstanding, hbeside⟩ := hc.atFile
  have hans := answers_ok host hstanding.svc ha hlf hcr
  have hrecv := recv_answers hstanding.alive hans
  rw [← hstanding.eq] at hrecv
  obtain ⟨c', hrun, hafter⟩ := Client.raw_of_reply (T := .nothing) hc.unread hrecv
    (textReply_answers hans)
  rw [hrun]
  refine ⟨rfl, ⟨hafter.unread, hafter.current.trans hc.current, ?_, ?_⟩, ?_⟩
  · rw [hafter.peer]
    exact ⟨hstanding.logged _, hbeside.nfd, hbeside.others⟩
  · rw [hafter.peer]
    exact hc.content
  · rw [hafter.peer]
    exact hc.opened

theorem closeFile_acknowledged (fd fd' : Nat) (buf : Bytes) :
    Holds ((mockAccess host path g n).Open fd buf) (Client.closeFile (mockPeer host) fd')
      (fun r c => r = none ∧ (mockAccess host path g n).Open fd buf c) :=
  (raw_acknowledged (.inl rfl) (lf_not_mem_hex fd') (cr_not_mem_hex fd') fd buf).bind_value
    (.pure fun _ hc => ⟨rfl, hc⟩)

/-! ## Slices -/

/-- A read at any offset: the daemon has nothing to say behind the end of the file. -/
theorem readAt_slice {fd : Nat} {buf : Bytes} {off : Nat} (hoff : off < 2 ^ 63) {want : Int}
    (hwant : 0 ≤ want) :
    Holds ((mockAccess host path g n).Open fd buf) (Client.readAt (mockPeer host) fd off want)
      (fun r c => r = ((buf.drop off).take (Client.clipRead want).toNat, none) ∧
        (mockAccess host path g n).Open fd buf c) := by
  intro c hc
  obtain ⟨hstanding, hbeside⟩ := hc.atFile
  obtain rfl : c.peer.state.files path = buf := Option.some.inj hc.content
  obtain ⟨hentry, hfd⟩ := hc.opened
  have hclip := clipRead_range hwant
  have hchunk : Client.clipRead want ≤ 2048 := by
    unfold Client.clipRead
    split
    · exact le_rfl
    · exact not_lt.mp ‹_›
  have hmax := host.maxAlloc_le
  have hsmall := hstanding.small
  have hparse : parseRw (readCmd fd off (Client.clipRead want)) =
      some (fd, off, (Client.clipRead want).toNat) := by
    have hcmd := parseRw_readCmd (by omega : 0 ≤ (fd : Int) ∧ (fd : Int) < 2 ^ 63)
      (by omega : 0 ≤ (off : Int) ∧ (off : Int) < 2 ^ 63) hclip
    simpa using hcmd
  have hread : c.peer.state.readVfile host fd off (Client.clipRead want).toNat =
      some (((c.peer.state.files path).drop off).take (Client.clipRead want).toNat) := by
    rw [Session.readVfile, hentry]
    dsimp only
    rw [if_neg (by decide)]
    split
    · rename_i hend
      rw [List.drop_eq_nil_of_le hend, List.take_nil]
    · rw [if_neg (by omega)]
  have hrecv := @recv_readCmd host c.peer.state hstanding.alive hstanding.svc fd off
    (Client.clipRead want)
  rw [hparse] at hrecv
  dsimp only at hrecv
  rw [hread, ← hstanding.eq] at hrecv
  have hlen : (((c.peer.state.files path).drop off).take (Client.clipRead want).toNat).length < 2 ^ 63 := by
    have := List.length_take_le (Client.clipRead want).toNat ((c.peer.state.files path).drop off)
    omega
  obtain ⟨c', hrun, hafter⟩ := Client.readAt_of_reply (T := .nothing) hc.unread hrecv
    (statusReply_read _ _) (announces_countLine hlen)
  rw [hrun, readResult_countLine]
  refine ⟨rfl, ⟨hafter.unread, hafter.current.trans hc.current, ?_, ?_⟩, ?_⟩
  · rw [hafter.peer]
    exact ⟨hstanding.logged _, hbeside.nfd, hbeside.others⟩
  · rw [hafter.peer]
    exact hc.content
  · rw [hafter.peer]
    exact hc.opened

theorem clipRead_clipRead (n : Int) : Client.clipRead (Client.clipRead n) = Client.clipRead n := by
  unfold Client.clipRead
  split_ifs <;> rfl

/-- The loop of `ReadFileRange`: what has been read is the beginning of what is behind
the offset, and a read that brings nothing has reached the end of the file. -/
theorem rangeLoop_slices {fd : Nat} {buf : Bytes} {off : Nat} {want : Int}
    (hbound : (off : Int) + want < 2 ^ 63) (fuel : Nat) (out : Bytes) (hout : out <+: buf.drop off)
    (hle : (out.length : Int) ≤ max want 0) (hfuel : want ≤ out.length + fuel) :
    Holds ((mockAccess host path g n).Open fd buf)
      (Client.rangeLoop (mockPeer host) fd off want fuel out)
      (fun r c => r = ((buf.drop off).take want.toNat, none) ∧
        (mockAccess host path g n).Open fd buf c) := by
  have htake := List.prefix_iff_eq_take.mp hout
  induction fuel generalizing out with
  | zero =>
      have hall : out = (buf.drop off).take want.toNat := by
        rw [htake]
        congr 1
        omega
      rw [Client.rangeLoop, hall]
      exact .pure fun c hc => ⟨rfl, hc⟩
  | succ fuel ih =>
      unfold Client.rangeLoop
      by_cases hmore : (out.length : Int) < want
      · have hwrap : wrap64 (off + out.length) = ((off + out.length : Nat) : Int) := by
          rw [wrap64_of_bounds (by omega) (by omega)]
          omega
        rw [if_pos hmore, hwrap]
        refine (readAt_slice (by omega) (clipRead_range (by omega)).1).bind_value ?_
        rw [clipRead_clipRead]
        generalize hsize : (Client.clipRead (want - out.length)).toNat = size
        have hsize' : 0 < size ∧ size ≤ (want - out.length).toNat := by
          rw [← hsize]
          unfold Client.clipRead
          have hmax : (maxReadChunk : Int) = 2048 := rfl
          split_ifs <;> omega
        have hgrown : out ++ (buf.drop (off + out.length)).take size =
            (buf.drop off).take (out.length + size) := by
          rw [List.take_add, ← htake, List.drop_drop]
        dsimp only
        by_cases hnil : (buf.drop (off + out.length)).take size = []
        · rw [if_pos hnil]
          -- nothing is left behind what has been read
          have hall : out = (buf.drop off).take want.toNat := by
            have hend : (buf.drop off).length ≤ out.length := by
              rw [List.take_eq_nil_iff, List.drop_eq_nil_iff] at hnil
              rw [List.length_drop]
              omega
            rw [htake, List.take_of_length_le hend, List.take_of_length_le (by omega)]
          rw [← hall]
          exact .pure fun c hc => ⟨rfl, hc⟩
        · rw [if_neg hnil, hgrown]
          have hpos := List.length_pos_iff.mpr hnil
          rw [List.length_take, List.length_drop] at hpos
          refine ih _ (List.take_prefix _ _) ?_ ?_ (List.prefix_iff_eq_take.mp (List.take_prefix _ _))
          · rw [List.length_take, List.length_drop]
            omega
          · rw [List.length_take, List.length_drop]
            omega
      · rw [if_neg hmore]
        have hall : out = (buf.drop off).take want.toNat := by
          rw [htake]
          congr 1
          omega
        rw [← hall]
        exact .pure fun c hc => ⟨rfl, hc⟩

/-! ## Writes at an offset -/

/-- The file after the first `total` bytes of an upload: an upload of nothing does not even
fill the gap up to its offset. -/
def writtenAt (buf : Bytes) (off : Nat) (data : Bytes) (total : Nat) : Bytes :=
  if total = 0 then buf else overwrite buf off (data.take total)

theorem writtenAt_grow (buf : Bytes) (off : Nat) {data : Bytes} {total k : Nat} (hk : 0 < k)
    (htotal : total ≤ data.length) :
    overwrite (writtenAt buf off data total) (off + total) ((data.drop total).take k) =
      writtenAt buf off data (total + k) := by
  rw [writtenAt, writtenAt, if_neg (by omega : total + k ≠ 0), List.take_add]
  split
  · rename_i hzero
    subst hzero
    rw [List.take_zero, List.nil_append, Nat.add_zero]
  · have hlen : (data.take total).length = total := List.length_take_of_le htotal
    have happend := overwrite_append buf off (data.take total) ((data.drop total).take k)
    rwa [hlen] at happend

/-- The loop of `WriteFileAt`. -/
theorem writeLoop_writtenAt (buf : Bytes) {fd : Nat} {data : Bytes} {off : Nat}
    (hcap : off + data.length ≤ host.maxAlloc) (fuel total : Nat) (htotal : total ≤ data.length)
    (hfuel : data.length < total + fuel) :
    Holds ((mockAccess host path g n).Open fd (writtenAt buf off data total))
      (Client.writeLoop (mockPeer host) fd off data fuel total)
      (fun r c => r = ((data.length : Int), none) ∧
        (mockAccess host path g n).Open fd (writtenAt buf off data data.length) c) := by
  have hmax := host.maxAlloc_le
  induction fuel generalizing total with
  | zero => omega
  | succ fuel ih =>
      unfold Client.writeLoop
      by_cases hlt : (total : Int) < data.length
      · have hpos : ¬ (total : Int) < 0 := by omega
        have hchunk := Client.chunk_ne_nil hlt hpos
        have hsize : ((data.drop total).take maxWriteChunk).length ≤ data.length - total := by
          simp only [List.length_take, List.length_drop]
          omega
        have hwrap : wrap64 (off + total) = ((off + total : Nat) : Int) := by
          rw [wrap64_of_bounds (by omega) (by omega)]
          omega
        rw [if_pos hlt, if_neg hpos]
        simp only [hwrap, Int.toNat_natCast] at hchunk ⊢
        refine (FileAccess.writeAt_stores hchunk (by omega) (by omega)).bind ?_
        rintro r c ⟨k, rfl, hk, hkle, hopen⟩
        have hk0 : ¬ ((k : Int) ≤ 0) := by omega
        have hsum : wrap64 (total + k) = ((total + k : Nat) : Int) := by
          rw [wrap64_of_bounds (by omega) (by omega)]
          omega
        have hmin : k ≤ maxWriteChunk := hkle.trans (List.length_take_le _ _)
        rw [List.take_take, min_eq_left hmin, writtenAt_grow buf off hk htotal] at hopen
        dsimp only
        rw [if_neg hk0, hsum]
        exact ih (total + k) (by omega) (by omega) c hopen
      · obtain rfl : total = data.length := by omega
        rw [if_neg hlt]
        exact .pure fun c hc => ⟨rfl, hc⟩

/-! ## Operations -/

/-- Operations that change nothing leave the daemon with its files. -/
theorem holding_of_kept (path : Bytes) {α : Type} {m : Act (Served Session) α} {result : α} {k : Nat}
    (h : Holds ((mockAccess host path g n).Ready (some (g path))) m
      (fun r c => r = result ∧ (mockAccess host path g k).Idle (some (g path)) c)) :
    Holds (Holding host g n) m (fun r c => r = result ∧ Holding host g k c) := by
  intro c hc
  obtain ⟨hresult, hidle⟩ := h c (hc.ready path)
  exact ⟨hresult, holding_of_unchanged hc.small hidle⟩

theorem stat_holding (hnamed : Change.Named path) (hn : n < 2 ^ 62) :
    Holds (Holding host g n) (Client.stat (mockPeer host) path)
      (fun r c => r = ((0o100644, ((g path).length : Int)), none) ∧ Holding host g (n + 1) c) := by
  refine holding_of_kept path ?_
  refine (FileAccess.ensure_serves (some (g path))).bind_value ?_
  refine (openFile_handle hnamed.1 hnamed.2 hn (by decide) le_rfl (g path)).bind ?_
  rintro r c ⟨fd, rfl, hc⟩
  have hrest : Holds ((mockAccess host path g (n + 1)).Open fd (g path))
      (do
        let _ ← Client.closeFile (mockPeer host) fd
        pure (((0o100644 : Int), ((g path).length : Int)), (none : Option Err)))
      (fun r c => r = ((0o100644, ((g path).length : Int)), none) ∧
        (mockAccess host path g (n + 1)).Idle (some (g path)) c) :=
    (closeFile_acknowledged fd fd (g path)).bind_value (.pure fun _ hc => ⟨rfl, hc.idle⟩)
  exact hrest c hc

theorem readFileRange_holding (hnamed : Change.Named path) (hn : n < 2 ^ 62) {off want : Int}
    (hoff : 0 ≤ off) (hbound : off + want < 2 ^ 63) :
    Holds (Holding host g n) (Client.readFileRange (mockPeer host) path off want)
      (fun r c => r = (((g path).drop off.toNat).take want.toNat, none) ∧
        Holding host g (n + 1) c) := by
  obtain ⟨off, rfl⟩ := Int.eq_ofNat_of_zero_le hoff
  refine holding_of_kept path ?_
  refine FileAccess.withFile_runs (openFile_serving hnamed.1 hnamed.2 hn (by decide) le_rfl (g path)) ?_
  intro fd md
  exact rangeLoop_slices hbound want.toNat [] List.nil_prefix (by simp) (by simp)

theorem writeFileAt_holding (hnamed : Change.Named path) (hn : n < 2 ^ 62) {off : Int} {data : Bytes}
    (hoff : 0 ≤ off) (hcap : off + data.length ≤ host.maxAlloc) :
    Holds (Holding host g n) (Client.writeFileAt (mockPeer host) path off data)
      (fun r c => r = ((data.length : Int), none) ∧
        Holding host (Function.update g path (writtenAt (g path) off.toNat data data.length)) (n + 1) c) := by
  obtain ⟨off, rfl⟩ := Int.eq_ofNat_of_zero_le hoff
  have hwrite : Holds ((mockAccess host path g n).Ready (some (g path)))
      (Client.writeFileAt (mockPeer host) path off data)
      (fun r c => r = ((data.length : Int), none) ∧
        (mockAccess host path g (n + 1)).Idle (some (writtenAt (g path) off data data.length)) c) := by
    refine FileAccess.withFile_runs (openFile_serving hnamed.1 hnamed.2 hn (by decide) le_rfl (g path)) ?_
    intro fd md
    exact writeLoop_writtenAt (g path) (by omega) (data.length + 1) 0 (Nat.zero_le _) (by omega)
  intro c hc
  obtain ⟨hresult, hidle⟩ := hwrite c (hc.ready path)
  exact ⟨hresult, holding_of_idle hc.small hidle⟩

theorem orInt_nonneg {a b : Int} (ha : 0 ≤ a ∧ a < 2 ^ 63) (hb : 0 ≤ b ∧ b < 2 ^ 63) :
    0 ≤ orInt a b := by
  have hmsb : (BitVec.ofInt 64 a ||| BitVec.ofInt 64 b).msb = false := by
    rw [BitVec.msb_or, BitVec.msb_eq_toInt, BitVec.msb_eq_toInt, BitVec.toInt_ofInt,
      BitVec.toInt_ofInt]
    simp only [Int.bmod, Bool.or_eq_false_iff, decide_eq_false_iff_not]
    omega
  rw [BitVec.msb_eq_toInt, decide_eq_false_iff_not] at hmsb
  exact not_lt.mp hmsb

/-- `Mkdir` opens and closes a plain file. -/
theorem mkdir_holding (hnamed : Change.Named path) (hn : n < 2 ^ 62) {mode : Int}
    (hmode : 0 ≤ mode ∧ mode < 2 ^ 63) :
    Holds (Holding host g n) (Client.mkdir (mockPeer host) path mode)
      (fun r c => r = none ∧ Holding host g (n + 1) c) := by
  have hmode' : 0 ≤ orInt sIfdir (if mode = 0 then modeDir else mode) := by
    refine orInt_nonneg (by decide) ?_
    split
    · decide
    · exact hmode
  refine holding_of_kept path ?_
  refine (FileAccess.ensure_serves (some (g path))).bind_value ?_
  refine (openFile_serving hnamed.1 hnamed.2 hn (by decide) hmode' (g path)).bind ?_
  rintro r c ⟨fd, md, rfl, hc⟩
  obtain ⟨hresult, hopen⟩ := closeFile_acknowledged fd fd (g path) c hc
  exact ⟨hresult, hopen.idle⟩

theorem chmod_holding (hnamed : Change.Named path) (hn : n < 2 ^ 62) (mode : Int) :
    Holds (Holding host g n) (Client.chmod (mockPeer host) path mode)
      (fun r c => r = none ∧ Holding host g (n + 1) c) := by
  refine holding_of_kept path ?_
  refine FileAccess.withFile_runs (openFile_serving hnamed.1 hnamed.2 hn (by decide) le_rfl (g path)) ?_
  intro fd md
  have hcmd : chmodCmd fd mode = 97 :: 58 :: (fmtInt 16 fd ++ 58 :: fmtInt 16 mode) := by
    simp [chmodCmd, ascii]
  dsimp only
  rw [hcmd]
  exact (raw_acknowledged (.inr (.inr rfl)) (by simp) (by simp) fd (g path)).bind_value
    (.pure fun _ hc => ⟨rfl, hc⟩)

/-- One operation: it returns what the files say, and leaves what it is to leave. -/
theorem exec_spec {o : FileOp} (ho : o.Fits host) (hn : n < 2 ^ 62) {fuel : Nat}
    (hfuel : host.maxAlloc < fuel) :
    Holds (Holding host g n) (o.op.exec (mockPeer host) fuel)
      (fun r c => r = some (o.spec.run g).1 ∧ ∃ n' ≤ n + 1, Holding host (o.spec.run g).2 n' c) := by
  have hnamed := ho.named
  have hbounds := ho.bounds
  cases o with
  | stat path =>
      exact (stat_holding hnamed hn).bind_value (.pure fun c hc => ⟨rfl, n + 1, le_rfl, hc⟩)
  | read path =>
      obtain ⟨hplain, hproc⟩ : PlainPath path ∧ (ascii "/proc/").isPrefixOf path = false := hnamed
      intro c hc
      have hlen : (g path).length < fuel := lt_of_le_of_lt (hc.small path) hfuel
      have hexec : Holds (Holding host g n) ((FileOp.read path).op.exec (mockPeer host) fuel)
          (fun r c => r = some (.bytes (g path), none) ∧ ∃ n' ≤ n + 1, Holding host g n' c) :=
        (readFile_holding hplain hproc hn hlen).bind_value
          (.pure fun c hc => ⟨rfl, n + 1, le_rfl, hc⟩)
      exact hexec c hc
  | readRange path off want =>
      exact (readFileRange_holding hnamed hn hbounds.1 hbounds.2).bind_value
        (.pure fun c hc => ⟨rfl, n + 1, le_rfl, hc⟩)
  | write path data mode =>
      exact (writeFile_holding hnamed.1 hnamed.2 hn hbounds.1 hbounds.2).bind_value
        (.pure fun c hc => ⟨rfl, n + 1, le_rfl, hc⟩)
  | writeAt path off data =>
      have hnamed : Change.Named path := hnamed
      have hfiles : Function.update g path (writtenAt (g path) off.toNat data data.length) =
          ((FileOp.writeAt path off data).spec.run g).2 := by
        show _ = if data = [] then g else _
        rw [writtenAt, List.take_length]
        by_cases hnil : data = []
        · rw [if_pos (List.length_eq_zero_iff.mpr hnil), if_pos hnil]
          exact Function.update_eq_self path g
        · rw [if_neg (mt List.length_eq_zero_iff.mp hnil), if_neg hnil]
      refine (writeFileAt_holding hnamed hn hbounds.1 hbounds.2).bind_value ?_
      rw [hfiles]
      exact .pure fun c hc => ⟨rfl, n + 1, le_rfl, hc⟩
  | delete path =>
      exact (delete_holding hnamed.1).bind_value (.pure fun c hc => ⟨rfl, n, Nat.le_succ n, hc⟩)
  | mkdir path mode =>
      exact (mkdir_holding hnamed hn hbounds).bind_value (.pure fun c hc => ⟨rfl, n + 1, le_rfl, hc⟩)
  | chmod path mode =>
      exact (chmod_holding hnamed hn mode).bind_value (.pure fun c hc => ⟨rfl, n + 1, le_rfl, hc⟩)

end

end QconnMcp.Mock
