import QconnMcp.Qconn.Answer

/-!
# File servers

What the client may expect of the file service of a target, for one path: opens
honour `O_CREAT` and `O_TRUNC` and announce the true size, an upload stores the
part of its payload that it acknowledges, a read returns some of the bytes at
its offset and nothing only at the end of the file. Short uploads and short reads
are allowed everywhere.

Against such a server an upload stores its data and a download returns what is
stored, whatever the bytes are, also as the first operation behind a handshake that left a
line unread (`Fresh`). `FileAccess` is what remains of a server once the file is open;
`writeLoop_stores` and `readLoop_returns` carry the two chunking loops through it.
-/

namespace QconnMcp.Qconn

open Kit

/-- An open command asks for `flag`. -/
def hasFlag (flags flag : Int) : Bool := orInt flags flag == flags

/-- An open that is answered with a handle. -/
theorem Client.openFile_of_reply {σ : Type} {P : Peer σ} {T : Trail} {c : Client σ} {s : σ}
    {path out : Bytes} {flags mode : Int} {fd md size : Nat} (hpath : PlainPath path)
    (hunread : T.ok c.fc.inp)
    (hrecv : P.recv c.peer (openCmd path flags mode ++ [10]) = some (s, out))
    (hout : TextReply T (openAnswer fd md size path ++ ascii "\r\n") out) (hfd : fd < 2 ^ 63)
    (hsize : size < 2 ^ 63) :
    ∃ c', (Client.openFile P path flags mode).run c =
        (.ok ⟨fd, (parseInt 16 (fmtNat 16 md)).1, size, path⟩, c') ∧
      Client.After T c s [openCmd path flags mode] c' := by
  obtain ⟨c', hrun, hafter⟩ := Client.raw_of_reply hunread hrecv hout
  refine ⟨c', ?_, hafter⟩
  rw [Client.openFile, run_bind, hrun]
  simp only [firstLine_openAnswer hpath.lf, parseOpen_openAnswer hpath.ne_nil hpath.lf]
  rw [parseInt_fmtNat (by decide) (by decide) hfd, parseInt_fmtNat (by decide) (by decide) hsize]
  rfl

/-- Access to one file of a target, for contents of up to `cap` bytes: entering the
file service, and what may be done with open descriptors. -/
structure FileAccess {σ : Type} (P : Peer σ) (T : Trail) (cap : Nat) where
  atBroker : σ → Prop
  atFile : σ → Prop
  /-- The file, if there is one. -/
  content : σ → Option Bytes
  /-- The descriptors open on it. -/
  opened : σ → Nat → Prop
  enter : ∀ {s}, atBroker s → ∃ s' out t,
    P.recv s (ascii "service " ++ Service.file.name ++ [10]) = some (s', out) ∧ TextReply T t out ∧
      (ascii "OK").isPrefixOf (firstLine (trimLeft (· == 32) t)) = true ∧
      atFile s' ∧ content s' = content s
  read : ∀ {s fd buf off n}, atFile s → opened s fd → content s = some buf → off ≤ buf.length →
    0 < n → n ≤ maxReadChunk →
    ∃ s' out data t, P.recv s (readCmd fd off n ++ [10]) = some (s', out) ∧
      StatusReply T (countLine data.length t) data out ∧
      data <+: buf.drop off ∧ data.length ≤ n ∧ (data = [] → buf.length ≤ off) ∧
      atFile s' ∧ opened s' fd ∧ content s' = some buf
  write : ∀ {s fd buf off data}, atFile s → opened s fd → content s = some buf → data ≠ [] →
    off + data.length ≤ cap →
    ∃ s₁ s' out k t, P.recv s (writeCmd fd off data.length ++ [10]) = some (s₁, []) ∧
      P.recv s₁ data = some (s', out) ∧ StatusReply T (countLine k t) [] out ∧
      1 ≤ k ∧ k ≤ data.length ∧
      atFile s' ∧ opened s' fd ∧ content s' = some (overwrite buf off (data.take k))
  close : ∀ {s fd buf}, atFile s → opened s fd → content s = some buf →
    ∃ s' out t, P.recv s (closeCmd fd ++ [10]) = some (s', out) ∧ TextReply T t out ∧
      atFile s' ∧ content s' = some buf

namespace FileAccess

variable {σ : Type} {P : Peer σ} {T : Trail} {cap : Nat} (A : FileAccess P T cap)

/-! ## Where client and target are -/

/-- Between two operations, in the broker or in the file service. -/
structure Idle (content : Option Bytes) (c : Client σ) : Prop where
  unread : T.ok c.fc.inp
  service : c.current = .broker ∧ A.atBroker c.peer ∨ c.current = .file ∧ A.atFile c.peer
  content : A.content c.peer = content

/-- Right behind the handshake with a daemon that sends a line behind its first prompt. The
line is one that `firstLine` skips, and the `OK` that is to follow it is not indented. -/
structure Fresh (content : Option Bytes) (c : Client σ) : Prop where
  unread : ∃ l, c.fc.inp = l ++ [10] ∧ (10 : UInt8) ∉ l ∧ iac ∉ l ∧ NoPrompt l ∧
    isNoise (trimRight (· == 13) (trimLeft (· == 32) l)) = true
  current : c.current = .broker
  content : A.content c.peer = content
  enter : ∃ s out t,
    P.recv c.peer (ascii "service " ++ Service.file.name ++ [10]) = some (s, out) ∧
      TextReply T t out ∧ (ascii "OK").isPrefixOf (firstLine t) = true ∧ A.atFile s ∧
      A.content s = A.content c.peer

/-- Before an operation. -/
def Ready (content : Option Bytes) (c : Client σ) : Prop := A.Idle content c ∨ A.Fresh content c

structure Serving (content : Option Bytes) (c : Client σ) : Prop where
  unread : T.ok c.fc.inp
  current : c.current = .file
  atFile : A.atFile c.peer
  content : A.content c.peer = content

/-- With a descriptor open on the file. -/
structure Open (fd : Nat) (buf : Bytes) (c : Client σ) : Prop extends
    A.Serving (some buf) c where
  opened : A.opened c.peer fd

variable {A}

theorem Serving.after {content content' : Option Bytes} {c c' : Client σ} {s : σ}
    {cmds : List Bytes} (hc : A.Serving content c) (hafter : Client.After T c s cmds c')
    (hfile : A.atFile s) (hcontent : A.content s = content') : A.Serving content' c' where
  unread := hafter.unread
  current := hafter.current.trans hc.current
  atFile := hafter.peer ▸ hfile
  content := hafter.peer ▸ hcontent

theorem Serving.idle {content : Option Bytes} {c : Client σ} (hc : A.Serving content c) :
    A.Idle content c :=
  ⟨hc.unread, .inr ⟨hc.current, hc.atFile⟩, hc.content⟩

theorem Ready.content {content : Option Bytes} {c : Client σ} (hc : A.Ready content c) :
    A.content c.peer = content :=
  hc.elim Idle.content Fresh.content

/-! ## Single exchanges -/

theorem trimLeft_line (l t : Bytes) :
    trimLeft (· == 32) (l ++ 10 :: t) = trimLeft (· == 32) l ++ 10 :: t := by
  induction l with
  | nil => rfl
  | cons b l ih =>
      by_cases hb : (b == 32) = true
      · simpa [trimLeft, hb] using ih
      · simp [trimLeft, hb]

theorem firstLine_noise {l : Bytes} (hlf : (10 : UInt8) ∉ l)
    (hnoise : isNoise (trimRight (· == 13) l) = true) (t : Bytes) :
    firstLine (l ++ 10 :: t) = firstLine t := by
  rw [firstLine, splitOn_append_cons hlf, List.map_cons, List.find?_cons_of_neg (by simp [hnoise])]
  rfl

/-- The unread line stands in front of the answer and is skipped. -/
theorem Fresh.enters {content : Option Bytes} {c : Client σ} (hc : A.Fresh content c) :
    ∃ c', (Client.ensure P .file).run c = (none, c') ∧ A.Serving content c' := by
  obtain ⟨l, hinp, hlf, hiac, hl, hnoise⟩ := hc.unread
  obtain ⟨s, out, t, hrecv, hout, hok, hfile, hcontent⟩ := hc.enter
  have hreply : TextReply T (l ++ 10 :: t) (c.fc.inp ++ out) := by
    rw [hinp]
    exact hout.behind_line hiac hl
  have hlf' : (10 : UInt8) ∉ trimLeft (· == 32) l := fun h => hlf (List.dropWhile_subset _ h)
  obtain ⟨c', hrun, hafter⟩ := Client.raw_of_unread hrecv hreply
  rw [trimLeft_line] at hrun
  rw [← firstLine_noise hlf' hnoise t] at hok
  refine ⟨_, Client.ensure_entered hc.current (by decide) hrun hok, hafter.unread, rfl, ?_, ?_⟩
  · exact hafter.peer ▸ hfile
  · exact hafter.peer ▸ hcontent.trans hc.content

theorem ensure_serves (content : Option Bytes) :
    Holds (A.Ready content) (Client.ensure P .file)
      (fun r c => r = none ∧ A.Serving content c) := by
  rintro c (hc | hc)
  · rcases hc.service with ⟨hcur, hbroker⟩ | ⟨hcur, hfile⟩
    · obtain ⟨s, out, t, hrecv, hout, hok, hfile, hcontent⟩ := A.enter hbroker
      obtain ⟨c', hrun, hafter⟩ := Client.raw_of_reply hc.unread hrecv hout
      rw [Client.ensure_entered hcur (by decide) hrun hok]
      refine ⟨rfl, hafter.unread, rfl, ?_, ?_⟩
      · exact hafter.peer ▸ hfile
      · exact hafter.peer ▸ hcontent.trans hc.content
    · rw [Client.ensure_there hcur]
      exact ⟨rfl, hc.unread, hcur, hfile, hc.content⟩
  · obtain ⟨c', hrun, hserving⟩ := hc.enters
    rw [hrun]
    exact ⟨rfl, hserving⟩

theorem closeFile_serves (fd : Nat) (buf : Bytes) :
    Holds (A.Open fd buf) (Client.closeFile P fd) (fun _ c => A.Serving (some buf) c) := by
  intro c hc
  obtain ⟨s, out, t, hrecv, hout, hfile, hcontent⟩ := A.close hc.atFile hc.opened hc.content
  obtain ⟨c', hrun, hafter⟩ := Client.raw_of_reply hc.unread hrecv hout
  have hclose : ((Client.closeFile P fd).run c).2 = c' := by
    rw [Client.closeFile, run_bind, hrun]
    rfl
  rw [hclose]
  exact hc.toServing.after hafter hfile hcontent

theorem readAt_returns {fd : Nat} {buf : Bytes} {off : Nat} (hoff : off ≤ buf.length) :
    Holds (A.Open fd buf) (Client.readAt P fd off maxReadChunk)
      (fun r c => r.2 = none ∧ r.1 <+: buf.drop off ∧ (r.1 = [] → buf.length ≤ off) ∧
        A.Open fd buf c) := by
  intro c hc
  obtain ⟨s, out, data, t, hrecv, hout, hprefix, hle, hempty, hfile, hopened, hcontent⟩ :=
    A.read hc.atFile hc.opened hc.content hoff (n := maxReadChunk) (by decide) le_rfl
  have hlen : data.length < 2 ^ 63 := lt_of_le_of_lt hle (by decide)
  obtain ⟨c', hrun, hafter⟩ := Client.readAt_of_reply (n := maxReadChunk) hc.unread hrecv hout
    (announces_countLine hlen)
  rw [hrun, readResult_countLine]
  exact ⟨rfl, hprefix, hempty, hc.toServing.after hafter hfile hcontent, hafter.peer ▸ hopened⟩

/-- An upload stores what the target acknowledges of it. -/
theorem writeAt_stores {fd off : Nat} {buf data : Bytes} (hne : data ≠ [])
    (hcap : off + data.length ≤ cap) (hlen : data.length < 2 ^ 63) :
    Holds (A.Open fd buf) (Client.writeAt P fd off data)
      (fun r c => ∃ k : Nat, r = ((k : Int), none) ∧ 1 ≤ k ∧ k ≤ data.length ∧
        A.Open fd (overwrite buf off (data.take k)) c) := by
  intro c hc
  obtain ⟨s₁, s, out, k, t, hreq, hpay, hout, hpos, hle, hfile, hopened, hcontent⟩ :=
    A.write hc.atFile hc.opened hc.content hne hcap
  have hline := statusLine_countLine k t
  obtain ⟨c', hrun, hafter⟩ := Client.writeAt_of_reply hc.unread hreq hpay hout
    (by rw [hline]; exact isPrefixOf_countLine _ _)
  rw [hrun, hline, statusCount_countLine (by omega)]
  exact ⟨k, rfl, hpos, hle, hc.toServing.after hafter hfile hcontent, hafter.peer ▸ hopened⟩

/-! ## The chunking loops -/

/-- The upload loop: after `total` bytes the file begins with exactly these, and goes on
as the old one did. -/
theorem writeLoop_stores (fd : Nat) {data : Bytes} (old : Bytes) (hcap : data.length ≤ cap)
    (hlen : data.length < 2 ^ 63) (fuel total : Nat) (htotal : total ≤ data.length)
    (hfuel : data.length < total + fuel) :
    Holds (A.Open fd (data.take total ++ old.drop total)) (Client.writeLoop P fd 0 data fuel total)
      (fun r c => r = ((data.length : Int), none) ∧ A.Open fd (data ++ old.drop data.length) c) := by
  induction fuel generalizing total with
  | zero => omega
  | succ fuel ih =>
      unfold Client.writeLoop
      by_cases hlt : (total : Int) < data.length
      · have hpos : ¬ (total : Int) < 0 := by omega
        have hchunk := Client.chunk_ne_nil hlt hpos
        have hsize : ((data.drop total).take maxWriteChunk).length ≤ data.length - total := by
          simp only [List.length_take, List.length_drop]
          omega
        have hwrap : wrap64 (0 + total) = (total : Int) := by
          rw [wrap64_of_bounds (by omega) (by omega)]
          omega
        rw [if_pos hlt, if_neg hpos]
        simp only [hwrap, Int.toNat_natCast] at hchunk ⊢
        refine (writeAt_stores hchunk (by omega) (by omega)).bind ?_
        intro r c hr
        obtain ⟨k, rfl, hk, hkle, hopen⟩ := hr
        have hk0 : ¬ ((k : Int) ≤ 0) := by omega
        have hsum : wrap64 (total + k) = ((total + k : Nat) : Int) := by
          rw [wrap64_of_bounds (by omega) (by omega)]
          omega
        have hgrown : overwrite (data.take total ++ old.drop total) total
              (((data.drop total).take maxWriteChunk).take k) =
            data.take (total + k) ++ old.drop (total + k) := by
          have hmin : k ≤ maxWriteChunk := hkle.trans (List.length_take_le _ _)
          have hbuf : (data.take total).length = total := List.length_take_of_le htotal
          have hcount : ((data.drop total).take k).length = k := by
            rw [List.length_take, List.length_drop]
            omega
          have hsplice := overwrite_splice (data.take total) (old.drop total) ((data.drop total).take k)
          rw [hbuf, hcount, List.drop_drop, ← List.take_add] at hsplice
          rw [List.take_take, min_eq_left hmin, hsplice]
        rw [hgrown] at hopen
        show _ ∧ _
        dsimp only
        rw [if_neg hk0, hsum]
        exact ih (total + k) (by omega) (by omega) c hopen
      · have hall : total = data.length := by omega
        subst hall
        rw [if_neg hlt, List.take_length]
        exact .pure fun c hc => ⟨rfl, hc⟩

/-- The download loop: what has been read is the file up to the offset. -/
theorem readLoop_returns {path : Bytes} {fd : Nat} {md : Int} {buf : Bytes} (hlen : buf.length < 2 ^ 63)
    (fuel off : Nat) (hoff : off ≤ buf.length) (hfuel : buf.length < off + fuel) :
    Holds (A.Open fd buf)
      (Client.readLoop P ⟨fd, md, buf.length, path⟩ fuel (buf.take off) off)
      (fun r c => r = some (buf, none) ∧ A.Open fd buf c) := by
  induction fuel generalizing off with
  | zero => omega
  | succ fuel ih =>
      refine (readAt_returns hoff).bind ?_
      intro r c hr
      obtain ⟨chunk, err⟩ := r
      obtain ⟨herr, hprefix, hempty, hopen⟩ := hr
      obtain rfl : err = none := herr
      have hchunk : chunk = (buf.drop off).take chunk.length := (List.prefix_iff_eq_take.mp hprefix)
      have hgrown : buf.take off ++ chunk = buf.take (off + chunk.length) := by
        rw [List.take_add, ← hchunk]
      have hle : chunk.length ≤ buf.length - off := by
        have := hprefix.length_le
        rwa [List.length_drop] at this
      dsimp only
      by_cases hnil : chunk = []
      · have hend := hempty hnil
        rw [if_pos hnil, List.take_of_length_le hend]
        exact ⟨rfl, hopen⟩
      · have hpos : 0 < chunk.length := List.length_pos_iff.mpr hnil
        have hwrap : wrap64 (off + chunk.length) = ((off + chunk.length : Nat) : Int) := by
          rw [wrap64_of_bounds (by omega) (by omega)]
          omega
        rw [if_neg hnil, hgrown, hwrap]
        by_cases hend : (0 : Int) < buf.length ∧ (buf.length : Int) ≤ ((off + chunk.length : Nat) : Int)
        · rw [if_pos hend, List.take_of_length_le (by omega)]
          exact ⟨rfl, hopen⟩
        · rw [if_neg hend]
          exact ih (off + chunk.length) (by omega) (by omega) c hopen

/-- Open, body, close. Where the open leaves the target, the body goes on (`B`). -/
theorem withFile_runs {B : FileAccess P T cap} {α : Type} {path : Bytes} {flags mode : Int}
    {failed : Err → α} {body : FileHandle → Act σ α} {content : Option Bytes} {buf buf' : Bytes}
    {size : Int} {result : α}
    (hopen : Holds (A.Serving content) (Client.openFile P path flags mode)
      (fun r c => ∃ (fd : Nat) (md : Int), r = .ok ⟨fd, md, size, path⟩ ∧ B.Open fd buf c))
    (hbody : ∀ (fd : Nat) (md : Int), Holds (B.Open fd buf) (body ⟨fd, md, size, path⟩)
      (fun r c => r = result ∧ B.Open fd buf' c)) :
    Holds (A.Ready content) (Client.withFile P path flags mode failed body)
      (fun r c => r = result ∧ B.Idle (some buf') c) := by
  refine (ensure_serves content).bind_value ?_
  refine hopen.bind ?_
  intro opened c hopened
  obtain ⟨fd, md, rfl, hopen⟩ := hopened
  have hrest : Holds (B.Open fd buf)
      (do
        let r ← body ⟨fd, md, size, path⟩
        let _ ← Client.closeFile P fd
        pure r)
      (fun r c => r = result ∧ B.Idle (some buf') c) := by
    refine (hbody fd md).bind_value ?_
    exact (closeFile_serves fd buf').bind fun _ => .pure fun c hc => ⟨rfl, hc.idle⟩
  exact hrest c hopen

end FileAccess

/-- A target whose file service handles `path`, for contents of up to `cap`
bytes. -/
structure FileServer {σ : Type} (P : Peer σ) (T : Trail) (path : Bytes) (cap : Nat) extends
    FileAccess P T cap where
  openPath : ∀ {s} {flags mode : Int}, 0 ≤ flags ∧ flags < 2 ^ 63 → 0 ≤ mode → atFile s →
    hasFlag flags oCreat = true ∨ (content s).isSome →
    ∃ s' out fd md buf, P.recv s (openCmd path flags mode ++ [10]) = some (s', out) ∧
      TextReply T (openAnswer fd md buf.length path ++ ascii "\r\n") out ∧ fd < 2 ^ 63 ∧
      buf = (if hasFlag flags oTrunc then [] else (content s).getD []) ∧
      atFile s' ∧ opened s' fd ∧ content s' = some buf

namespace FileServer

variable {σ : Type} {P : Peer σ} {T : Trail} {path : Bytes} {cap : Nat}
  {F : FileServer P T path cap}

/-- An open that may create the file, or finds it. -/
theorem openFile_opens (hpath : PlainPath path) {flags mode : Int}
    (hpos : 0 ≤ flags ∧ flags < 2 ^ 63) (hmode : 0 ≤ mode) {content : Option Bytes} {buf : Bytes}
    (hflags : hasFlag flags oCreat = true ∨ content.isSome)
    (hbuf : buf = if hasFlag flags oTrunc then [] else content.getD [])
    (hlen : buf.length < 2 ^ 63) :
    Holds (F.Serving content) (Client.openFile P path flags mode)
      (fun r c => ∃ (fd : Nat) (md : Int), r = .ok ⟨fd, md, (buf.length : Int), path⟩ ∧
        F.Open fd buf c) := by
  intro c hc
  obtain ⟨s, out, fd, md, buf', hrecv, hout, hfd, hbuf', hfile, hopened, hcontent⟩ :=
    F.openPath hpos hmode hc.atFile (hc.content ▸ hflags)
  obtain rfl : buf' = buf := by rw [hbuf', hbuf, hc.content]
  obtain ⟨c', hopen, hafter⟩ := Client.openFile_of_reply hpath hc.unread hrecv hout hfd hlen
  rw [hopen]
  exact ⟨fd, _, rfl, hc.after hafter hfile hcontent, hafter.peer ▸ hopened⟩

/-! ## Upload and download -/

/-- An upload stores its data, whatever was there before. -/
theorem writeFile_stores (hpath : PlainPath path) {data : Bytes} (hcap : data.length ≤ cap)
    (hlen : data.length < 2 ^ 63) {mode : Int} (hmode : 0 ≤ mode) (content : Option Bytes) :
    Holds (F.Ready content) (Client.writeFile P path data mode)
      (fun r c => r = ((data.length : Int), none) ∧ F.Idle (some data) c) := by
  have hcreat : hasFlag (orInt (orInt oCreat oTrunc) oWronly) oCreat = true := by decide
  have htrunc : hasFlag (orInt (orInt oCreat oTrunc) oWronly) oTrunc = true := by decide
  have hmode' : 0 ≤ if mode = 0 then modeRWAll else mode := by
    split
    · decide
    · exact hmode
  have hempty : ([] : Bytes) = if hasFlag (orInt (orInt oCreat oTrunc) oWronly) oTrunc then []
      else content.getD [] := (if_pos htrunc).symm
  refine FileAccess.withFile_runs
    (openFile_opens (F := F) hpath (by decide) hmode' (.inl hcreat) hempty (by decide)) ?_
  intro fd md
  have hdata : data ++ List.drop data.length [] = data := by
    rw [List.drop_nil, List.append_nil]
  have hloop := FileAccess.writeLoop_stores (A := F.toFileAccess) fd [] hcap hlen (data.length + 1) 0
    (Nat.zero_le _) (by omega)
  rw [hdata] at hloop
  exact hloop

/-- A download returns what is stored. -/
theorem readFile_returns (hpath : PlainPath path) {buf : Bytes} (hlen : buf.length < 2 ^ 63)
    {fuel : Nat} (hfuel : buf.length < fuel) :
    Holds (F.Ready (some buf)) (Client.readFile P fuel path)
      (fun r c => r = some (buf, none) ∧ F.Idle (some buf) c) := by
  have hkeep : ¬ hasFlag oRdonly oTrunc = true := by decide
  have hsame : buf = if hasFlag oRdonly oTrunc then [] else (some buf).getD [] := (if_neg hkeep).symm
  refine FileAccess.withFile_runs
    (openFile_opens (F := F) hpath (by decide) le_rfl (.inr rfl) hsame hlen) ?_
  intro fd md
  exact FileAccess.readLoop_returns hlen fuel 0 (Nat.zero_le _) (by omega)

end FileServer

end QconnMcp.Qconn
