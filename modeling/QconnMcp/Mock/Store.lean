import QconnMcp.Kit.Run
import QconnMcp.Kit.Store
import QconnMcp.Mock.Answers

/-!
# The mock daemon's file service as a store

The file commands of one session against the plain store of `Kit.Store`: the answer
to each command should be what the store reports. The mock daemon does not look at
the flags of an open command and answers a delete command without removing anything,
and a Go slice has its limits, so this is so where the store meets `Fine`: nothing is
truncated or deleted that holds anything, and offsets and sizes are within bounds.
`Tracks` relates the two states, `recv_command_tracks` is one command and
`answersTo_eq` a whole sequence.
-/

namespace QconnMcp.Mock

open Kit Qconn

/-! ## Commands -/

/-- A number of a command line, in any number of hexadecimal digits. -/
structure HexNum where
  text : Bytes
  hex : HexText text

def HexNum.value (x : HexNum) : Nat := digitsFrom 16 x.text 0

/-- A path that fits into a command line and is not below `/proc/`. -/
structure OrdinaryPath where
  text : Bytes
  ne_nil : text ≠ []
  quote : (34 : UInt8) ∉ text
  lf : (10 : UInt8) ∉ text
  ordinary : (ascii "/proc/").isPrefixOf text = false

inductive FileCmd where
  | openFile (path : OrdinaryPath) (flags mode : HexNum)
  | read (fd off n : HexNum)
  /-- The count announces the payload. -/
  | write (fd off n : HexNum) (data : Bytes) (hlen : n.value = data.length)
  | delete (path : OrdinaryPath)
  | close (fd : HexNum)

namespace FileCmd

def line : FileCmd → Bytes
  | openFile path flags mode =>
      ascii "o:\"" ++ path.text ++ ascii "\":" ++ flags.text ++ ascii ":" ++ mode.text
  | read fd off n => ascii "r:" ++ fd.text ++ ascii ":" ++ off.text ++ ascii ":" ++ n.text
  | write fd off n _ _ => ascii "w:" ++ fd.text ++ ascii ":" ++ off.text ++ ascii ":" ++ n.text
  | delete path => deleteCmd path.text
  | close fd => ascii "c:" ++ fd.text

def payload : FileCmd → Bytes
  | write _ _ _ data _ => data
  | _ => []

/-- The bytes of the command on the connection. -/
def bytes (cmd : FileCmd) : Bytes := cmd.line ++ 10 :: cmd.payload

/-- What the command asks of a store. `O_TRUNC` is bit 9 of the flags. -/
def request : FileCmd → Store.Request Bytes
  | openFile path flags _ => .openFile path.text (flags.value.testBit 9)
  | read fd off n => .read fd.value off.value n.value
  | write fd off _ data _ => .write fd.value off.value data
  | delete path => .delete path.text
  | close fd => .close fd.value

end FileCmd

/-- The answer that carries a report, with the prompt behind it. -/
def answer (r : Store.Report Bytes) : Bytes :=
  (match r with
    | .opened fd size path => openAnswer fd 0o100644 size path ++ ascii "\r\n"
    | .data d => ascii "o:" ++ fmtNat 16 d.length ++ ascii ":0:0\r\n" ++ d
    | .count n => ascii "o:" ++ fmtNat 16 n ++ ascii ":0\r\n"
    | .done => ascii "o\r\n") ++
  ascii "<qconn-file>"

/-! ## Lines -/

theorem not_mem_hexText {t : Bytes} (ht : HexText t) {b : UInt8} (hb : isHexDigit b = false) :
    b ∉ t := by
  intro h
  rw [ht.2 b h] at hb
  exact absurd hb (by decide)

/-- A line that ends in a number is dispatched as it is. -/
theorem trimLine_hexText {t : Bytes} (ht : HexText t) (s : Bytes) :
    Session.trimLine (s ++ t) = s ++ t := by
  obtain ⟨init, b, rfl⟩ : ∃ init b, t = init ++ [b] := by
    rcases List.eq_nil_or_concat t with h | ⟨init, b, h⟩
    · exact absurd h ht.1
    · exact ⟨init, b, by rw [h, List.concat_eq_append]⟩
  have hdigit : isHexDigit b = true := ht.2 b (List.mem_append_right _ List.mem_cons_self)
  have hb : (b == 13 || b == 10) = false := by
    rw [Bool.or_eq_false_iff, beq_eq_false_iff_ne, beq_eq_false_iff_ne]
    refine ⟨?_, ?_⟩
    · rintro rfl
      exact absurd hdigit (by decide)
    · rintro rfl
      exact absurd hdigit (by decide)
  rw [← List.append_assoc]
  exact trimLine_concat hb

theorem FileCmd.line_clean (cmd : FileCmd) :
    (10 : UInt8) ∉ cmd.line ∧ Session.trimLine cmd.line = cmd.line := by
  have hlf : ∀ x : HexNum, (10 : UInt8) ∉ x.text := fun x => not_mem_hexText x.hex (by decide)
  cases cmd with
  | openFile path flags mode =>
      refine ⟨?_, trimLine_hexText mode.hex _⟩
      simp [FileCmd.line, ascii, path.lf, hlf]
  | read fd off n => exact ⟨by simp [FileCmd.line, ascii, hlf], trimLine_hexText n.hex _⟩
  | write fd off n data hlen => exact ⟨by simp [FileCmd.line, ascii, hlf], trimLine_hexText n.hex _⟩
  | delete path =>
      have hline : (delete path).line = ascii "d:\"" ++ path.text ++ ascii "\":" ++ ascii "1" := by
        simp [FileCmd.line, deleteCmd, ascii]
      rw [hline]
      exact ⟨by simp [ascii, path.lf], trimLine_hexText ⟨by decide, by decide +kernel⟩ _⟩
  | close fd => exact ⟨by simp [FileCmd.line, ascii, hlf], trimLine_hexText fd.hex _⟩

/-- The daemon caps a number at the largest one it can hold. -/
theorem HexNum.parsed (x : HexNum) : (parseInt 16 x.text).1.toNat = min x.value (2 ^ 63 - 1) :=
  parseInt_hex_toNat x.hex.1 x.hex.2

theorem parseRw_read (fd off n : HexNum) :
    parseRw (FileCmd.read fd off n).line =
      some (min fd.value (2 ^ 63 - 1), min off.value (2 ^ 63 - 1), min n.value (2 ^ 63 - 1)) := by
  have htext := parseRw_text (.inl rfl : (114 : UInt8) = 114 ∨ _) fd.hex off.hex n.hex
  rw [fd.parsed, off.parsed, n.parsed] at htext
  rw [← htext]
  simp only [FileCmd.line, List.append_assoc]
  rfl

theorem parseRw_write (fd off n : HexNum) {data : Bytes} (hlen : n.value = data.length) :
    parseRw (FileCmd.write fd off n data hlen).line =
      some (min fd.value (2 ^ 63 - 1), min off.value (2 ^ 63 - 1), min data.length (2 ^ 63 - 1)) := by
  have htext := parseRw_text (.inr rfl : _ ∨ (119 : UInt8) = 119) fd.hex off.hex n.hex
  rw [fd.parsed, off.parsed, n.parsed, hlen] at htext
  rw [← htext]
  simp only [FileCmd.line, List.append_assoc]
  rfl

/-! ## Where the store and the session agree -/

/-- In this state of the store the session can be expected to follow the request: it
does not notice `O_TRUNC` and deletes nothing, a read that starts inside the file
adds offset and count as `int64`, and a file grows to the largest buffer at most. -/
def Fine (host : Host) (st : Store Bytes) : Store.Request Bytes → Prop
  | .openFile path trunc => (trunc = true → st.content path = []) ∧ st.next < 2 ^ 62
  | .read fd off n => (st.contentAt fd).length ≤ off ∨ off = 0 ∨ off + n < 2 ^ 63
  | .write fd off data =>
      data.length ≤ host.maxAlloc ∧ ((st.fds fd).isSome → off + data.length ≤ host.maxAlloc)
  | .delete path => st.content path = []
  | .close _ => True

instance (host : Host) (st : Store Bytes) : (r : Store.Request Bytes) → Decidable (Fine host st r)
  | .openFile path trunc =>
      inferInstanceAs (Decidable ((trunc = true → st.content path = []) ∧ st.next < 2 ^ 62))
  | .read fd off n =>
      inferInstanceAs (Decidable ((st.contentAt fd).length ≤ off ∨ off = 0 ∨ off + n < 2 ^ 63))
  | .write fd off data =>
      inferInstanceAs (Decidable (data.length ≤ host.maxAlloc ∧
        ((st.fds fd).isSome → off + data.length ≤ host.maxAlloc)))
  | .delete path => inferInstanceAs (Decidable (st.content path = []))
  | .close _ => inferInstanceAs (Decidable True)

/-- The session holds what the store holds, and has room for more descriptors. -/
structure Tracks (host : Host) (st : Store Bytes) (s : Session) : Prop where
  svc : s.svc = .file
  alive : s.alive = true
  nfd : s.nfd + 3 = st.next
  fds : s.fds = fun fd => (st.fds fd).map (⟨·, false⟩)
  files : s.files = st.content
  room : st.next ≤ 2 ^ 62
  small : ∀ path, (st.content path).length ≤ host.maxAlloc

section
variable {host : Host} {st : Store Bytes} {s : Session}

/-- The daemon reads descriptors as `int64`, and hands out none that large. -/
theorem Tracks.lookup (h : Tracks host st s) (fd : Nat) :
    s.fds (min fd (2 ^ 63 - 1)) = (st.fds fd).map (⟨·, false⟩) := by
  have hroom := h.room
  rw [h.fds]
  rcases Nat.lt_or_ge fd (2 ^ 63) with hlt | hge
  · rw [Nat.min_eq_left (Nat.le_sub_one_of_lt hlt)]
  · dsimp only
    rw [st.fresh fd (by omega), st.fresh (min fd (2 ^ 63 - 1)) (by omega)]

/-- What the session reads is what the store reports. -/
theorem Tracks.read (h : Tracks host st s) {fd off n : Nat} (hfine : Fine host st (.read fd off n)) :
    s.readVfile host (min fd (2 ^ 63 - 1)) (min off (2 ^ 63 - 1)) (min n (2 ^ 63 - 1)) =
      some (((st.contentAt fd).drop off).take n) := by
  have hmax := host.maxAlloc_le
  have hcond : (st.contentAt fd).length ≤ off ∨ off = 0 ∨ off + n < 2 ^ 63 := hfine
  rw [Session.readVfile, h.lookup]
  rw [Store.contentAt] at hcond ⊢
  cases hfd : st.fds fd with
  | none => simp
  | some path =>
      have hsmall := h.small path
      simp only [hfd] at hcond
      simp only [Option.map_some, Bool.false_eq_true, if_false, h.files]
      rcases Nat.lt_or_ge off (st.content path).length with hin | hend
      · rw [if_neg (by omega), if_neg (by omega), Nat.min_eq_left (by omega : off ≤ 2 ^ 63 - 1)]
        congr 1
        -- a count that was cut to `int64` still reaches the end of the file
        rw [List.take_eq_take_iff, List.length_drop]
        omega
      · rw [if_pos (by omega), List.drop_eq_nil_of_le hend, List.take_nil]

/-- What the session stores is what the store holds then. -/
theorem Tracks.write (h : Tracks host st s) {fd off : Nat} {data : Bytes}
    (hfine : Fine host st (.write fd off data)) :
    ∃ s', s.storeVfile host (min fd (2 ^ 63 - 1)) (min off (2 ^ 63 - 1)) data = some s' ∧
      Tracks host (st.step (.write fd off data)).1 s' := by
  have hmax := host.maxAlloc_le
  rw [Session.storeVfile, h.lookup, Store.step]
  cases hfd : st.fds fd with
  | none => exact ⟨s, rfl, h⟩
  | some path =>
      have hroom : off + data.length ≤ host.maxAlloc := hfine.2 (by rw [hfd]; rfl)
      have hoff : min off (2 ^ 63 - 1) = off := Nat.min_eq_left (by omega)
      simp only [Option.map_some, Bool.false_eq_true, if_false, h.files, hoff]
      rw [if_neg (by omega)]
      refine ⟨_, rfl, h.svc, h.alive, h.nfd, h.fds, ?_, h.room, ?_⟩
      · rw [Store.content_put]
        rfl
      · intro q
        have hsmall := h.small path
        rw [Store.content_put]
        by_cases hq : q = path
        · subst hq
          rw [Function.update_self, Option.getD_some, overwrite_length]
          omega
        · rw [Function.update_of_ne hq]
          exact h.small q

/-- An open gets the next descriptor and the size of the file. -/
theorem Tracks.opens (h : Tracks host st s) (path : OrdinaryPath) {trunc : Bool}
    (hfine : Fine host st (.openFile path.text trunc)) :
    ∃ s', s.openCase path.text =
        (s', openAnswer st.next 0o100644 (st.content path.text).length path.text ++ ascii "\r\n") ∧
      (st.step (.openFile path.text trunc)).2 =
        .opened st.next (st.content path.text).length path.text ∧
      Tracks host (st.step (.openFile path.text trunc)).1 s' := by
  -- with or without `O_TRUNC`, the store holds what it held before
  obtain ⟨st', hst', hfds, hnext, hcontent⟩ : ∃ st' : Store Bytes,
      (if trunc then st.put path.text (some []) else st) = st' ∧ st'.fds = st.fds ∧
        st'.next = st.next ∧ st'.content = st.content := by
    cases trunc with
    | true => exact ⟨_, rfl, rfl, rfl, Store.content_put_nil rfl (hfine.1 rfl)⟩
    | false => exact ⟨_, rfl, rfl, rfl, rfl⟩
  have hroom := hfine.2
  rw [openCase_ordinary path.ordinary, h.files, h.nfd, Store.step, hst', hcontent]
  refine ⟨_, rfl, rfl, h.svc, h.alive, ?_, ?_, ?_, ?_, ?_⟩
  · show s.nfd + 1 + 3 = st'.next + 1
    rw [hnext, ← h.nfd]
  · funext fd
    show Function.update s.fds st.next (some ⟨path.text, false⟩) fd =
      (Function.update st'.fds st'.next (some path.text) fd).map (⟨·, false⟩)
    rw [hfds, hnext]
    by_cases hfd : fd = st.next
    · subst hfd
      rw [Function.update_self, Function.update_self, Option.map_some]
    · rw [Function.update_of_ne hfd, Function.update_of_ne hfd, h.fds]
  · exact hcontent.symm
  · show st'.next + 1 ≤ _
    omega
  · intro q
    show (st'.content q).length ≤ _
    rw [hcontent]
    exact h.small q

theorem Tracks.delete (h : Tracks host st s) {path : Bytes} (hfine : Fine host st (.delete path)) :
    Tracks host (st.step (.delete path)).1 s := by
  have hcontent : (st.put path none).content = st.content := Store.content_put_nil rfl hfine
  refine ⟨h.svc, h.alive, h.nfd, h.fds, ?_, h.room, ?_⟩
  · rw [h.files]
    exact hcontent.symm
  · intro q
    show ((st.put path none).content q).length ≤ _
    rw [hcontent]
    exact h.small q

theorem Tracks.logged (h : Tracks host st s) (cmd : Bytes) : Tracks host st (s.logged cmd) :=
  { h with }

/-! ## One command -/

/-- The bytes behind a command line are its payload. -/
theorem payload_line (h : Tracks host st s) {cmd : FileCmd} (hfine : Fine host st cmd.request) :
    s.payload host cmd.line = cmd.payload.length := by
  have hmax := host.maxAlloc_le
  cases cmd with
  | write fd off n data hlen =>
      have hsize : data.length ≤ host.maxAlloc := hfine.1
      have hcount : min data.length (2 ^ 63 - 1) = data.length := Nat.min_eq_left (by omega)
      rw [Session.payload, if_pos ⟨h.svc, rfl⟩, parseRw_write, hcount]
      exact if_neg (by omega)
  | openFile path flags mode => exact payload_of_letter host (by decide) _
  | read fd off n => exact payload_of_letter host (by decide) _
  | delete path => exact payload_of_letter host (by decide) _
  | close fd => exact payload_of_letter host (by decide) _

/-! The switch of the file service, at a line that parses. -/

theorem fileSwitch_opened {rest path f m : Bytes}
    (hparse : parseOpen (111 :: 58 :: rest) = some (path, f, m)) (data : Bytes) :
    s.fileSwitch host (111 :: 58 :: rest) data = some (s.openCase path) := by
  rw [fileSwitch_open, hparse]

theorem fileSwitch_sliced {rest d : Bytes} {fd off n : Nat}
    (hparse : parseRw (114 :: 58 :: rest) = some (fd, off, n))
    (hread : s.readVfile host fd off n = some d) (data : Bytes) :
    s.fileSwitch host (114 :: 58 :: rest) data =
      some (s, ascii "o:" ++ fmtNat 16 d.length ++ ascii ":0:0\r\n" ++ d) := by
  simp only [fileSwitch_read, hparse, hread, Option.map_some]

theorem fileSwitch_stored {rest data : Bytes} {fd off n : Nat} {s' : Session}
    (hparse : parseRw (119 :: 58 :: rest) = some (fd, off, n)) (hn : n ≤ host.maxAlloc)
    (hstore : s.storeVfile host fd off data = some s') :
    s.fileSwitch host (119 :: 58 :: rest) data =
      some (s', ascii "o:" ++ fmtNat 16 n ++ ascii ":0\r\n") := by
  simp only [fileSwitch_write, hparse, if_neg (Nat.not_lt.mpr hn), hstore, Option.map_some]

/-- The file service answers with the report of the store. -/
theorem fileSwitch_tracks (h : Tracks host st s) (cmd : FileCmd) (hfine : Fine host st cmd.request) :
    ∃ s' t, s.fileSwitch host cmd.line cmd.payload = some (s', t) ∧
      t ++ ascii "<qconn-file>" = answer (st.step cmd.request).2 ∧
      Tracks host (st.step cmd.request).1 s' := by
  have hmax := host.maxAlloc_le
  cases cmd with
  | openFile path flags mode =>
      obtain ⟨s', hopen, hreport, htracks⟩ := h.opens path hfine
      have hparse := parseOpen_text path.ne_nil path.quote flags.hex mode.hex
      have hswitch : s.fileSwitch host (FileCmd.openFile path flags mode).line [] =
          some (s.openCase path.text) := fileSwitch_opened hparse []
      refine ⟨s', _, hswitch.trans (congrArg some hopen), ?_, htracks⟩
      rw [FileCmd.request, hreport]
      rfl
  | read fd off n =>
      exact ⟨s, _, fileSwitch_sliced (parseRw_read fd off n) (h.read hfine) [], rfl, h⟩
  | write fd off n data hlen =>
      obtain ⟨s', hstore, htracks⟩ := h.write hfine
      have hsize : data.length ≤ host.maxAlloc := hfine.1
      have hcount : min data.length (2 ^ 63 - 1) = data.length := Nat.min_eq_left (by omega)
      have hparse := parseRw_write fd off n hlen
      rw [hcount] at hparse
      exact ⟨s', _, fileSwitch_stored hparse hsize hstore, rfl, htracks⟩
  | delete path => exact ⟨s, _, fileSwitch_ok (.inr (.inl rfl)) _ _, rfl, h.delete hfine⟩
  | close fd => exact ⟨s, _, fileSwitch_ok (.inl rfl) _ _, rfl, h⟩

/-- One command: the session answers what the store reports, and holds what the store
holds afterwards. -/
theorem recv_command_tracks (h : Tracks host st s) (cmd : FileCmd)
    (hfine : Fine host st cmd.request) :
    ∃ s', (mockPeer host).recv ⟨s, []⟩ cmd.bytes =
        some (⟨s', []⟩, answer (st.step cmd.request).2) ∧
      Tracks host (st.step cmd.request).1 s' := by
  obtain ⟨hline, htrim⟩ := cmd.line_clean
  obtain ⟨s', t, hswitch, ht, htracks⟩ := fileSwitch_tracks (h.logged cmd.line) cmd hfine
  have hpay : (serve host).payload s cmd.line = cmd.payload.length :=
    (serve_payload htrim).trans (payload_line h hfine)
  have hhandle : (serve host).handle s cmd.line cmd.payload =
      (s', answer (st.step cmd.request).2) := by
    rw [serve_handle htrim, dispatch_file h.svc, Session.file, hswitch, ← ht]
    show (s', t ++ s'.prompt) = _
    rw [Session.prompt, htracks.svc]
    rfl
  refine ⟨s', ?_, htracks⟩
  rw [FileCmd.bytes, LineDaemon.recv_command _ h.alive hline hpay, hhandle]

/-! ## A whole sequence -/

/-- The answers to commands sent one after another; `none` once the daemon is gone. -/
def answersTo (host : Host) : Served Session → List FileCmd → Option (List Bytes)
  | _, [] => some []
  | s, cmd :: cmds =>
      match (mockPeer host).recv s cmd.bytes with
      | none => none
      | some (s', out) => (answersTo host s' cmds).map (out :: ·)

/-- The store from one request to the next. -/
def storeStep (st : Store Bytes) (r : Store.Request Bytes) : Option (Store Bytes) := some (st.step r).1

theorem answersTo_eq (h : Tracks host st s) (cmds : List FileCmd)
    (hfine : Along storeStep (Fine host) st (cmds.map FileCmd.request)) :
    answersTo host ⟨s, []⟩ cmds = some ((st.reports (cmds.map FileCmd.request)).map answer) := by
  induction cmds generalizing st s with
  | nil => rfl
  | cons cmd cmds ih =>
      obtain ⟨s', hrecv, htracks⟩ := recv_command_tracks h cmd hfine.1
      rw [answersTo, hrecv]
      dsimp only
      rw [ih htracks (hfine.2 _ rfl)]
      rfl

end

/-- A session in the file service, before its first command there. -/
def Session.atFile : Session := { Session.start with svc := .file }

theorem tracks_empty (host : Host) : Tracks host (Store.empty 3) Session.atFile :=
  ⟨rfl, rfl, rfl, rfl, rfl, by decide, fun _ => Nat.zero_le _⟩

end QconnMcp.Mock
