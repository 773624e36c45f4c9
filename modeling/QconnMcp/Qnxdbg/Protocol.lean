import QconnMcp.Kit.Stuffing

/-!
# DSMSG frames

The codec of `internal/qnxdbg/protocol.go` and the frame reader `readFrame` of
`client.go`. A frame is the payload and its one's-complement checksum, escaped,
between two delimiters. Both ends of the link use this code, so the stuffing is
the general one of `Kit.Stuffing` at the bytes `0x7e`, `0x7d` and `0x20`.

`readAll_frames` is the round trip with resynchronisation: line garbage in front
of a sequence of frames costs what it contains itself, and no frame.
`readFrame_altered` is what the checksum is for: a single byte that changes on the
line is noticed.
-/

namespace QconnMcp.Qnxdbg

open Kit

/-! ## Codec -/

def frameChar : UInt8 := 0x7e
def escChar : UInt8 := 0x7d
def escXor : UInt8 := 0x20

def stuffing : Stuffing where
  delim := frameChar
  esc := escChar
  mask := escXor
  delim_ne_esc := by decide
  delim_masked := by decide
  esc_masked := by decide

/-- The one's complement of the byte sum. -/
def checksum (b : Bytes) : UInt8 := 0xff - b.foldl (· + ·) 0

def escape (b : Bytes) : Bytes := stuffing.escape b

def unescape (b : Bytes) : Bytes := stuffing.unescape b

def frame (payload : Bytes) : Bytes :=
  frameChar :: (escape payload ++ escape [checksum payload] ++ [frameChar])

/-! ## Reading -/

inductive ReadErr where
  | io (e : IoErr)
  /-- `qnxdbg: empty frame` -/
  | emptyFrame
  /-- `qnxdbg: bad checksum (got %#x want %#x)` -/
  | badChecksum (got want : UInt8)
  deriving DecidableEq, Repr

/-- The payload of a frame's content. -/
def decode (content : Bytes) : Except ReadErr Bytes :=
  match (unescape content).getLast? with
  | none => .error .emptyFrame
  | some cs =>
      let payload := (unescape content).dropLast
      if checksum payload ≠ cs then .error (.badChecksum cs (checksum payload)) else .ok payload

/-- `readFrame` on the unread bytes `inp`, after which a read fails with `fin`.
The bytes of a frame that is cut off are consumed. -/
def readFrame (fin : IoErr) (inp : Bytes) : Except ReadErr Bytes × Bytes :=
  match stuffing.next inp with
  | none => (.error (.io fin), [])
  | some (content, rest) => (decode content, rest)

/-- The outcomes of up to `n` calls of `readFrame`, up to the first whose read
fails. -/
def readFrames (fin : IoErr) : Nat → Bytes → List (Except ReadErr Bytes)
  | 0, _ => []
  | n + 1, inp =>
      match readFrame fin inp with
      | (.error (.io _), _) => []
      | (r, rest) => r :: readFrames fin n rest

/-- Everything `readFrame` gets out of a stream; each call consumes a byte. -/
def readAll (fin : IoErr) (inp : Bytes) : List (Except ReadErr Bytes) :=
  readFrames fin inp.length inp

/-! ## Round trip -/

theorem frame_eq (payload : Bytes) :
    frame payload =
      stuffing.delim :: (stuffing.escape (payload ++ [checksum payload]) ++ [stuffing.delim]) := by
  rw [stuffing.escape_append]
  rfl

theorem escape_checked_ne_nil (payload : Bytes) :
    stuffing.escape (payload ++ [checksum payload]) ≠ [] :=
  stuffing.escape_ne_nil (by simp)

/-- Unescaping goes through the border between payload and checksum. -/
theorem decode_escape (payload : Bytes) :
    decode (stuffing.escape (payload ++ [checksum payload])) = .ok payload := by
  have hun : unescape (stuffing.escape (payload ++ [checksum payload])) =
      payload ++ [checksum payload] := stuffing.unescape_escape _
  simp [decode, hun]

theorem next_frame (payload rest : Bytes) :
    stuffing.next (frame payload ++ rest) =
      some (stuffing.escape (payload ++ [checksum payload]), rest) := by
  rw [frame_eq, List.cons_append, List.append_assoc]
  exact stuffing.next_framed (stuffing.delim_not_mem_escape _) (escape_checked_ne_nil payload) rest

theorem readFrame_frame (fin : IoErr) (payload rest : Bytes) :
    readFrame fin (frame payload ++ rest) = (.ok payload, rest) := by
  rw [readFrame, next_frame]
  exact congrArg (·, rest) (decode_escape payload)

theorem contents_frame (payload rest : Bytes) :
    stuffing.contents (frame payload ++ rest) =
      stuffing.escape (payload ++ [checksum payload]) :: stuffing.contents rest :=
  (stuffing.contents_of_next (next_frame payload rest)).1

/-! ## Whole streams -/

/-- Decoding itself never looks like a failed read. -/
theorem decode_ne_io (content : Bytes) (e : IoErr) : decode content ≠ .error (.io e) := by
  unfold decode
  split
  · simp
  · dsimp only
    split <;> simp

/-- `readFrame` decodes the contents of the stream one by one. -/
theorem readFrames_eq (fin : IoErr) {n : Nat} {inp : Bytes} (h : inp.length ≤ n) :
    readFrames fin n inp = (stuffing.contents inp).map decode := by
  induction n generalizing inp with
  | zero =>
      obtain rfl := List.length_eq_zero_iff.mp (Nat.le_zero.mp h)
      rfl
  | succ n ih =>
      rw [readFrames, readFrame]
      cases hnext : stuffing.next inp with
      | none =>
          rw [stuffing.contents_of_next_none hnext]
          rfl
      | some r =>
          obtain ⟨content, rest⟩ := r
          obtain ⟨hcontents, hlen⟩ := stuffing.contents_of_next hnext
          rw [hcontents, List.map_cons, ← ih (by omega)]
          dsimp only
          split
          · rename_i e _ heq
            exact absurd (congrArg Prod.fst heq) (decode_ne_io content e)
          · rename_i heq
            obtain ⟨rfl, rfl⟩ := Prod.mk.inj heq
            rfl

theorem readAll_eq (fin : IoErr) (inp : Bytes) :
    readAll fin inp = (stuffing.contents inp).map decode :=
  readFrames_eq fin le_rfl

/-- A frame closes whatever stands before it, and is then read itself. -/
theorem readAll_append_frame (fin : IoErr) (g payload rest : Bytes) :
    readAll fin (g ++ (frame payload ++ rest)) =
      readAll fin (g ++ [frameChar]) ++ .ok payload :: readAll fin rest := by
  have hsync : stuffing.contents (g ++ (frame payload ++ rest)) =
      stuffing.contents (g ++ [frameChar]) ++ stuffing.contents (frame payload ++ rest) := by
    rw [frame_eq, List.cons_append, stuffing.contents_append, stuffing.contents_delim]
    rfl
  rw [readAll_eq, readAll_eq, readAll_eq, hsync, contents_frame, List.map_append, List.map_cons,
    decode_escape]

theorem readAll_flatMap_frame (fin : IoErr) (ps : List Bytes) :
    readAll fin (ps.flatMap frame) = ps.map .ok := by
  induction ps with
  | nil => rfl
  | cons p ps ih =>
      have h := readAll_append_frame fin [] p (ps.flatMap frame)
      rw [List.nil_append, List.nil_append] at h
      rw [List.flatMap_cons, h, ih]
      rfl

theorem flatMap_frame_injective {ps qs : List Bytes} (h : ps.flatMap frame = qs.flatMap frame) :
    ps = qs := by
  have hread := readAll_flatMap_frame .eof ps
  rw [h, readAll_flatMap_frame] at hread
  exact (List.map_injective_iff.mpr (fun _ _ => Except.ok.inj) hread).symm

/-- **Resynchronisation.** Behind arbitrary garbage, `readFrame` first returns
what it would return for the garbage closed by a delimiter, and then every
payload that was framed, in order and without an error. -/
theorem readAll_frames (fin : IoErr) (g p : Bytes) (ps : List Bytes) :
    readAll fin (g ++ (p :: ps).flatMap frame) =
        readAll fin (g ++ [frameChar]) ++ (p :: ps).map .ok ∧
      readAll fin ((p :: ps).flatMap frame) = (p :: ps).map .ok := by
  refine ⟨?_, readAll_flatMap_frame fin (p :: ps)⟩
  rw [List.flatMap_cons, readAll_append_frame, readAll_flatMap_frame]
  rfl

/-- A payload whose checksum is the delimiter, behind an unfinished frame. -/
example : readAll .eof ([0x7e, 0x01, 0x7d] ++ frame [0x7d, 0x04]) =
    [.error (.badChecksum 0x7d 0xfe), .ok [0x7d, 0x04]] := by decide

/-! ## Corruption

The bytes of an intact content add up to `0xff`, the checksum included. -/

theorem foldl_add_eq (l : Bytes) (a : UInt8) : l.foldl (· + ·) a = a + l.foldl (· + ·) 0 := by
  induction l generalizing a with
  | nil => exact (UInt8.add_zero a).symm
  | cons x l ih =>
      rw [List.foldl_cons, List.foldl_cons, ih (a + x), ih (0 + x), UInt8.zero_add, UInt8.add_assoc]

/-- One byte more or less shows in the sum, modulo 256. -/
theorem foldl_add_ne {x y : UInt8} (h : x ≠ y) (l r : Bytes) :
    (l ++ x :: r).foldl (· + ·) 0 ≠ (l ++ y :: r).foldl (· + ·) 0 := by
  rw [List.foldl_append, List.foldl_append, List.foldl_cons, List.foldl_cons, foldl_add_eq r,
    foldl_add_eq r (_ + y)]
  intro hsum
  exact h ((UInt8.add_right_inj _).mp ((UInt8.add_left_inj _).mp hsum))

theorem checksum_eq_iff (payload : Bytes) (cs : UInt8) :
    checksum payload = cs ↔ (payload ++ [cs]).foldl (· + ·) 0 = 0xff := by
  rw [checksum, List.foldl_append, List.foldl_cons, List.foldl_nil]
  constructor
  · rintro rfl
    rw [UInt8.add_comm, UInt8.sub_add_cancel]
  · intro h
    rw [← h, UInt8.add_comm, UInt8.add_sub_cancel]

/-- A content with any other sum is refused for its checksum. -/
theorem decode_of_sum_ne {content : Bytes} (hne : unescape content ≠ [])
    (hsum : (unescape content).foldl (· + ·) 0 ≠ 0xff) :
    ∃ got want, got ≠ want ∧ decode content = .error (.badChecksum got want) := by
  have hlast := List.getLast?_eq_some_getLast hne
  have hcs : checksum (unescape content).dropLast ≠ (unescape content).getLast hne := by
    rw [Ne, checksum_eq_iff, List.dropLast_append_getLast]
    exact hsum
  refine ⟨_, _, hcs.symm, ?_⟩
  rw [decode, hlast]
  exact if_pos hcs

/-- **Isolated corruption is detected.** A byte of a frame that is replaced by another,
neither of them a delimiter or an escape byte, makes `readFrame` report the checksum,
be it a byte of the payload, the second of an escape pair, or the checksum itself. The
frame is consumed and nothing behind it. -/
theorem readFrame_altered (fin : IoErr) (payload rest : Bytes) {i : Nat} {old new : UInt8}
    (hat : (frame payload)[i]? = some old) (hne : old ≠ new)
    (hold : old ≠ frameChar ∧ old ≠ escChar) (hnew : new ≠ frameChar ∧ new ≠ escChar) :
    ∃ got want, got ≠ want ∧
      readFrame fin ((frame payload).set i new ++ rest) = (.error (.badChecksum got want), rest) := by
  obtain ⟨content, hcontent⟩ : ∃ s, s = stuffing.escape (payload ++ [checksum payload]) := ⟨_, rfl⟩
  rw [frame_eq, ← hcontent] at hat ⊢
  -- neither delimiter is the byte that is replaced
  obtain ⟨j, rfl, hj⟩ : ∃ j, i = j + 1 ∧ content[j]? = some old := by
    cases i with
    | zero => exact absurd (Option.some.inj hat).symm hold.1
    | succ j =>
        rw [List.getElem?_cons_succ, List.getElem?_append] at hat
        split at hat
        · exact ⟨j, rfl, hat⟩
        · exact absurd (List.mem_singleton.mp (List.mem_of_getElem? hat)) hold.1
  obtain ⟨l, x, y, r, hxy, hbefore, hafter⟩ := stuffing.unescape_set hj hne hold.2 hnew.2
  have hdelim : stuffing.delim ∉ content.set j new := by
    intro hmem
    rcases List.mem_or_eq_of_mem_set hmem with hmem | heq
    · exact stuffing.delim_not_mem_escape _ (hcontent ▸ hmem)
    · exact hnew.1 heq.symm
  have hjlt : j < content.length := (List.getElem?_eq_some_iff.mp hj).1
  have hnil : content.set j new ≠ [] := by
    intro h
    rw [List.set_eq_nil_iff] at h
    rw [h] at hjlt
    exact absurd hjlt (Nat.not_lt_zero j)
  have hframe : (stuffing.delim :: (content ++ [stuffing.delim])).set (j + 1) new ++ rest =
      stuffing.delim :: (content.set j new ++ stuffing.delim :: rest) := by
    rw [List.set_cons_succ, List.set_append_left _ _ hjlt, List.cons_append, List.append_assoc]
    rfl
  have hintact : (l ++ x :: r).foldl (· + ·) 0 = 0xff := by
    rw [← hbefore, hcontent, stuffing.unescape_escape]
    exact (checksum_eq_iff payload _).mp rfl
  have hsome : unescape (content.set j new) ≠ [] := by
    rw [unescape, hafter]
    simp
  have hsum : (unescape (content.set j new)).foldl (· + ·) 0 ≠ 0xff := by
    rw [unescape, hafter, ← hintact]
    exact (foldl_add_ne hxy l r).symm
  obtain ⟨got, want, hgot, hdecode⟩ := decode_of_sum_ne hsome hsum
  refine ⟨got, want, hgot, ?_⟩
  rw [hframe, readFrame, stuffing.next_framed hdelim hnil]
  exact congrArg (·, rest) hdecode

/-- The escaped checksum of `7d 04` is hit: its second byte turns into another. -/
theorem readFrame_altered_checksum :
    (frame [0x7d, 0x04])[5]? = some 0x5e ∧
      ∃ got want, got ≠ want ∧ readFrame .eof ((frame [0x7d, 0x04]).set 5 0x41 ++ [0x7e]) =
        (.error (.badChecksum got want), [0x7e]) := by
  have hat : (frame [0x7d, 0x04])[5]? = some 0x5e := by decide
  exact ⟨hat, readFrame_altered .eof [0x7d, 0x04] [0x7e] hat (by decide) (by decide) (by decide)⟩

end QconnMcp.Qnxdbg
