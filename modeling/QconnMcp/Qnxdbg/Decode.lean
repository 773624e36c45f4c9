import QconnMcp.Qnxdbg.Protocol

/-!
# Scanning captured traffic

`FrameScanner` of `internal/qnxdbg/decode.go`, which `dsmsg-proxy` feeds with
whatever a read on the connection returned. Between two calls of `Feed` the buffer
is the unfinished frame at the end of the stream: delimiters in front of it are
dropped, the one that closes a frame is kept as the opener of the next. So the
cuts between the chunks do not show (`feedEach_eq_feed`). The checksum of a frame
does not show either: it is stripped and not compared (`feedEach_eq_readAll_iff`).
-/

namespace QconnMcp.Qnxdbg

open Kit

/-! ## The scanner -/

/-- The loop of `Feed`, for at most `fuel` frames: the payloads, the raw frames
and the buffer that is left. -/
def feedLoop : Nat → Bytes → (List Bytes × List Bytes) × Bytes
  | 0, buf => (([], []), buf)
  | fuel + 1, buf =>
      -- skip leading delimiters
      let buf := buf.dropWhile (· == frameChar)
      if buf = [] then (([], []), [])
      else
        match cut frameChar buf with
        | none => (([], []), buf)
        | some (content, rest) =>
            let raw := frameChar :: (content ++ [frameChar])
            let dec := unescape content
            -- the closing delimiter is kept as the next start
            let r := feedLoop fuel (frameChar :: rest)
            if 1 ≤ dec.length then ((dec.dropLast :: r.1.1, raw :: r.1.2), r.2) else r

/-- The payload and the raw bytes that are returned for a content. -/
def scanned (content : Bytes) : Bytes × Bytes :=
  ((unescape content).dropLast, frameChar :: (content ++ [frameChar]))

theorem unescape_ne_nil {content : Bytes} (h : content ≠ []) : unescape content ≠ [] := by
  match content, h with
  | [x], _ => simp [unescape, Stuffing.unescape]
  | x :: y :: rest, _ =>
      simp only [unescape, Stuffing.unescape]
      split <;> simp

/-- The loop returns all contents of the buffer and keeps what no delimiter
closes. -/
theorem feedLoop_eq {fuel : Nat} {buf : Bytes} (h : buf.length < fuel) :
    feedLoop fuel buf =
      (((stuffing.contents buf).map fun x => (scanned x).1,
        (stuffing.contents buf).map fun x => (scanned x).2), stuffing.unclosed buf) := by
  induction fuel generalizing buf with
  | zero => omega
  | succ fuel ih =>
      rw [feedLoop]
      have hkeep : stuffing.unclosed (buf.dropWhile (· == frameChar)) = stuffing.unclosed buf :=
        stuffing.unclosed_dropWhile buf
      cases hnext : stuffing.next buf with
      | none =>
          have hcut : cut frameChar (buf.dropWhile (· == frameChar)) = none := hnext
          have hopen : stuffing.unclosed buf = buf.dropWhile (· == frameChar) := by
            rw [← hkeep]
            exact stuffing.openFrom_of_not_mem (cut_none hcut) []
          rw [stuffing.contents_of_next_none hnext, hopen]
          by_cases hempty : buf.dropWhile (· == frameChar) = []
          · rw [if_pos hempty, hempty]
            rfl
          · rw [if_neg hempty, hcut]
            rfl
      | some r =>
          obtain ⟨content, rest⟩ := r
          have hcut : cut frameChar (buf.dropWhile (· == frameChar)) = some (content, rest) := hnext
          obtain ⟨hcontents, -⟩ := stuffing.contents_of_next hnext
          obtain ⟨hbody, hbuf⟩ := cut_some hcut
          have hcontent : content ≠ [] := stuffing.next_ne_nil hnext
          -- the next round starts at the delimiter, with at least one byte less
          have hlen : (frameChar :: rest).length < fuel := by
            have hle := (List.dropWhile_sublist (l := buf) (· == frameChar)).length_le
            have hpos := List.length_pos_iff.mpr hcontent
            rw [hbuf, List.length_append] at hle
            omega
          have hunclosed : stuffing.unclosed buf = stuffing.unclosed (frameChar :: rest) :=
            (stuffing.unclosed_of_next hnext).trans (stuffing.unclosed_delim rest).symm
          have hne : buf.dropWhile (· == frameChar) ≠ [] := by
            rw [hbuf]
            simp
          have hdec : 1 ≤ (unescape content).length :=
            List.length_pos_iff.mpr (unescape_ne_nil hcontent)
          rw [if_neg hne, hcut, hcontents, hunclosed]
          simp only [if_pos hdec, ih hlen, List.map_cons]
          rw [show stuffing.contents (frameChar :: rest) = stuffing.contents rest from
            stuffing.contents_delim rest]
          rfl

/-- A scanner keeps no delimiter in its buffer. -/
structure FrameScanner where
  buf : Bytes
  unclosed : frameChar ∉ buf

namespace FrameScanner

/-- `var sc FrameScanner`. -/
def zero : FrameScanner := ⟨[], List.not_mem_nil⟩

theorem frameChar_not_mem_feedLoop (buf : Bytes) :
    frameChar ∉ (feedLoop (buf.length + 1) buf).2 := by
  rw [feedLoop_eq (Nat.lt_succ_self _)]
  exact stuffing.delim_not_mem_unclosed buf

/-- `Feed`: the payloads, and the raw frames they came in. -/
def feed (data : Bytes) : StateM FrameScanner (List Bytes × List Bytes) := fun s =>
  let buf := s.buf ++ data
  ((feedLoop (buf.length + 1) buf).1, ⟨_, frameChar_not_mem_feedLoop buf⟩)

/-- The reads of `pump`, one `Feed` for each chunk: the payloads with their raw
frames, in the order in which they are logged. -/
def feedEach : List Bytes → StateM FrameScanner (List (Bytes × Bytes))
  | [] => pure []
  | chunk :: chunks => do
      let r ← feed chunk
      let rs ← feedEach chunks
      pure (r.1.zip r.2 ++ rs)

@[ext]
theorem ext {s t : FrameScanner} (h : s.buf = t.buf) : s = t := by
  cases s
  cases t
  simp_all

/-! ## Chunks -/

theorem feed_eq (s : FrameScanner) (data : Bytes) :
    ((feed data).run s).1 =
        ((stuffing.contents (s.buf ++ data)).map fun x => (scanned x).1,
          (stuffing.contents (s.buf ++ data)).map fun x => (scanned x).2) ∧
      ((feed data).run s).2.buf = stuffing.unclosed (s.buf ++ data) := by
  have h := feedLoop_eq (Nat.lt_succ_self (s.buf ++ data).length)
  exact ⟨congrArg Prod.fst h, congrArg Prod.snd h⟩

theorem feed_pairs (s : FrameScanner) (data : Bytes) :
    ((feed data).run s).1.1.zip ((feed data).run s).1.2 =
      (stuffing.contents (s.buf ++ data)).map scanned := by
  rw [(feed_eq s data).1, List.zip_map']

theorem feedEach_cons (s : FrameScanner) (chunk : Bytes) (chunks : List Bytes) :
    (feedEach (chunk :: chunks)).run s =
      (((feed chunk).run s).1.1.zip ((feed chunk).run s).1.2 ++
          ((feedEach chunks).run ((feed chunk).run s).2).1,
        ((feedEach chunks).run ((feed chunk).run s).2).2) := rfl

/-- What successive chunks give, told by the stream as a whole. -/
theorem feedEach_eq (s : FrameScanner) (chunks : List Bytes) :
    ((feedEach chunks).run s).1 = (stuffing.contents (s.buf ++ chunks.flatten)).map scanned ∧
      ((feedEach chunks).run s).2.buf = stuffing.unclosed (s.buf ++ chunks.flatten) := by
  induction chunks generalizing s with
  | nil =>
      have hnone : stuffing.contents s.buf = [] := stuffing.contentsFrom_open s.unclosed []
      rw [List.flatten_nil, List.append_nil, hnone]
      exact ⟨rfl, (stuffing.openFrom_of_not_mem s.unclosed []).symm⟩
  | cons chunk chunks ih =>
      obtain ⟨hpairs, hbuf⟩ := ih ((feed chunk).run s).2
      rw [(feed_eq s chunk).2] at hpairs hbuf
      rw [feedEach_cons, List.flatten_cons, ← List.append_assoc,
        stuffing.contents_append_unclosed (s.buf ++ chunk),
        stuffing.unclosed_append (s.buf ++ chunk), List.map_append]
      refine ⟨?_, hbuf⟩
      rw [hpairs, feed_pairs]

/-- **The cuts do not show.** However a stream is cut into chunks, the pairs of a
payload and its raw frame that successive calls return, and the buffer at the end,
are those of one call on the whole stream, which returns a raw frame for each
payload. -/
theorem feedEach_eq_feed (s : FrameScanner) (chunks : List Bytes) :
    (feedEach chunks).run s =
        (((feed chunks.flatten).run s).1.1.zip ((feed chunks.flatten).run s).1.2,
          ((feed chunks.flatten).run s).2) ∧
      ((feed chunks.flatten).run s).1.1.length = ((feed chunks.flatten).run s).1.2.length := by
  obtain ⟨hpairs, hbuf⟩ := feedEach_eq s chunks
  refine ⟨Prod.ext ?_ (FrameScanner.ext ?_), ?_⟩
  · rw [hpairs, feed_pairs]
  · rw [hbuf, (feed_eq s chunks.flatten).2]
  · rw [(feed_eq s chunks.flatten).1, List.length_map, List.length_map]

/-- A cut inside an escape pair, and an empty chunk. -/
example : ((feedEach [[0x7e, 0x01, 0x7d], [], [0x5e, 0x9f, 0x7e, 0x02]]).run zero).1 =
    [([0x01, 0x7e], [0x7e, 0x01, 0x7d, 0x5e, 0x9f, 0x7e])] := by decide

/-! ## Checksums -/

/-- The last byte of a content is the checksum of the others. -/
def Checked (content : Bytes) : Prop :=
  (unescape content).getLast? = some (checksum (unescape content).dropLast)

theorem toOption_decode (content : Bytes) :
    (Checked content → (decode content).toOption = some (scanned content).1) ∧
      (¬ Checked content → (decode content).toOption = none) := by
  rw [Checked, decode]
  cases (unescape content).getLast? with
  | none => simp [Except.toOption]
  | some cs =>
      by_cases hcs : checksum (unescape content).dropLast = cs
      · simp [hcs, scanned, Except.toOption]
      · simp [hcs, Ne.symm hcs, Except.toOption]

/-- Where the reader drops nothing the scanner's payloads are its own, and a dropped
one is missed by their number. -/
theorem map_scanned_eq_iff (contents : List Bytes) :
    contents.map (fun x => (scanned x).1) =
        (contents.map decode).filterMap Except.toOption ↔
      ∀ content ∈ contents, Checked content := by
  rw [List.filterMap_map]
  constructor
  · intro h content hmem
    have hlen : (contents.filterMap (Except.toOption ∘ decode)).length = contents.length := by
      rw [← h, List.length_map]
    have hsome := List.filterMap_length_eq_length.mp hlen content hmem
    by_contra hcs
    rw [Function.comp_apply, (toOption_decode content).2 hcs] at hsome
    cases hsome
  · intro h
    rw [← List.filterMap_eq_map, List.filterMap_congr]
    intro content hmem
    rw [Function.comp_apply, Function.comp_apply, (toOption_decode content).1 (h content hmem)]

theorem readAll_unchecked (fin : IoErr) {inp content : Bytes} {i : Nat}
    (hi : (stuffing.contents inp)[i]? = some content) (hcs : ¬ Checked content) :
    ∃ e, (readAll fin inp)[i]? = some (.error e) := by
  have hdecode := (toOption_decode content).2 hcs
  rw [readAll_eq, List.getElem?_map, hi]
  cases hr : decode content with
  | error e => exact ⟨e, congrArg some hr⟩
  | ok payload =>
      rw [hr] at hdecode
      cases hdecode

/-- The scanner strips the checksum and does not look at it. It returns what
`readFrame` returns on exactly the streams whose frames are all intact, and on
these alone it returns no frame with a wrong checksum, which `readFrame` never does. -/
theorem feedEach_eq_readAll_iff (fin : IoErr) (chunks : List Bytes) :
    (((feedEach chunks).run zero).1.map Prod.fst =
          (readAll fin chunks.flatten).filterMap Except.toOption ↔
        ∀ content ∈ stuffing.contents chunks.flatten, Checked content) ∧
      ((∀ content ∈ stuffing.contents chunks.flatten, ¬ Checked content →
          scanned content ∉ ((feedEach chunks).run zero).1) ↔
        ∀ content ∈ stuffing.contents chunks.flatten, Checked content) ∧
      ∀ (i : Nat) (content : Bytes), (stuffing.contents chunks.flatten)[i]? = some content →
        ¬ Checked content → ∃ e, (readAll fin chunks.flatten)[i]? = some (.error e) := by
  have hpairs : ((feedEach chunks).run zero).1 = (stuffing.contents chunks.flatten).map scanned :=
    (feedEach_eq zero chunks).1
  refine ⟨?_, ?_, fun i content hi hcs => readAll_unchecked fin hi hcs⟩
  · rw [hpairs, readAll_eq, List.map_map]
    exact map_scanned_eq_iff _
  · rw [hpairs]
    constructor
    · intro h content hmem
      by_contra hcs
      exact h content hmem hcs (List.mem_map_of_mem hmem)
    · intro h content hmem hcs
      exact absurd (h content hmem) hcs

/-- A frame with a wrong checksum is returned by the scanner and refused by
`readFrame`. -/
theorem feedEach_unchecked :
    ((feedEach [[0x7e, 0x01, 0x02, 0x7e]]).run zero).1 = [([0x01], [0x7e, 0x01, 0x02, 0x7e])] ∧
      readAll .eof [0x7e, 0x01, 0x02, 0x7e] = [.error (.badChecksum 0x02 0xfe)] := by
  decide

end FrameScanner

end QconnMcp.Qnxdbg
