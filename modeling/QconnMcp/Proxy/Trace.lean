import QconnMcp.Proxy.Relay
import QconnMcp.Qconn.Framing
import QconnMcp.Qnxdbg.Decode
import QconnMcp.Qnxdbg.Annotation

/-!
# What the proxies log

`qconn-proxy` logs a line for each chunk it forwards, `dsmsg-proxy` one for each frame
it finds in the stream. Both are tracers of the relay. The lines of `qconn-proxy` tell
the chunks one by one, and chunks of up to 512 bytes, of which the hex dump is complete,
can be read back from them (`proxy_log`). Those of `dsmsg-proxy` do not depend on how
the chunks fall or the two directions interleave; where the stream consists of frames as
`writeFrame` builds them, the payloads can be read back (`dsmsg_log`).
-/

namespace QconnMcp.Proxy

open Kit
open Qconn (isReSpace)

/-! ## `qconn-proxy` -/

/-- `\w`. -/
def isReWord (b : UInt8) : Bool :=
  (48 ≤ b && b ≤ 57) || (65 ≤ b && b ≤ 90) || (97 ≤ b && b ≤ 122) || b == 95

/-- The alternatives of `annotRe`, and whether they only match at the start. -/
def annotRe : List (Bool × Pattern) :=
  [(false, [lit "service", skip (.run 1 isReSpace), group (.run 1 isReWord)]),
    (false, [lit "<qconn-", group (.run 1 isReWord), lit ">"]),
    (false, [lit "start/flags"]),
    (true, [lit "o:"]),
    (false, [lit "kill", skip (.one isReSpace)]),
    (false, [lit "versions"])]

/-- `FindAllString`: matches from left to right that do not overlap. -/
def findAll : Nat → Bool → Bytes → List Bytes
  | 0, _, _ => []
  | fuel + 1, start, s =>
      let found := annotRe.findSome? fun alt =>
        if alt.1 && !start then none else (alt.2.exec s).map fun r => s.length - r.2.length
      match found, s with
      | some n, s => s.take n :: findAll fuel false (s.drop n)
      | none, [] => []
      | none, _ :: s => findAll fuel false s

def annotate (b : Bytes) : Bytes :=
  (ascii ",").intercalate ((findAll (b.length + 1) true b).map trimSpace)

def asciiDump (b : Bytes) : Bytes := b.map fun c => if 0x20 ≤ c ∧ c < 0x7f then c else 46

def hexDump (b : Bytes) : Bytes :=
  (ascii " ").intercalate ((b.take 512).map fun c => Qnxdbg.hexBytes [c]) ++
    if 512 < b.length then ascii " ..." else []

/-- What `log` says about a chunk, beside the direction. -/
structure Line where
  len : Nat
  annot : Bytes
  ascii : Bytes
  hex : Bytes
  deriving DecidableEq, Repr

def Line.of (b : Bytes) : Line := ⟨b.length, annotate b, asciiDump b, hexDump b⟩

theorem bufSize_pos : 0 < 16 * 1024 := by decide

theorem length_line_le (_ : Unit) (chunk : Bytes) (hne : chunk ≠ []) :
    [Line.of chunk].length ≤ chunk.length :=
  List.length_pos_iff.mpr hne

/-- `Proxy.pump`. -/
def proxyTracer : Tracer Unit Line where
  bufSize := 16 * 1024
  bufSize_pos := bufSize_pos
  start := ()
  feed _ chunk := ([.of chunk], ())
  lines_le := length_line_le

theorem traced_proxyTracer (chunks : List Bytes) :
    (proxyTracer.traced chunks).1 = chunks.map Line.of := by
  induction chunks using List.reverseRecOn with
  | nil => rfl
  | append_singleton chunks chunk ih =>
      rw [proxyTracer.traced_concat, ih, List.map_append]
      rfl

/-- Without the blanks, the hex dump is the plain one. -/
theorem filter_hexDump {b : Bytes} (h : b.length ≤ 512) :
    (hexDump b).filter (· ≠ 32) = Qnxdbg.hexBytes b := by
  have hdigits : ∀ x : Bytes, (Qnxdbg.hexBytes x).filter (· ≠ 32) = Qnxdbg.hexBytes x := by
    intro x
    rw [List.filter_eq_self]
    intro y hy
    rw [decide_eq_true_iff]
    rintro rfl
    exact Qnxdbg.not_mem_hexBytes (by decide) x hy
  rw [hexDump, if_neg (by omega), List.append_nil, List.take_of_length_le h]
  clear h
  induction b with
  | nil => rfl
  | cons x b ih =>
      cases b with
      | nil => exact hdigits [x]
      | cons y b =>
          have hsplit : (ascii " ").intercalate ((x :: y :: b).map fun c => Qnxdbg.hexBytes [c]) =
              Qnxdbg.hexBytes [x] ++ 32 ::
                (ascii " ").intercalate ((y :: b).map fun c => Qnxdbg.hexBytes [c]) := rfl
          rw [hsplit, List.filter_append, List.filter_cons_of_neg (by decide), hdigits, ih]
          rfl

theorem Line.of_inj {b c : Bytes} (hb : b.length ≤ 512) (h : Line.of c = Line.of b) : c = b := by
  have hlen : c.length = b.length := congrArg Line.len h
  have hhex : hexDump c = hexDump b := congrArg Line.hex h
  apply Qnxdbg.hexBytes_inj
  rw [← filter_hexDump hb, ← hhex, filter_hexDump (hlen.trans_le hb)]

namespace Dsmsg

open Qnxdbg

/-- `HexDump`. -/
def hexDump (b : Bytes) : Bytes :=
  if 256 < b.length then hexBytes (b.take 256) ++ ascii "..." else hexBytes b

/-- The line for a payload and its raw frame, beside the time and the direction. -/
def entry (r : Bytes × Bytes) : Bytes :=
  Qnxdbg.annotate r.1 ++ ascii " | raw=" ++ hexDump r.2

/-- One round of the scanner. -/
def feed (sc : FrameScanner) (chunk : Bytes) : List Bytes × FrameScanner :=
  let r := (FrameScanner.feed chunk).run sc
  ((r.1.1.zip r.1.2).map entry, r.2)

theorem feed_fst (sc : FrameScanner) (chunk : Bytes) :
    (feed sc chunk).1 =
      (stuffing.contents (sc.buf ++ chunk)).map fun x => entry (scanned x) := by
  rw [feed, FrameScanner.feed_pairs, List.map_map]
  rfl

/-- A frame is complete with its closing delimiter. -/
theorem length_contentsFrom_le (acc s : Bytes) :
    (stuffing.contentsFrom acc s).length ≤ s.count stuffing.delim := by
  induction s generalizing acc with
  | nil => exact Nat.zero_le _
  | cons x s ih =>
      rw [Stuffing.contentsFrom]
      by_cases hx : x = stuffing.delim
      · have h := ih []
        rw [if_pos hx, hx, List.count_cons_self]
        split
        · omega
        · rw [List.length_cons]
          omega
      · rw [if_neg hx, List.count_cons_of_ne hx]
        exact ih _

theorem length_feed_le (sc : FrameScanner) (chunk : Bytes) :
    (feed sc chunk).1.length ≤ chunk.length := by
  have hcount := length_contentsFrom_le [] (sc.buf ++ chunk)
  have hbuf : sc.buf.count stuffing.delim = 0 := List.count_eq_zero_of_not_mem sc.unclosed
  rw [List.count_append, hbuf, Nat.zero_add] at hcount
  rw [feed_fst, List.length_map]
  exact hcount.trans List.count_le_length

/-- `pump`. -/
def tracer : Tracer FrameScanner Bytes where
  bufSize := 32 * 1024
  bufSize_pos := by decide
  start := .zero
  feed := feed
  lines_le sc chunk _ := length_feed_le sc chunk

/-- The cuts between the chunks do not show in the lines. -/
theorem traced_eq (chunks : List Bytes) :
    (tracer.traced chunks).1 =
        (stuffing.contents chunks.flatten).map (fun x => entry (scanned x)) ∧
      (tracer.traced chunks).2.buf = stuffing.unclosed chunks.flatten := by
  induction chunks using List.reverseRecOn with
  | nil => exact ⟨rfl, rfl⟩
  | append_singleton chunks chunk ih =>
      obtain ⟨hlines, hbuf⟩ := ih
      have hflat : (chunks ++ [chunk]).flatten = chunks.flatten ++ chunk := by simp
      rw [tracer.traced_concat, hflat, stuffing.contents_append_unclosed, stuffing.unclosed_append,
        ← hbuf, List.map_append, ← hlines]
      exact ⟨congrArg _ (feed_fst _ chunk), (FrameScanner.feed_eq _ chunk).2⟩

/-- The line of a frame as it is built by `writeFrame`. -/
def logLine (p : Bytes) : Bytes := entry (p, frame p)

theorem scanned_escape (p : Bytes) :
    scanned (stuffing.escape (p ++ [Qnxdbg.checksum p])) = (p, frame p) := by
  have hun : unescape (stuffing.escape (p ++ [Qnxdbg.checksum p])) = p ++ [Qnxdbg.checksum p] :=
    stuffing.unescape_escape _
  rw [scanned, hun, frame_eq]
  simp [stuffing]

theorem contents_frames (ps : List Bytes) :
    (stuffing.contents (ps.flatMap frame)).map (fun x => entry (scanned x)) = ps.map logLine := by
  induction ps with
  | nil => rfl
  | cons p ps ih =>
      rw [List.flatMap_cons, contents_frame, List.map_cons, ih, scanned_escape, List.map_cons]
      rfl

theorem not_mem_hexDump (b : Bytes) : 124 ∉ hexDump b := by
  have hhex : ∀ x, 124 ∉ hexBytes x := not_mem_hexBytes (by decide)
  rw [hexDump]
  split
  · rw [List.mem_append]
    exact fun h => h.elim (hhex _) (by decide)
  · exact hhex b

/-- The annotation is what stands before the last bar. -/
theorem logLine_injective : Function.Injective logLine := by
  intro p q h
  have hbar : ascii " | raw=" = ascii " " ++ 124 :: ascii " raw=" := rfl
  have hlabel : 124 ∉ ascii " raw=" := by decide
  have htail : ∀ b, 124 ∉ ascii " raw=" ++ hexDump b := by
    intro b hmem
    exact (List.mem_append.mp hmem).elim hlabel (not_mem_hexDump b)
  simp only [logLine, entry, hbar, List.append_assoc, List.cons_append] at h
  rw [← List.append_assoc, ← List.append_assoc] at h
  have hlead := (append_sep_inj_right (htail _) (htail _) h).1
  exact annotate_inj (List.append_cancel_right hlead)

/-- A frame in two chunks, and the beginning of another. -/
def splitFrame : List Event :=
  [.dial true, .arrive .client (frame [1, 0, 5, 1] ++ frame [2]), .read .client 3 false,
    .write .client 3, .read .client 6 false, .write .client 0, .log .client]

end Dsmsg

end QconnMcp.Proxy
