import QconnMcp.Kit.Utf8
import QconnMcp.Qconn.File

/-!
# Reading a file through the tool server

`qconn_read_file` of `internal/mcpserver/tools_files.go`. The result carries the
content in base64, and as text too when `isPrintable` finds no control byte in it.
Text travels in a JSON string, and a JSON string is made of characters. `isPrintable`
looks at single bytes only and lets every byte from 0x80 on pass, so the text is the
file again only where these bytes form runes (`text_carried_iff`).
-/

namespace QconnMcp.Tools

open Kit Qconn

/-! ## The handler -/

/-- The base64 alphabet. -/
def base64Digit (n : Nat) : UInt8 :=
  if n < 26 then UInt8.ofNat (65 + n)
  else if n < 52 then UInt8.ofNat (97 + (n - 26))
  else if n < 62 then UInt8.ofNat (48 + (n - 52))
  else if n = 62 then 43
  else 47

/-- `base64.StdEncoding.EncodeToString`. -/
def encodeToString : Bytes → Bytes
  | a :: b :: c :: rest =>
      base64Digit (a.toNat / 4) :: base64Digit (a.toNat % 4 * 16 + b.toNat / 16) ::
        base64Digit (b.toNat % 16 * 4 + c.toNat / 64) :: base64Digit (c.toNat % 64) ::
        encodeToString rest
  | [a, b] =>
      [base64Digit (a.toNat / 4), base64Digit (a.toNat % 4 * 16 + b.toNat / 16),
        base64Digit (b.toNat % 16 * 4), 61]
  | [a] => [base64Digit (a.toNat / 4), base64Digit (a.toNat % 4 * 16), 61, 61]
  | [] => []

/-- `isPrintable`. -/
def isPrintable (b : Bytes) : Bool :=
  if b.length > 2 ^ 20 then false
  else b.all fun c => !(c == 0) && !(decide (c < 0x09) || (decide (c > 0x0d) && decide (c < 0x20)))

/-- `readFileOut`; an empty text is left out of the document. -/
structure ReadFileOut where
  path : Bytes
  size : Nat
  base64 : Bytes
  text : Bytes
  deriving DecidableEq, Repr

/-- The result for a file with this content. -/
def readFileOut (path b : Bytes) : ReadFileOut where
  path := path
  size := b.length
  base64 := encodeToString b
  text := if isPrintable b then b else []

/-- The handler of `qconn_read_file`. -/
def readFile {σ : Type} (P : Peer σ) (fuel : Nat) (path : Bytes) :
    Qconn.Act σ (Option (Except Err ReadFileOut)) := do
  match ← Client.readFile P fuel path with
  | none => pure none
  | some (_, some e) => pure (some (.error e))
  | some (b, none) => pure (some (.ok (readFileOut path b)))

/-! ## The text -/

/-- A control byte that keeps a file from being printable. -/
def IsControl (c : UInt8) : Prop := c < 0x09 ∨ 0x0d < c ∧ c < 0x20

instance (c : UInt8) : Decidable (IsControl c) := inferInstanceAs (Decidable (_ ∨ _))

theorem isPrintable_iff {b : Bytes} :
    isPrintable b = true ↔ b.length ≤ 2 ^ 20 ∧ ∀ c ∈ b, ¬ IsControl c := by
  have hbyte : ∀ c : UInt8,
      (!(c == 0) && !(decide (c < 0x09) || (decide (c > 0x0d) && decide (c < 0x20)))) = true ↔
        ¬ IsControl c := by
    intro c
    -- NUL is below 0x09 anyway
    have hnul : ¬ IsControl c → c ≠ 0 := by
      rintro h rfl
      exact h (.inl (by decide))
    simp only [Bool.and_eq_true, Bool.not_eq_true', beq_eq_false_iff_ne, Bool.or_eq_false_iff,
      Bool.and_eq_false_iff, decide_eq_false_iff_not]
    rw [IsControl, not_or, not_and_or]
    exact ⟨fun h => h.2, fun h => ⟨hnul (by rwa [IsControl, not_or, not_and_or]), h⟩⟩
  rw [isPrintable]
  split_ifs with hlen
  · exact iff_of_false id fun h => Nat.not_le_of_gt hlen h.1
  · simp only [List.all_eq_true, hbyte]
    exact (and_iff_right (Nat.le_of_not_gt hlen)).symm

/-- The text of a printable file carries the content through JSON, for valid content and
no other. -/
theorem encode_text_iff {path b : Bytes} (h : isPrintable b = true) :
    encode (chars (readFileOut path b).text) = b ↔ WellFormed b := by
  rw [readFileOut, if_pos h, encode_chars_iff, validUtf8_iff_wellFormed]

/-- Whenever text is set, the content is valid UTF-8 and the text carried in the JSON
result encodes to it again, if and only if the content is too large for text, has a
control byte in it, or has each of its bytes in a rune. -/
theorem text_carried_iff (path b : Bytes) :
    (isPrintable b = true →
      ValidUtf8 b ∧ encode (chars (readFileOut path b).text) = b) ↔
      2 ^ 20 < b.length ∨ (∃ c ∈ b, IsControl c) ∨ WellFormed b := by
  by_cases h : isPrintable b = true
  · obtain ⟨hlen, hbytes⟩ := isPrintable_iff.mp h
    have hcontrol : ¬ ∃ c ∈ b, IsControl c := by
      rintro ⟨c, hc, hcontrol⟩
      exact hbytes c hc hcontrol
    rw [encode_text_iff h, validUtf8_iff_wellFormed, and_self, or_iff_right (Nat.not_lt.mpr hlen),
      or_iff_right hcontrol]
    exact ⟨fun himp => himp h, fun hvalid _ => hvalid⟩
  · refine iff_of_true (fun hprint => absurd hprint h) ?_
    rw [isPrintable_iff, Classical.not_and_iff_not_or_not] at h
    rcases h with hlen | hbytes
    · exact .inl (Nat.lt_of_not_le hlen)
    · push Not at hbytes
      exact .inr (.inl hbytes)

/-- The one byte 0x80 is printable, and the client of the tool server gets the
replacement character for it. -/
theorem text_not_carried :
    isPrintable [0x80] = true ∧ ¬ ValidUtf8 [0x80] ∧
      encode (chars (readFileOut (ascii "/f") [0x80]).text) = [0xEF, 0xBF, 0xBD] := by
  refine ⟨by decide, ?_, by decide +kernel⟩
  rw [validUtf8_iff_wellFormed]
  decide +kernel

end QconnMcp.Tools
