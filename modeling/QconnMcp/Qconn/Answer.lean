import QconnMcp.Qconn.Exchange

/-!
# Answers of the file service

The two kinds of answer that carry numbers, as the client reads them: the handle
behind an open command and the count at the head of a status line. Numbers are
printed in hexadecimal.
-/

namespace QconnMcp.Qconn

open Kit

/-! ## Hexadecimal fields -/

theorem fmtNat_hex {n : Nat} : ∀ b ∈ fmtNat 16 n, isHexDigit b = true :=
  forall_mem_fmtNat (by decide) (by decide)

theorem not_mem_fmtNat {b : UInt8} (hb : isHexDigit b = false) (n : Nat) : b ∉ fmtNat 16 n := by
  intro h
  rw [fmtNat_hex b h] at hb
  exact absurd hb (by decide)

theorem fmtNat_pos (n : Nat) : 1 ≤ (fmtNat 16 n).length :=
  List.length_pos_iff.mpr (fmtNat_ne_nil 16 n)

/-- A hexadecimal field in front of a separator. -/
theorem exec_hex_field {p : UInt8 → Bool} (hp : ∀ b, isHexDigit b = true → p b = true)
    {w : String} (hw : (ascii w).head?.any (!p ·) = true) {n : Nat}
    {s : Bytes} {pat : Pattern} {r : List Bytes × Bytes} (hr : pat.exec s = some r) :
    Pattern.exec (group (.run 1 p) :: lit w :: pat) (fmtNat 16 n ++ (ascii w ++ s)) =
      some (fmtNat 16 n :: r.1, r.2) :=
  Pattern.exec_run_lit true (fun b hb => hp b (fmtNat_hex b hb)) (fmtNat_pos n) hw hr

/-! ## Handles -/

/-- The quoted path of an answer runs up to the last quote of the line. -/
theorem exec_quoted {path tail : Bytes} (hne : path ≠ []) (hlf : (10 : UInt8) ∉ path)
    (htail : (34 : UInt8) ∉ tail) :
    Pattern.exec [group (.run 1 (· != 10)), lit "\""] (path ++ (ascii "\"" ++ tail)) =
      some ([path], tail) := by
  have hpath : ∀ b ∈ path, (b != 10) = true := by
    intro b hb
    simpa using fun h : b = 10 => hlf (h ▸ hb)
  have hquote : Pattern.exec [lit "\""] (ascii "\"" ++ tail) = some ([], tail) := by
    rw [Pattern.exec_lit, Pattern.exec_nil]
  refine Pattern.exec_run_at true hpath (List.length_pos_iff.mpr hne) hquote ?_
  intro j hj _
  obtain ⟨k, rfl⟩ := Nat.exists_eq_succ_of_ne_zero (Nat.ne_of_gt hj)
  show Pattern.exec [lit "\""] (tail.drop k) = none
  cases hexec : Pattern.exec [lit "\""] (tail.drop k) with
  | none => rfl
  | some r =>
      obtain ⟨rest, hrest, -⟩ := Pattern.exec_lit_inv hexec
      have hmem : (34 : UInt8) ∈ tail.drop k := by
        rw [hrest]
        exact List.mem_cons_self
      exact absurd (List.mem_of_mem_drop hmem) htail

/-- The answer to an open command, `o:%x:%x:%x:"%s"`. -/
def openAnswer (fd mode size : Nat) (path : Bytes) : Bytes :=
  ascii "o:" ++ fmtNat 16 fd ++ ascii ":" ++ fmtNat 16 mode ++ ascii ":" ++ fmtNat 16 size ++
    ascii ":\"" ++ path ++ ascii "\""

theorem parseOpen_openAnswer {path : Bytes} (hne : path ≠ []) (hlf : (10 : UInt8) ∉ path)
    (fd mode size : Nat) :
    parseOpen (openAnswer fd mode size path) =
      some ⟨(parseInt 16 (fmtNat 16 fd)).1, (parseInt 16 (fmtNat 16 mode)).1,
        (parseInt 16 (fmtNat 16 size)).1, path⟩ := by
  have hdash : ∀ b, isHexDigit b = true → isHexOrDash b = true := by
    intro b hb
    simp [isHexOrDash, hb]
  have hquoted := exec_quoted hne hlf (List.not_mem_nil (a := 34))
  rw [List.append_nil] at hquoted
  have hexec : openRe.exec (openAnswer fd mode size path) =
      some ([fmtNat 16 fd, fmtNat 16 mode, fmtNat 16 size, path], []) := by
    simp only [openAnswer, List.append_assoc, openRe]
    rw [Pattern.exec_lit]
    exact exec_hex_field hdash (by decide) (exec_hex_field hdash (by decide)
      (exec_hex_field hdash (by decide) hquoted))
  rw [parseOpen, hexec]

/-- The answer to an open command holds no prompt but the one at its end. -/
theorem openAnswer_text {path : Bytes} (hpath : PlainPath path) (fd mode size : Nat) :
    NoPrompt (openAnswer fd mode size path ++ ascii "\r\n") ∧
      iac ∉ openAnswer fd mode size path ++ ascii "\r\n" := by
  refine ⟨?_, ?_⟩
  · have hhead : NoPrompt (ascii "o:" ++ (fmtNat 16 fd ++ (ascii ":" ++ (fmtNat 16 mode ++
        (ascii ":" ++ (fmtNat 16 size ++ [58])))))) := by
      apply noPrompt_of_no_lt
      simp [ascii, not_mem_fmtNat (b := 60) (by decide)]
    have hquote : ∀ p ∈ prompts, (34 : UInt8) ∉ p := fun p hp => (prompt_bytes hp).2.2.2.2
    have htail : NoPrompt (path ++ 34 :: [13, 10]) := hpath.noPrompt.join hquote (by decide)
    have hall := hhead.join hquote htail
    simpa [openAnswer, ascii] using hall
  · have hclean : (255 : UInt8) ∉ path := hpath.clean
    simp [openAnswer, ascii, iac, hclean, not_mem_fmtNat (b := 255) (by decide)]

/-- The client finds the handle in the answer to an open command. -/
theorem firstLine_openAnswer {path : Bytes} (hlf : (10 : UInt8) ∉ path) (fd mode size : Nat) :
    firstLine (trimLeft (· == 32) (openAnswer fd mode size path ++ ascii "\r\n")) =
      openAnswer fd mode size path := by
  have hline : (10 : UInt8) ∉ openAnswer fd mode size path ++ [13] := by
    simp [openAnswer, ascii, not_mem_fmtNat (b := 10) (by decide), hlf]
  have hblank : trimLeft (· == 32) (openAnswer fd mode size path ++ ascii "\r\n") =
      openAnswer fd mode size path ++ [13] ++ 10 :: [] := by
    rw [List.append_assoc]
    exact trimLeft_cons_of_not (by decide) _
  have hcr : trimRight (· == 13) (openAnswer fd mode size path ++ [13]) =
      openAnswer fd mode size path := by
    rw [trimRight_concat_of (by decide), openAnswer]
    exact trimRight_concat_of_not (by decide) _
  have hnoise : isNoise (openAnswer fd mode size path) = false :=
    isNoise_of_head (by decide) (by decide) (by decide) _
  rw [hblank, firstLine_line hline, hcr, hnoise]
  rfl

/-! ## Counts -/

/-- A status line `o:%x:` with more behind it. -/
def countLine (n : Nat) (t : Bytes) : Bytes := ascii "o:" ++ (fmtNat 16 n ++ 58 :: t)

theorem statusLine_countLine (n : Nat) (t : Bytes) :
    statusLine (countLine n t) = countLine n (trimRight (· == 13) t) := by
  have hassoc : ∀ t, countLine n t = ascii "o:" ++ fmtNat 16 n ++ 58 :: t := by
    intro t
    rw [countLine, List.append_assoc]
  rw [statusLine, hassoc, trimRight_append_cons_of_not (by decide), hassoc]
  exact trimLeft_cons_of_not (by decide) _

theorem isPrefixOf_countLine (n : Nat) (t : Bytes) :
    (ascii "o:").isPrefixOf (countLine n t) = true :=
  isPrefixOf_append _ _

theorem statusCount_countLine {n : Nat} (hn : n < 2 ^ 63) (t : Bytes) :
    Client.statusCount (countLine n t) = ((n : Int), none) := by
  rw [Client.statusCount, countLine, trimLead_append,
    before_append (not_mem_fmtNat (by decide) n), parseInt_fmtNat (by decide) (by decide) hn]

theorem announces_countLine {t data : Bytes} (hlen : data.length < 2 ^ 63) :
    Client.Announces (statusLine (countLine data.length t)) data := by
  rw [statusLine_countLine, Client.Announces, if_pos (isPrefixOf_countLine _ _)]
  exact ⟨data.length, statusCount_countLine hlen _, rfl⟩

theorem readResult_countLine (n : Nat) (t data : Bytes) :
    Client.readResult (statusLine (countLine n t)) data = (data, none) := by
  rw [statusLine_countLine, Client.readResult, if_pos (isPrefixOf_countLine _ _)]

/-- A status line with its data and a prompt, all of it plain. -/
theorem statusReply_countLine {T : Trail} {p rest t : Bytes} (hp : p ∈ prompts) (n : Nat)
    (hlf : (10 : UInt8) ∉ t) (hiac : iac ∉ t) (hrest : T.ok rest) (data : Bytes) :
    StatusReply T (countLine n t) data (countLine n t ++ [10] ++ (data ++ (p ++ rest))) := by
  have h255 : (255 : UInt8) ∉ t := hiac
  refine statusReply_of_clean hp ?_ ?_ hrest
  · simp [countLine, ascii, hlf, not_mem_fmtNat (b := 10) (by decide)]
  · simp [countLine, ascii, iac, h255, not_mem_fmtNat (b := 255) (by decide)]

end QconnMcp.Qconn
