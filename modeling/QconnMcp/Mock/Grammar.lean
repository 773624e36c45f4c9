import QconnMcp.Mock.Session

/-!
# Command lines, as the daemon reads them

The client's command lines are texts with numbers printed in hexadecimal, and
the daemon reads them with its own regular expressions. Each lemma here runs one
of these expressions over a line that the client printed.
-/

namespace QconnMcp.Mock

open Kit Qconn

/-! ## Open commands -/

/-- The file service reads numbers in hexadecimal digits, of any length. -/
def HexText (t : Bytes) : Prop := t ≠ [] ∧ ∀ b ∈ t, isHexDigit b = true

theorem hexText_fmtInt {i : Int} (hi : 0 ≤ i) : HexText (fmtInt 16 i) := by
  rw [fmtInt_of_nonneg hi]
  exact ⟨fmtNat_ne_nil _ _, fmtNat_hex⟩

/-- A hexadecimal field at the end of the line. -/
theorem exec_hex_end {t : Bytes} (ht : HexText t) :
    Pattern.exec [group (.run 1 isHexDigit), skip .done] t = some ([t], []) := by
  have h := Pattern.exec_run (s := []) true ht.2 (List.length_pos_iff.mpr ht.1) (by simp)
    (Pattern.exec_done false [])
  rwa [List.append_nil] at h

theorem parseOpen_text {path flags mode : Bytes} (hne : path ≠ []) (hquote : (34 : UInt8) ∉ path)
    (hflags : HexText flags) (hmode : HexText mode) :
    parseOpen (ascii "o:\"" ++ path ++ ascii "\":" ++ flags ++ ascii ":" ++ mode) =
      some (path, flags, mode) := by
  have hpath : ∀ b ∈ path, (b != 34) = true := by
    intro b hb
    simpa using fun h : b = 34 => hquote (h ▸ hb)
  have hexec : openRe.exec (ascii "o:\"" ++ path ++ ascii "\":" ++ flags ++ ascii ":" ++ mode) =
      some ([path, flags, mode], []) := by
    simp only [List.append_assoc, openRe]
    rw [Pattern.exec_lit]
    exact Pattern.exec_run_lit true hpath (List.length_pos_iff.mpr hne) (by decide)
      (Pattern.exec_run_lit true hflags.2 (List.length_pos_iff.mpr hflags.1) (by decide)
        (exec_hex_end hmode))
  rw [parseOpen, hexec]

theorem parseOpen_openCmd {path : Bytes} (hne : path ≠ []) (hquote : (34 : UInt8) ∉ path)
    {flags mode : Int} (hflags : 0 ≤ flags) (hmode : 0 ≤ mode) :
    parseOpen (openCmd path flags mode) = some (path, fmtInt 16 flags, fmtInt 16 mode) :=
  parseOpen_text hne hquote (hexText_fmtInt hflags) (hexText_fmtInt hmode)

/-- Whatever line it is, the path read from it is quoted text. -/
theorem parseOpen_inv {line path flags mode : Bytes}
    (h : parseOpen line = some (path, flags, mode)) :
    path ≠ [] ∧ (34 : UInt8) ∉ path ∧ ∃ rest, line = ascii "o:\"" ++ (path ++ 34 :: rest) := by
  unfold parseOpen at h
  split at h
  · rename_i p f m rest hexec
    simp only [Option.some.injEq, Prod.mk.injEq] at h
    obtain ⟨rfl, -, -⟩ := h
    obtain ⟨_, rfl, hexec₁⟩ := Pattern.exec_lit_inv hexec
    obtain ⟨_, rfl, ⟨hlen, hclass⟩, hexec₂⟩ := Pattern.exec_group_inv hexec₁
    obtain ⟨rest', rfl, -⟩ := Pattern.exec_lit_inv hexec₂
    refine ⟨List.length_pos_iff.mp hlen, ?_, _, rfl⟩
    intro hmem
    exact absurd (hclass 34 hmem) (by decide)
  · simp at h

/-- Of an open command for a path without quotes, the daemon reads that path or
nothing. -/
theorem parseOpen_openCmd_path {path p f m : Bytes} (hquote : (34 : UInt8) ∉ path)
    {flags mode : Int} (h : parseOpen (openCmd path flags mode) = some (p, f, m)) : p = path := by
  obtain ⟨-, hp, rest, hcmd⟩ := parseOpen_inv h
  simp only [openCmd, List.append_assoc, List.append_cancel_left_eq] at hcmd
  exact (append_sep_inj hquote hp hcmd).1.symm

/-- The three fields of a read or write command. -/
theorem parseRw_text {letter : UInt8} (hletter : letter = 114 ∨ letter = 119) {fd off n : Bytes}
    (hfd : HexText fd) (hoff : HexText off) (hn : HexText n) :
    parseRw (letter :: (ascii ":" ++ (fd ++ (ascii ":" ++ (off ++ (ascii ":" ++ n)))))) =
      some ((parseInt 16 fd).1.toNat, (parseInt 16 off).1.toNat, (parseInt 16 n).1.toNat) := by
  have hclass : (letter == 114 || letter == 119) = true := by
    simpa using hletter
  have hfields := Pattern.exec_run_lit (w := ":") true hfd.2 (List.length_pos_iff.mpr hfd.1) (by decide)
    (Pattern.exec_run_lit (w := ":") true hoff.2 (List.length_pos_iff.mpr hoff.1) (by decide)
      (exec_hex_end hn))
  have hexec : rwRe.exec (letter :: (ascii ":" ++ (fd ++ (ascii ":" ++ (off ++ (ascii ":" ++ n)))))) =
      some ([[letter], fd, off, n], []) := by
    simp only [rwRe, group] at hfields ⊢
    rw [Pattern.exec_one hclass, Pattern.exec_lit, hfields]
    rfl
  rw [parseRw, hexec]

theorem parseRw_fields {letter : UInt8} (hletter : letter = 114 ∨ letter = 119) {fd off n : Int}
    (hfd : 0 ≤ fd ∧ fd < 2 ^ 63) (hoff : 0 ≤ off ∧ off < 2 ^ 63) (hn : 0 ≤ n ∧ n < 2 ^ 63) :
    parseRw (letter :: (ascii ":" ++ (fmtInt 16 fd ++ (ascii ":" ++ (fmtInt 16 off ++
      (ascii ":" ++ fmtInt 16 n)))))) = some (fd.toNat, off.toNat, n.toNat) := by
  have hread : ∀ i : Int, 0 ≤ i ∧ i < 2 ^ 63 → (parseInt 16 (fmtInt 16 i)).1.toNat = i.toNat := by
    intro i hi
    rw [parseInt_fmtInt (by decide) (by decide) (by omega) hi.2]
  rw [parseRw_text hletter (hexText_fmtInt hfd.1) (hexText_fmtInt hoff.1) (hexText_fmtInt hn.1),
    hread _ hfd, hread _ hoff, hread _ hn]

theorem parseRw_readCmd {fd off n : Int} (hfd : 0 ≤ fd ∧ fd < 2 ^ 63)
    (hoff : 0 ≤ off ∧ off < 2 ^ 63) (hn : 0 ≤ n ∧ n < 2 ^ 63) :
    parseRw (readCmd fd off n) = some (fd.toNat, off.toNat, n.toNat) := by
  rw [← parseRw_fields (.inl rfl) hfd hoff hn]
  simp only [readCmd, List.append_assoc]
  rfl

theorem parseRw_writeCmd {fd off : Int} {n : Nat} (hfd : 0 ≤ fd ∧ fd < 2 ^ 63)
    (hoff : 0 ≤ off ∧ off < 2 ^ 63) (hn : n < 2 ^ 63) :
    parseRw (writeCmd fd off n) = some (fd.toNat, off.toNat, n) := by
  have h := parseRw_fields (.inr rfl) hfd hoff (n := n) ⟨by omega, by omega⟩
  rw [Int.toNat_natCast] at h
  rw [← h]
  simp only [writeCmd, List.append_assoc]
  rfl

/-- If the daemon can read a command at all, it reads the count that was
printed. -/
theorem parseRw_readCmd_count {fd off n : Int} (hn : 0 ≤ n ∧ n < 2 ^ 63) {fd' off' n' : Nat}
    (h : parseRw (readCmd fd off n) = some (fd', off', n')) : n' = n.toNat := by
  have hdigits : ∀ {t : Bytes}, (∀ b ∈ t, isHexDigit b = true) → (58 : UInt8) ∉ t := by
    intro t ht hmem
    exact absurd (ht 58 hmem) (by decide)
  unfold parseRw at h
  split at h
  · rename_i letter f o m rest hexec
    simp only [Option.some.injEq, Prod.mk.injEq] at h
    obtain ⟨-, -, rfl⟩ := h
    obtain ⟨_, hcmd, ⟨c, rfl, -⟩, h₁⟩ := Pattern.exec_group_inv hexec
    obtain ⟨_, rfl, h₂⟩ := Pattern.exec_lit_inv h₁
    obtain ⟨_, rfl, ⟨-, hf⟩, h₃⟩ := Pattern.exec_group_inv h₂
    obtain ⟨_, rfl, h₄⟩ := Pattern.exec_lit_inv h₃
    obtain ⟨_, rfl, ⟨-, ho⟩, h₅⟩ := Pattern.exec_group_inv h₄
    obtain ⟨_, rfl, h₆⟩ := Pattern.exec_lit_inv h₅
    obtain ⟨_, rfl, -, h₇⟩ := Pattern.exec_group_inv h₆
    obtain rfl := Pattern.exec_done_inv h₇
    -- the printed and the matched fields end at the same colons
    simp only [readCmd, List.append_assoc, List.append_nil] at hcmd
    have hfields : fmtInt 16 fd ++ 58 :: (fmtInt 16 off ++ 58 :: fmtInt 16 n) =
        f ++ 58 :: (o ++ 58 :: m) := (List.cons.inj (List.cons.inj hcmd).2).2
    have hoffs := (append_sep_inj (colon_not_mem_hex fd) (hdigits hf) hfields).2
    have hcount := (append_sep_inj (colon_not_mem_hex off) (hdigits ho) hoffs).2
    rw [← hcount, parseInt_fmtInt (by decide) (by decide) (by omega) hn.2]
  · simp at h

end QconnMcp.Mock
