import QconnMcp.Kit.Quote
import QconnMcp.Qconn.Launcher

/-!
# What the shell makes of a path and of arguments

Two callers put strings of the user into a shell command: `qconn_list_dir`
(`internal/mcpserver/tools_files.go`) quotes a path with `%q`, `Run`
(`internal/qconn/launcher.go`) joins its arguments with blanks. The launcher hands
the command to `/bin/sh`, which splits it into words again.

`%q` is Go's quoting and not the shell's: the shell does not know its escapes and
still expands `$` and backquotes in it. Joining does not quote at all. So both hold
for strings that need no quoting in the respective sense, and
`arguments_survive_iff` says for which ones exactly.
-/

namespace QconnMcp.Tools

open Kit Qconn

/-! ## The callers -/

/-- The shell command of `qconn_list_dir`. -/
def listDirCommand (isPrint : Nat → Bool) (path : Bytes) : Bytes :=
  ascii "ls -la " ++ quote isPrint path

structure ListDirOut where
  path : Bytes
  entries : List Bytes
  raw : Bytes
  deriving DecidableEq, Repr

/-- The handler of `qconn_list_dir`. -/
def listDir {σ : Type} (P : Peer σ) (isPrint : Nat → Bool) (path : Bytes) :
    Act σ (Except ExecErr ListDirOut) := do
  match ← Client.exec P (listDirCommand isPrint path) with
  | .error e => pure (.error e)
  | .ok r =>
      let entries := ((r.output.splitOn 10).map (trimRight (· == 13))).filter (trimSpace · ≠ [])
      pure (.ok ⟨path, entries, r.output⟩)

/-! ## The launcher and the shell behind it -/

/-- The tokens of the command that a start line hands to the shell. -/
def shellTokens (line : Bytes) : Option (List Shell.Token) :=
  let lead := ascii "start/flags run /bin/sh /bin/sh -c "
  if lead.isPrefixOf line then
    match readArg (line.drop lead.length) with
    | some (text, []) => Shell.tokens text
    | _ => none
  else none

theorem shellTokens_startLine (command : Bytes) :
    shellTokens (startLine command) = Shell.tokens (command.map blankBreak) := by
  have harg : readArg (34 :: escapeArg command ++ [34]) = some (command.map blankBreak, []) :=
    readQuoted_escapeArg command []
  simp only [shellTokens, startLine_eq, isPrefixOf_append, if_true, List.drop_left, harg]

/-- The string has no line break and no NUL. -/
def Clean (s : Bytes) : Prop := (13 : UInt8) ∉ s ∧ (10 : UInt8) ∉ s ∧ (0 : UInt8) ∉ s

theorem map_blankBreak {s : Bytes} (hcr : (13 : UInt8) ∉ s) (hlf : (10 : UInt8) ∉ s) :
    s.map blankBreak = s := by
  conv_rhs => rw [← List.map_id s]
  apply List.map_congr_left
  intro b hb
  have hne : ¬ (b = 10 ∨ b = 13) := by
    rintro (rfl | rfl)
    · exact hlf hb
    · exact hcr hb
  rw [blankBreak, if_neg hne]
  rfl

/-! ## A path in quotes -/

/-- The shell runs `ls` on the path. -/
def Listed (isPrint : Nat → Bool) (path : Bytes) : Prop :=
  shellTokens (startLine (listDirCommand isPrint path)) =
    some [.literal (ascii "ls"), .literal (ascii "-la"), .literal path]

instance (isPrint : Nat → Bool) (path : Bytes) : Decidable (Listed isPrint path) :=
  inferInstanceAs (Decidable (_ = _))

theorem quote_unbroken {isPrint : Nat → Bool} {path : Bytes} (hpath : Clean path) :
    (13 : UInt8) ∉ quote isPrint path ∧ (10 : UInt8) ∉ quote isPrint path := by
  obtain ⟨hcr, hlf, -⟩ := hpath
  refine ⟨?_, ?_⟩
  · intro h
    rcases mem_quote h with h | h
    · exact hcr h
    · exact absurd h (by decide)
  · intro h
    rcases mem_quote h with h | h
    · exact hlf h
    · exact absurd h (by decide)

theorem listed_iff {isPrint : Nat → Bool} {path : Bytes} (hpath : Clean path) :
    Listed isPrint path ↔ Printable isPrint path ∧ (36 : UInt8) ∉ path ∧ (96 : UInt8) ∉ path := by
  obtain ⟨hcr, hlf⟩ : (13 : UInt8) ∉ quote isPrint path ∧ (10 : UInt8) ∉ quote isPrint path :=
    quote_unbroken hpath
  rw [Listed, shellTokens_startLine, listDirCommand, List.map_append, map_blankBreak hcr hlf,
    ← tokens_quote_iff]
  show Shell.tokensFrom .between (ascii "ls -la " ++ quote isPrint path) = _ ↔ _
  rw [Shell.tokensFrom_append]
  show (Shell.tokensFrom .between (quote isPrint path)).map
    ([.literal (ascii "ls"), .literal (ascii "-la")] ++ ·) = _ ↔ _
  rw [Option.map_eq_some_iff]
  simp

/-! ## Arguments joined with blanks -/

/-- The shell reads every argument as one word, as it is, behind what it reads of
the program. -/
def Passed (program : Bytes) (args : List Bytes) : Prop :=
  args = [] ∨ ∃ ts us, shellTokens (startLine program) = some ts ∧
    shellTokens (startLine (Client.runCommand program args)) = some (ts ++ (args.map .literal ++ us))

theorem intercalate_blank {args : List Bytes} (hne : args ≠ []) :
    List.intercalate [32] args ++ [32] = Shell.spaced args := by
  induction args with
  | nil => exact absurd rfl hne
  | cons a args ih =>
      cases args with
      | nil => simp [Shell.spaced, List.intercalate]
      | cons a' args =>
          have hrest := ih (List.cons_ne_nil _ _)
          rw [Shell.spaced_cons, ← hrest]
          simp [List.intercalate]

theorem clean_spaced {args : List Bytes} (hargs : ∀ a ∈ args, Clean a) :
    (Shell.spaced args).map blankBreak = Shell.spaced args := by
  have hmem : ∀ {b : UInt8}, b ≠ 32 → b ∈ Shell.spaced args → ∃ a ∈ args, b ∈ a := by
    intro b hb h
    obtain ⟨a, ha, hmem⟩ := List.mem_flatMap.mp h
    exact ⟨a, ha, by simpa [hb] using hmem⟩
  apply map_blankBreak
  · intro h
    obtain ⟨a, ha, hmem⟩ := hmem (by decide) h
    exact (hargs a ha).1 hmem
  · intro h
    obtain ⟨a, ha, hmem⟩ := hmem (by decide) h
    exact (hargs a ha).2.1 hmem

/-- What follows the arguments of `Run`. -/
def runTail : Bytes := ascii "/dev/null 2>&1 & echo $!"

theorem runCommand_text {program : Bytes} {args : List Bytes} (hne : args ≠ [])
    (hargs : ∀ a ∈ args, Clean a) : (Client.runCommand program args).map blankBreak =
      program.map blankBreak ++ 32 :: (Shell.spaced args ++ 62 :: runTail) := by
  have htail : ascii " >/dev/null 2>&1 & echo $!" = [32] ++ 62 :: runTail := rfl
  have htext : Client.runCommand program args =
      program ++ 32 :: (Shell.spaced args ++ 62 :: runTail) := by
    rw [Client.runCommand, if_pos hne, htail, ← intercalate_blank hne]
    simp
  rw [htext, List.map_append, List.map_cons, List.map_append, clean_spaced hargs]
  rfl

/-- Nothing of the redirection closes a word's context or ends the line. -/
theorem runTail_open (y : UInt8) (hy : y ∈ 62 :: runTail) : Shell.isClosing y = false ∧ y ≠ 10 := by
  have hall : (62 :: runTail).all (fun y => !Shell.isClosing y && y != 10) = true := by decide
  have h := List.all_eq_true.mp hall y hy
  rw [Bool.and_eq_true, Bool.not_eq_true', bne_iff_ne] at h
  exact h

theorem passed_iff {program : Bytes} {args : List Bytes} (hargs : ∀ a ∈ args, Clean a) :
    Passed program args ↔
      args = [] ∨ Shell.Settled (program.map blankBreak) ∧ ∀ a ∈ args, Shell.Plain a := by
  refine or_congr_right' ?_
  intro hne
  simp only [shellTokens_startLine, runCommand_text hne hargs]
  exact Shell.passes_iff (by decide) (by decide) (by decide) runTail_open (by decide) hne
    fun a ha => (hargs a ha).2.1

end QconnMcp.Tools
