import QconnMcp.Qconn.Negotiation
import QconnMcp.Qconn.Rounds

/-!
# The launcher

`internal/qconn/launcher.go`: a shell command is quoted into the argument of a
`start/flags run` line, on a connection of its own, and what comes back until the
connection falls silent is taken apart into the process id and the output of the
command.

Quoting is four replacements, one after the other; `escapeArg_eq` turns them into
one substitution per byte, which the launcher's reading of a quoted argument undoes
(`exec_quoting_exact`). The way back takes off the telnet sequences, the blanks, the
noise and the acknowledgement, and nothing of the output (`exec_output_exact`).
-/

namespace QconnMcp.Qconn

open Kit

/-! ## Quoting -/

/-- `strings.ReplaceAll` of a single byte. -/
def replaceAll (old : UInt8) (new : Bytes) (s : Bytes) : Bytes :=
  s.flatMap fun b => if b = old then new else [b]

/-- `escapeArg`. -/
def escapeArg (s : Bytes) : Bytes :=
  let s := replaceAll 92 [92, 92] s
  let s := replaceAll 34 [92, 34] s
  let s := replaceAll 10 [32] s
  replaceAll 13 [32] s

/-- The command line that starts a shell. -/
def startLine (command : Bytes) : Bytes :=
  ascii "start/flags run /bin/sh /bin/sh -c \"" ++ escapeArg command ++ ascii "\""

/-- The command is the one quoted argument of the line. -/
theorem startLine_eq (command : Bytes) :
    startLine command =
      ascii "start/flags run /bin/sh /bin/sh -c " ++ (34 :: escapeArg command ++ [34]) := by
  have hlead : ascii "start/flags run /bin/sh /bin/sh -c \"" =
      ascii "start/flags run /bin/sh /bin/sh -c " ++ [34] := by decide +kernel
  rw [startLine, hlead, List.append_assoc, List.append_assoc]
  rfl

/-- What the launcher makes of the text behind an opening quote: a backslash makes
the next byte literal (`escaped` while that byte is to come), an unescaped quote ends
the argument. Gives the argument and the text behind the closing quote. -/
def readQuoted : (escaped : Bool) → Bytes → Option (Bytes × Bytes)
  | _, [] => none
  | true, b :: rest => (readQuoted false rest).map fun r => (b :: r.1, r.2)
  | false, b :: rest =>
      if b = 34 then some ([], rest)
      else if b = 92 then readQuoted true rest
      else (readQuoted false rest).map fun r => (b :: r.1, r.2)

/-- A quoted argument. -/
def readArg : Bytes → Option (Bytes × Bytes)
  | [] => none
  | b :: rest => if b = 34 then readQuoted false rest else none

/-- A line break as the launcher sees it. -/
def blankBreak (b : UInt8) : UInt8 := if b = 10 ∨ b = 13 then 32 else b

/-- The four replacements for one byte. -/
def escapeByte (b : UInt8) : Bytes :=
  if b = 92 then [92, 92] else if b = 34 then [92, 34] else [blankBreak b]

theorem replaceAll_append (old : UInt8) (new s t : Bytes) :
    replaceAll old new (s ++ t) = replaceAll old new s ++ replaceAll old new t :=
  List.flatMap_append

theorem escapeArg_append (s t : Bytes) : escapeArg (s ++ t) = escapeArg s ++ escapeArg t := by
  simp only [escapeArg, replaceAll_append]

theorem escapeArg_singleton (b : UInt8) : escapeArg [b] = escapeByte b := by
  rw [escapeByte, blankBreak]
  by_cases hslash : b = 92
  · subst hslash
    decide
  · by_cases hquote : b = 34
    · subst hquote
      decide
    · by_cases hlf : b = 10
      · subst hlf
        decide
      · by_cases hcr : b = 13
        · subst hcr
          decide
        · simp [escapeArg, replaceAll, hslash, hquote, hlf, hcr]

/-- The passes do not disturb each other: what one writes, the later ones leave
alone. -/
theorem escapeArg_eq (s : Bytes) : escapeArg s = s.flatMap escapeByte := by
  induction s with
  | nil => rfl
  | cons b s ih =>
      rw [show b :: s = [b] ++ s from rfl, escapeArg_append, ih, escapeArg_singleton,
        List.flatMap_append, List.flatMap_singleton]

theorem readQuoted_escapeByte (b : UInt8) (rest : Bytes) :
    readQuoted false (escapeByte b ++ rest) =
      (readQuoted false rest).map fun r => (blankBreak b :: r.1, r.2) := by
  rw [escapeByte]
  by_cases hslash : b = 92
  · subst hslash
    rfl
  · rw [if_neg hslash]
    by_cases hquote : b = 34
    · subst hquote
      rfl
    · rw [if_neg hquote]
      have hneQuote : blankBreak b ≠ 34 := by
        rw [blankBreak]
        split
        · decide
        · exact hquote
      have hneSlash : blankBreak b ≠ 92 := by
        rw [blankBreak]
        split
        · decide
        · exact hslash
      rw [List.singleton_append, readQuoted, if_neg hneQuote, if_neg hneSlash]

/-- The launcher reads the command back and stops at the quote behind it. -/
theorem readQuoted_escapeArg (s rest : Bytes) :
    readQuoted false (escapeArg s ++ 34 :: rest) = some (s.map blankBreak, rest) := by
  rw [escapeArg_eq]
  induction s with
  | nil => rfl
  | cons b s ih =>
      rw [List.flatMap_cons, List.append_assoc, readQuoted_escapeByte, ih]
      rfl

theorem break_not_mem_escapeArg (s : Bytes) : (13 : UInt8) ∉ escapeArg s ∧ (10 : UInt8) ∉ escapeArg s := by
  have hbyte : ∀ b, (13 : UInt8) ∉ escapeByte b ∧ (10 : UInt8) ∉ escapeByte b := by
    intro b
    rw [escapeByte]
    split
    · decide
    · split
      · decide
      · rw [blankBreak]
        split
        · decide
        · rename_i hbreak
          obtain ⟨hlf, hcr⟩ := not_or.mp hbreak
          exact ⟨by simpa using Ne.symm hcr, by simpa using Ne.symm hlf⟩
  rw [escapeArg_eq]
  refine ⟨?_, ?_⟩
  · intro hmem
    obtain ⟨b, -, hb⟩ := List.mem_flatMap.mp hmem
    exact (hbyte b).1 hb
  · intro hmem
    obtain ⟨b, -, hb⟩ := List.mem_flatMap.mp hmem
    exact (hbyte b).2 hb

theorem break_not_mem_startLine (s : Bytes) :
    (13 : UInt8) ∉ startLine s ∧ (10 : UInt8) ∉ startLine s := by
  obtain ⟨hcr, hlf⟩ := break_not_mem_escapeArg s
  simp only [startLine, List.mem_append, not_or]
  exact ⟨⟨⟨by decide, hcr⟩, by decide⟩, ⟨by decide, hlf⟩, by decide⟩

/-! ## Responses -/

/-- `readUntilIdle`: everything that arrives before the connection falls silent,
without its telnet sequences. -/
def FrameConn.readUntilIdle (f : FrameConn) : Bytes × FrameConn :=
  (stripIac f.inp, { f with inp := [] })

/-- The loop of `stripLeadingNoise`. -/
def stripLeadingNoiseFrom : Nat → Bytes → Bytes
  | 0, s => s
  | fuel + 1, s =>
      match cut 10 s with
      | none => s
      | some (ln, rest) => if isNoise ln then stripLeadingNoiseFrom fuel rest else s

/-- `stripLeadingNoise`; every line has a byte at least. -/
def stripLeadingNoise (s : Bytes) : Bytes := stripLeadingNoiseFrom s.length s

/-- `\d`. -/
def isDigit (b : UInt8) : Bool := 48 ≤ b && b ≤ 57

/-- `^OK\s+(\d+)`. -/
def okPidRe : Pattern := [lit "OK", skip (.run 1 isReSpace), group (.run 1 isDigit)]

structure ExecResult where
  pid : Int
  output : Bytes
  deriving DecidableEq, Repr

/-- The bytes that `strings.TrimLeft(out, " \r\n")` takes off. -/
def isBlankOrBreak (b : UInt8) : Bool := b == 32 || b == 13 || b == 10

/-- The end of `Exec`: what it makes of the bytes received. -/
def parseExec (out : Bytes) : ExecResult :=
  let out := stripLeadingNoise (trimLeft isBlankOrBreak out)
  match cut 10 out with
  | some (line, rest) =>
      match okPidRe.exec (trimRight (· == 13) line) with
      | some ([digits], _) => ⟨(parseInt 10 digits).1, rest⟩
      | _ => ⟨0, out⟩
  | none =>
      match okPidRe.exec (trimSpace out) with
      | some ([digits], _) => ⟨(parseInt 10 digits).1, []⟩
      | _ => ⟨0, out⟩

inductive ExecErr where
  | io (e : IoErr)
  /-- `qconn exec handshake: %w` -/
  | handshake (e : IoErr)
  /-- `qconn %s: unexpected response %q` -/
  | proto (op got : Bytes)
  deriving DecidableEq, Repr

namespace Client

variable {σ : Type} (P : Peer σ)

/-- The switch of the new connection to the launcher. -/
def openLauncher : Act σ (Option ExecErr) := do
  match ← writeLine P (ascii "service launcher") with
  | some e => pure (some (.io e))
  | none =>
      match ← readUntilPrompt with
      | (_, some e) => pure (some (.io e))
      | (resp, none) =>
          if (ascii "OK").isPrefixOf (firstLine resp) then pure none
          else pure (some (.proto (ascii "service launcher") (trimSpace resp)))

/-- The part of `Exec` before the start line. -/
def enterLauncher : Act σ (Option ExecErr) := do
  match ← readUntilPrompt with
  | (_, some e) => pure (some (.handshake e))
  | (_, none) => openLauncher P

/-- The part of `Exec` from the start line on. -/
def startShell (command : Bytes) : Act σ (Except ExecErr ExecResult) := do
  match ← writeLine P (startLine command) with
  | some e => pure (.error (.io e))
  | none =>
      let out ← onConn FrameConn.readUntilIdle
      pure (.ok (parseExec out))

/-- `Exec`, on a connection that has just been made. -/
def exec (command : Bytes) : Act σ (Except ExecErr ExecResult) := do
  match ← enterLauncher P with
  | some e => pure (.error e)
  | none => startShell P command

/-- The shell command of `Run`. -/
def runCommand (program : Bytes) (args : List Bytes) : Bytes :=
  program ++ (if args ≠ [] then 32 :: List.intercalate [32] args else []) ++
    ascii " >/dev/null 2>&1 & echo $!"

/-- `Run`: the process id that the shell prints, or else the shell's own. -/
def run (program : Bytes) (args : List Bytes) : Act σ (Except ExecErr Int) := do
  match ← exec P (runCommand program args) with
  | .error e => pure (.error e)
  | .ok r =>
      match parseInt 10 (trimSpace r.output) with
      | (pid, none) => pure (.ok pid)
      | (_, some _) => pure (.ok r.pid)

/-! ## What is sent -/

variable {P}

theorem startShell_lines (command : Bytes) (c : Client σ) :
    ∃ sent, ((startShell P command).run c).2.sent = c.sent ++ sent ∧
      sent.map Prod.snd <+: [startLine command] := by
  have hsent : ((startShell P command).run c).2.sent =
      if P.recv c.peer (startLine command ++ [10]) = none then c.sent
      else c.sent ++ [(c.current, startLine command)] := by
    rw [startShell]
    refine sent_of_writeLine ?_ ?_ c
    · intro e
      exact .pure _
    · exact SendsNoLine.bind (.onConn _) fun _ => .pure _
  refine ⟨if P.recv c.peer (startLine command ++ [10]) = none then [] else
    [(c.current, startLine command)], hsent.trans ?_, ?_⟩
  · split <;> simp
  · split <;> simp

theorem openLauncher_lines (c : Client σ) :
    ∃ sent, ((openLauncher P).run c).2.sent = c.sent ++ sent ∧
      sent.map Prod.snd <+: [ascii "service launcher"] ∧
      (((openLauncher P).run c).1 = none → sent.map Prod.snd = [ascii "service launcher"]) := by
  cases hrecv : P.recv c.peer (ascii "service launcher" ++ [10]) with
  | none =>
      have hrun : (openLauncher P).run c = (some (.io .closed), c) := by
        rw [openLauncher, run_bind, writeLine_none hrecv]
        rfl
      exact ⟨[], by simp [hrun], by simp, by simp [hrun]⟩
  | some r =>
      refine ⟨[(c.current, ascii "service launcher")], ?_, by simp, fun _ => rfl⟩
      rw [openLauncher, run_bind, writeLine_some hrecv]
      refine SendsNoLine.bind (.onConn _) ?_ _
      rintro ⟨resp, e⟩
      cases e with
      | some e => exact .pure _
      | none =>
          dsimp only
          split
          · exact .pure _
          · exact .pure _

/-- The switch to the launcher is one line, sent in any case when it succeeds. -/
theorem enterLauncher_lines (c : Client σ) :
    ∃ sent, ((enterLauncher P).run c).2.sent = c.sent ++ sent ∧
      sent.map Prod.snd <+: [ascii "service launcher"] ∧
      (((enterLauncher P).run c).1 = none → sent.map Prod.snd = [ascii "service launcher"]) := by
  rcases hread : c.fc.readUntilPrompt with ⟨⟨banner, e⟩, fc⟩
  rw [enterLauncher, run_bind, run_readUntilPrompt hread]
  cases e with
  | some e =>
      show ∃ sent, c.sent = c.sent ++ sent ∧ _ ∧ (some (ExecErr.handshake e) = none → _)
      exact ⟨[], by simp, by simp, by simp⟩
  | none => exact openLauncher_lines { c with fc := fc }

theorem exec_refused {c c₁ : Client σ} {e : ExecErr} (h : (enterLauncher P).run c = (some e, c₁))
    (command : Bytes) : (exec P command).run c = (.error e, c₁) := by
  rw [exec, run_bind, h]
  rfl

theorem exec_entered {c c₁ : Client σ} (h : (enterLauncher P).run c = (none, c₁))
    (command : Bytes) : (exec P command).run c = (startShell P command).run c₁ := by
  rw [exec, run_bind, h]

theorem exec_lines (command : Bytes) (c : Client σ) :
    newLines (exec P command) c <+: [ascii "service launcher", startLine command] := by
  obtain ⟨sent, hsent, hlines, hall⟩ := enterLauncher_lines (P := P) c
  rcases hrun : (enterLauncher P).run c with ⟨e, c₁⟩
  rw [hrun] at hsent hall
  cases e with
  | some e =>
      rw [newLines, exec_refused hrun, show c₁.sent = c.sent ++ sent from hsent, List.drop_left]
      exact hlines.trans (List.prefix_append _ [startLine command])
  | none =>
      obtain ⟨sent', hsent', hlines'⟩ := startShell_lines (P := P) command c₁
      rw [newLines, exec_entered hrun, hsent', show c₁.sent = c.sent ++ sent from hsent,
        List.append_assoc, List.drop_left, List.map_append, hall rfl]
      exact (List.prefix_append_right_inj [ascii "service launcher"]).mpr hlines'

/-- **Launcher quoting is exact.** `Exec` sends at most the line that enters the
launcher and the start line, and the start line is free of line breaks. Its quoted
argument, read the launcher's way, ends at the final quote whatever follows, and is
the command with every line break blanked. -/
theorem exec_quoting_exact (P : Peer σ) (c : Client σ) (s : Bytes) :
    newLines (exec P s) c <+: [ascii "service launcher", startLine s] ∧
      (13 : UInt8) ∉ startLine s ∧ (10 : UInt8) ∉ startLine s ∧
      startLine s = ascii "start/flags run /bin/sh /bin/sh -c " ++ (34 :: escapeArg s ++ [34]) ∧
      ∀ rest, readArg (34 :: escapeArg s ++ [34] ++ rest) =
        some (s.map fun b => if b = 10 ∨ b = 13 then 32 else b, rest) := by
  obtain ⟨hcr, hlf⟩ := break_not_mem_startLine s
  refine ⟨exec_lines s c, hcr, hlf, startLine_eq s, ?_⟩
  intro rest
  rw [List.append_assoc]
  exact readQuoted_escapeArg s rest

end Client

/-! ## Taking the response apart -/

theorem output_sub_body {body : Bytes} (hbody : iac ∉ body) (u : Bytes) :
    (filter false).output .sub (Item.doubled body ++ ([iac, se] ++ u)) =
      (filter false).output .data u := by
  induction body with
  | nil => exact output_sub_end false u
  | cons b body ih =>
      rw [List.mem_cons, not_or] at hbody
      have hb : b ≠ iac := Ne.symm hbody.1
      rw [Item.doubled, List.flatMap_cons, if_neg hb]
      exact (output_sub false hb _).trans (ih hbody.2)

/-- The piece is no subnegotiation with an `IAC` in its body. -/
def Item.plain : Item → Bool
  | subnegotiation body => !body.contains iac
  | _ => true

/-- `stripIAC` too is transparent on data and complete sequences, as long as no
subnegotiation carries an `IAC`. -/
theorem stripIac_items (items : List Item) (hplain : ∀ i ∈ items, i.plain = true) :
    stripIac (items.flatMap Item.wire) = items.flatMap Item.text := by
  rw [stripIac_eq_output]
  induction items with
  | nil => rfl
  | cons i items ih =>
      have ih := ih fun i hmem => hplain i (List.mem_cons_of_mem _ hmem)
      rw [List.flatMap_cons, List.flatMap_cons, ← ih]
      cases i with
      | data b hb => exact output_data false hb _
      | option cmd opt hcmd => exact (output_iac false _).trans (output_option false hcmd _)
      | command cmd hcmd hsb => exact (output_iac false _).trans (output_command false hcmd hsb _)
      | subnegotiation body =>
          have hbody : iac ∉ body := by
            simpa [Item.plain] using hplain _ (List.mem_cons_self ..)
          have hwire : (Item.subnegotiation body).wire =
              iac :: sb :: (Item.doubled body ++ [iac, se]) := rfl
          rw [hwire, List.cons_append, output_iac, List.cons_append, output_sb, List.append_assoc]
          exact output_sub_body hbody _

/-- The acknowledgement of a start. -/
def okLine (pid : Nat) : Bytes := ascii "OK " ++ fmtNat 10 pid

/-- Lines of a response, each with its line end. -/
def linesText (lines : List Bytes) : Bytes := lines.flatMap (· ++ [10])

/-- A blank line or the linemode message. -/
def NoiseLine (ln : Bytes) : Prop := (10 : UInt8) ∉ ln ∧ isNoise ln = true

theorem trimSpace_ascii {b : UInt8} (hb : isAsciiSpace b = true) (s : Bytes) :
    trimSpace (b :: s) = trimSpace s := by
  have hlen : spaceLen (b :: s) = 1 := by
    simp [spaceLen, hb]
  simp only [trimSpace, List.length_cons, dropRunes, hlen]
  rfl

theorem isAsciiSpace_of_blank {b : UInt8} (hb : isBlankOrBreak b = true) : isAsciiSpace b = true := by
  simp only [isBlankOrBreak, Bool.or_eq_true, beq_iff_eq] at hb
  rcases hb with (rfl | rfl) | rfl <;> rfl

theorem isNoise_trimLeft {ln : Bytes} (h : isNoise ln = true) :
    isNoise (trimLeft isBlankOrBreak ln) = true := by
  induction ln with
  | nil => exact h
  | cons b ln ih =>
      cases hb : isBlankOrBreak b with
      | false => rwa [trimLeft_cons_of_not hb]
      | true =>
          rw [trimLeft, List.dropWhile_cons, if_pos hb]
          apply ih
          rwa [isNoise, trimSpace_ascii (isAsciiSpace_of_blank hb)] at h

/-- What `TrimLeft` leaves of noise is noise. -/
theorem trimLeft_noise {lines : List Bytes} (hnoise : ∀ ln ∈ lines, NoiseLine ln) {b : UInt8}
    (hb : isBlankOrBreak b = false) (t : Bytes) :
    ∃ lines', (∀ ln ∈ lines', NoiseLine ln) ∧
      trimLeft isBlankOrBreak (linesText lines ++ b :: t) = linesText lines' ++ b :: t := by
  induction lines with
  | nil => exact ⟨[], by simp, trimLeft_cons_of_not hb t⟩
  | cons ln lines ih =>
      obtain ⟨hlf, hln⟩ := hnoise ln (List.mem_cons_self ..)
      have hrest : ∀ ln' ∈ lines, NoiseLine ln' := fun ln' h => hnoise ln' (List.mem_cons_of_mem _ h)
      have htext : linesText (ln :: lines) ++ b :: t = ln ++ ([10] ++ (linesText lines ++ b :: t)) := by
        simp [linesText]
      rw [htext, trimLeft, List.dropWhile_append]
      split
      · -- the line is blank to its end, and trimming goes on behind it
        exact ih hrest
      · refine ⟨trimLeft isBlankOrBreak ln :: lines, ?_, by simp [linesText, trimLeft]⟩
        intro ln' hmem
        rcases List.mem_cons.mp hmem with rfl | hmem
        · exact ⟨fun h => hlf ((List.dropWhile_suffix _).subset h), isNoise_trimLeft hln⟩
        · exact hrest ln' hmem

/-- `stripLeadingNoise` takes noise lines off one by one. -/
theorem stripLeadingNoiseFrom_lines {lines : List Bytes} (hnoise : ∀ ln ∈ lines, NoiseLine ln)
    (fuel : Nat) (t : Bytes) :
    stripLeadingNoiseFrom (lines.length + fuel) (linesText lines ++ t) =
      stripLeadingNoiseFrom fuel t := by
  induction lines with
  | nil => simp [linesText]
  | cons ln lines ih =>
      obtain ⟨hlf, hln⟩ := hnoise ln (List.mem_cons_self ..)
      have hfuel : (ln :: lines).length + fuel = lines.length + fuel + 1 := by
        simp only [List.length_cons]
        omega
      have htext : linesText (ln :: lines) ++ t = ln ++ 10 :: (linesText lines ++ t) := by
        simp [linesText]
      rw [hfuel, htext, stripLeadingNoiseFrom, cut_append hlf]
      simp only [hln, if_true]
      exact ih fun ln' h => hnoise ln' (List.mem_cons_of_mem _ h)

/-- It stops at a line that says something. -/
theorem stripLeadingNoiseFrom_stop {ln : Bytes} (hlf : (10 : UInt8) ∉ ln)
    (hln : isNoise ln = false) (fuel : Nat) (rest : Bytes) :
    stripLeadingNoiseFrom fuel (ln ++ 10 :: rest) = ln ++ 10 :: rest := by
  cases fuel with
  | zero => rfl
  | succ fuel =>
      rw [stripLeadingNoiseFrom, cut_append hlf]
      simp only [hln, Bool.false_eq_true, if_false]

theorem length_le_linesText (lines : List Bytes) : lines.length ≤ (linesText lines).length := by
  induction lines with
  | nil => exact Nat.le_refl _
  | cons ln lines ih =>
      simp only [linesText, List.flatMap_cons, List.length_append, List.length_cons] at ih ⊢
      omega

theorem stripLeadingNoise_lines {lines : List Bytes} (hnoise : ∀ ln ∈ lines, NoiseLine ln)
    {ln : Bytes} (hlf : (10 : UInt8) ∉ ln) (hln : isNoise ln = false) (rest : Bytes) :
    stripLeadingNoise (linesText lines ++ (ln ++ 10 :: rest)) = ln ++ 10 :: rest := by
  have hlen := length_le_linesText lines
  obtain ⟨fuel, hfuel⟩ : ∃ fuel, (linesText lines ++ (ln ++ 10 :: rest)).length = lines.length + fuel :=
    Nat.exists_eq_add_of_le (by simp only [List.length_append]; omega)
  rw [stripLeadingNoise, hfuel, stripLeadingNoiseFrom_lines hnoise,
    stripLeadingNoiseFrom_stop hlf hln]

theorem isDigit_of_mem_dec {n : Nat} : ∀ b ∈ fmtNat 10 n, isDigit b = true := by
  refine forall_mem_fmtNat_of (by decide) ?_
  decide

theorem not_mem_okLine {b : UInt8} (hb : b ∉ ascii "OK ") (hdigit : isDigit b = false) (pid : Nat) :
    b ∉ okLine pid := by
  rw [okLine, List.mem_append, not_or]
  refine ⟨hb, ?_⟩
  intro hmem
  rw [isDigit_of_mem_dec b hmem] at hdigit
  cases hdigit

theorem isReSpace_of_isDigit {b : UInt8} (hb : isDigit b = true) : isReSpace b = false := by
  rw [Bool.eq_false_iff]
  intro hspace
  simp only [isReSpace, Bool.or_eq_true, beq_iff_eq] at hspace
  rcases hspace with (((rfl | rfl) | rfl) | rfl) | rfl <;> exact absurd hb (by decide)

theorem dec_head {n : Nat} : ∀ b ∈ (fmtNat 10 n).head?, isReSpace b = false := by
  intro b hb
  exact isReSpace_of_isDigit (isDigit_of_mem_dec b (List.mem_of_mem_head? hb))

theorem okPidRe_okLine (pid : Nat) : okPidRe.exec (okLine pid) = some ([fmtNat 10 pid], []) := by
  have hdigits : Pattern.exec [group (.run 1 isDigit)] (fmtNat 10 pid) =
      some ([fmtNat 10 pid], []) := by
    have hone : 1 ≤ (fmtNat 10 pid).length := List.length_pos_iff.mpr (fmtNat_ne_nil 10 pid)
    have hrun := Pattern.exec_run (s := []) true (isDigit_of_mem_dec (n := pid)) hone (by simp)
      (Pattern.exec_nil [])
    rwa [List.append_nil] at hrun
  have hblank : 1 ≤ ([32] : Bytes).length := Nat.le_refl 1
  have hspaces : ∀ b ∈ ([32] : Bytes), isReSpace b = true := by
    intro b hb
    rw [List.mem_singleton.mp hb]
    rfl
  have hspace := Pattern.exec_run false hspaces hblank dec_head hdigits
  rw [okPidRe, okLine, show ascii "OK " = ascii "OK" ++ [32] from rfl, List.append_assoc,
    Pattern.exec_lit]
  exact hspace

theorem isNoise_okLine (pid : Nat) : isNoise (okLine pid ++ [13]) = false := by
  obtain ⟨t, ht⟩ := trimSpace_cons (b := 79) (by decide) (by decide)
    (ascii "K " ++ fmtNat 10 pid ++ [13])
  have hline : trimSpace (okLine pid ++ [13]) = 79 :: t := ht
  rw [isNoise, hline]
  rfl

theorem okLine_trimRight (pid : Nat) : trimRight (· == 13) (okLine pid ++ [13]) = okLine pid := by
  have hcr : (13 : UInt8) ∉ okLine pid := not_mem_okLine (by decide) (by decide) pid
  rw [trimRight_concat_of (by rfl), trimRight, List.rdropWhile_eq_self_iff]
  intro hne hlast
  apply hcr
  rw [← beq_iff_eq.mp hlast]
  exact List.getLast_mem hne

/-- What the launcher sends when it starts a process: blanks and noise, the
acknowledgement, and the output of the process. -/
def launcherOutput (blanks : Nat) (noise : List Bytes) (pid : Nat) (o : Bytes) : Bytes :=
  List.replicate blanks 32 ++ linesText noise ++ (okLine pid ++ [13, 10]) ++ o

theorem parseExec_launcherOutput (blanks : Nat) {noise : List Bytes}
    (hnoise : ∀ ln ∈ noise, NoiseLine ln) {pid : Nat} (hpid : pid < 2 ^ 63) (o : Bytes) :
    parseExec (launcherOutput blanks noise pid o) = ⟨pid, o⟩ := by
  have hlf : (10 : UInt8) ∉ okLine pid ++ [13] := by
    rw [List.mem_append, not_or]
    exact ⟨not_mem_okLine (by decide) (by decide) pid, by decide⟩
  -- the acknowledgement starts with a letter
  obtain ⟨rest, hrest⟩ : ∃ rest, okLine pid ++ [13] ++ 10 :: o = 79 :: rest := ⟨_, rfl⟩
  obtain ⟨lines, hlines, htrim⟩ := trimLeft_noise hnoise (b := 79) (by decide) rest
  have hout : stripLeadingNoise (trimLeft isBlankOrBreak (launcherOutput blanks noise pid o)) =
      okLine pid ++ [13] ++ 10 :: o := by
    have htext : launcherOutput blanks noise pid o =
        List.replicate blanks 32 ++ (linesText noise ++ 79 :: rest) := by
      rw [← hrest]
      simp [launcherOutput]
    rw [htext, trimLeft_replicate_append (by decide), htrim, ← hrest,
      stripLeadingNoise_lines hlines hlf (isNoise_okLine pid)]
  have hnum : parseInt 10 (fmtNat 10 pid) = ((pid : Int), none) :=
    parseInt_fmtNat (by decide) (by decide) hpid
  rw [parseExec, hout, cut_append hlf]
  simp only [okLine_trimRight, okPidRe_okLine, hnum]

/-- A byte of a stream that is not `IAC`. -/
def asData (b : UInt8) : Option Item := if hb : b = iac then none else some (.data b hb)

namespace Client

variable {σ : Type}

/-- **The response parser inverts the launcher's output format.** When the bytes
received after the start line are the launcher's output, with complete telnet
sequences anywhere in it, `Exec` returns the process id and the output of the
process as they are, whatever the output looks like. -/
theorem exec_output_exact (P : Peer σ) {c c₁ : Client σ} {s : σ} {command out o : Bytes}
    (blanks : Nat) (noise : List Bytes) {pid : Nat} (items : List Item) (hpid : pid < 2 ^ 63)
    (henter : (enterLauncher P).run c = (none, c₁))
    (hrecv : P.recv c₁.peer (startLine command ++ [10]) = some (s, out))
    (hwire : c₁.fc.inp ++ out = items.flatMap Item.wire)
    (hplain : ∀ i ∈ items, i.plain = true)
    (hnoise : ∀ ln ∈ noise, (10 : UInt8) ∉ ln ∧ isNoise ln = true)
    (htext : items.flatMap Item.text = launcherOutput blanks noise pid o) :
    ((exec P command).run c).1 = .ok ⟨pid, o⟩ := by
  have hstart : (startShell P command).run c₁ =
      (.ok (parseExec (stripIac (c₁.fc.inp ++ out))),
        (onConn FrameConn.readUntilIdle ((c₁.received P s out).logged (startLine command))).2) := by
    rw [startShell, run_bind, writeLine_some hrecv]
    rfl
  rw [exec_entered henter, hstart, hwire, stripIac_items items hplain, htext, parseExec_launcherOutput blanks hnoise hpid]

/-- A launcher that answers every start with the bytes of `items`. -/
def startingPeer (items : List Item) : Peer Bool :=
  ⟨fun entered _ =>
    some (true, if entered then items.flatMap Item.wire else ascii "OK\r\n<qconn-launcher>"),
    fun _ => .timeout⟩

/-- The linemode message, an option offer in the acknowledgement, and an output that
starts with a blank line and looks like an acknowledgement itself. -/
def startingItems : List Item :=
  (ascii " \terror linemode-or-echo-not-supported\r\nO").filterMap asData ++
    [.option will 3 (by decide), .subnegotiation [1, 2]] ++
    (ascii "K 7\r\n\r\nOK 3\r\n").filterMap asData

theorem exec_output_exact_disguised :
    ((exec (startingPeer startingItems) (ascii "ls")).run
      ⟨⟨ascii "QCONN\r\n<qconn-broker>", .timeout, [], [], 0⟩, false, .broker, none, []⟩).1 =
      .ok ⟨7, ascii "\r\nOK 3\r\n"⟩ := by
  have hpid : 7 < 2 ^ 63 := by decide
  refine exec_output_exact (startingPeer startingItems) 1
    [ascii "\terror linemode-or-echo-not-supported\r"] startingItems hpid
    (Prod.ext ?_ rfl) rfl ?_ ?_ ?_ ?_
  · decide +kernel
  · decide +kernel
  · decide +kernel
  · decide +kernel
  · decide +kernel

end Client

end QconnMcp.Qconn
