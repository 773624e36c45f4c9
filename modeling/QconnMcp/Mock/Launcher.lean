import QconnMcp.Mock.Answers
import QconnMcp.Qconn.Launcher

/-!
# The start line at the mock daemon

`Exec` puts a command between double quotes and escapes the quotes and backslashes in
it. The mock daemon takes everything between the first quote and the last one with a
greedy pattern and hands it to its shell as it stands, so the shell gets the escaped
text (`recv_startLine`). The two sides agree on exactly the commands in which there is
nothing to escape (`shell_command_iff`). The client's own `pidin -F "…"` is not one of
them.
-/

namespace QconnMcp.Mock

open Kit Qconn

/-! ## Escaping where there is nothing to escape -/

theorem length_le_escapeArg (s : Bytes) : s.length ≤ (escapeArg s).length := by
  rw [escapeArg_eq]
  induction s with
  | nil => exact Nat.le_refl _
  | cons b s ih =>
      have hbyte : 1 ≤ (escapeByte b).length := by
        rw [escapeByte]
        split_ifs <;> simp
      rw [List.flatMap_cons, List.length_append, List.length_cons]
      omega

theorem escapeByte_eq_iff (b : UInt8) : escapeByte b = [blankBreak b] ↔ b ≠ 34 ∧ b ≠ 92 := by
  rw [escapeByte]
  by_cases hslash : b = 92
  · simp [hslash]
  · by_cases hquote : b = 34
    · simp [hquote]
    · simp [hslash, hquote]

/-- An escaped command is as long as the command only if nothing was escaped in it. -/
theorem escapeArg_eq_map_iff (s : Bytes) :
    escapeArg s = s.map blankBreak ↔ (34 : UInt8) ∉ s ∧ (92 : UInt8) ∉ s := by
  induction s with
  | nil => exact iff_of_true rfl ⟨List.not_mem_nil, List.not_mem_nil⟩
  | cons b s ih =>
      have hcons : escapeArg (b :: s) = escapeByte b ++ escapeArg s := by
        rw [escapeArg_eq, escapeArg_eq, List.flatMap_cons]
      rw [hcons, List.map_cons]
      by_cases hb : b ≠ 34 ∧ b ≠ 92
      · rw [(escapeByte_eq_iff b).mpr hb, List.singleton_append, List.cons.injEq, ih]
        simp [hb.1.symm, hb.2.symm]
      · -- one byte has become two, and no byte behind it becomes fewer
        have hlong : (escapeByte b).length = 2 := by
          rcases Classical.not_and_iff_not_or_not.mp hb with h | h
          · rw [not_not.mp h]
            rfl
          · rw [not_not.mp h]
            rfl
        refine iff_of_false ?_ ?_
        · intro h
          have hlen := congrArg List.length h
          have hrest := length_le_escapeArg s
          rw [List.length_append, List.length_cons, List.length_map] at hlen
          omega
        · rintro ⟨hquote, hslash⟩
          exact hb ⟨fun h => hquote (h ▸ List.mem_cons_self), fun h => hslash (h ▸ List.mem_cons_self)⟩

/-! ## The daemon's pattern -/

/-- The last group of the pattern runs up to the final quote. -/
theorem exec_argument {arg : Bytes} (hlf : (10 : UInt8) ∉ arg) :
    Pattern.exec [group (.run 0 (· != 10)), lit "\"", skip (.run 0 isReSpace), skip .done]
      (arg ++ (ascii "\"" ++ [])) = some ([arg], []) := by
  have harg : ∀ b ∈ arg, (b != 10) = true := by
    intro b hb
    simpa using fun h : b = 10 => hlf (h ▸ hb)
  have hend : Pattern.exec [lit "\"", skip (.run 0 isReSpace), skip .done] (ascii "\"" ++ []) =
      some ([], []) := by
    rw [Pattern.exec_lit]
    rfl
  -- the greedy run would take the quote too, but then the literal finds none
  refine Pattern.exec_run_at true harg (Nat.zero_le _) hend ?_
  intro j hj hle
  obtain rfl : j = 1 := by
    have : j ≤ 1 := hle
    omega
  rfl

theorem isReSpace_blank : ∀ b ∈ ascii " ", isReSpace b = true := by decide +kernel

/-- A blank and a word. -/
theorem exec_word {w s out : Bytes} {pat : Pattern} {caps : List Bytes} (hne : w ≠ [])
    (hw : ∀ b ∈ w, isReSpace b = false) (hs : s.head? = some 32)
    (hr : pat.exec s = some (caps, out)) :
    Pattern.exec (skip (.run 1 isReSpace) :: group (.run 1 (!isReSpace ·)) :: pat)
      (ascii " " ++ (w ++ s)) = some (w :: caps, out) := by
  have hin : ∀ b ∈ w, (!isReSpace b) = true := by
    intro b hb
    rw [hw b hb]
    rfl
  have hout : ∀ b ∈ s.head?, (!isReSpace b) = false := by
    rw [hs]
    rintro b ⟨⟩
    rfl
  have hhead : ∀ b ∈ (w ++ s).head?, isReSpace b = false := by
    obtain ⟨b, w, rfl⟩ := List.exists_cons_of_ne_nil hne
    rintro b' ⟨⟩
    exact hw b List.mem_cons_self
  exact Pattern.exec_run false isReSpace_blank (Nat.le_refl 1) hhead
    (Pattern.exec_run true hin (List.length_pos_iff.mpr hne) hout hr)

theorem exec_startRe {arg : Bytes} (hlf : (10 : UInt8) ∉ arg) :
    startRe.exec (ascii "start/flags run /bin/sh /bin/sh -c \"" ++ arg ++ ascii "\"") =
      some ([ascii "run", ascii "/bin/sh", ascii "/bin/sh", arg], []) := by
  have hline : ascii "start/flags run /bin/sh /bin/sh -c \"" ++ arg ++ ascii "\"" =
      ascii "start/flags" ++ (ascii " " ++ (ascii "run" ++ (ascii " " ++ (ascii "/bin/sh" ++
        (ascii " " ++ (ascii "/bin/sh" ++ (ascii " " ++ (ascii "-c" ++ (ascii " " ++ (ascii "\"" ++
          (arg ++ (ascii "\"" ++ [])))))))))))) := by
    rw [List.append_nil, List.append_assoc]
    rfl
  have htail := Pattern.exec_run_lit (w := "-c") false isReSpace_blank (Nat.le_refl 1) (by decide)
    (Pattern.exec_run_lit (w := "\"") false isReSpace_blank (Nat.le_refl 1) (by decide) (exec_argument hlf))
  have hrun : ∀ b ∈ ascii "run", isReSpace b = false := by decide +kernel
  have hsh : ∀ b ∈ ascii "/bin/sh", isReSpace b = false := by decide +kernel
  rw [hline, startRe, Pattern.exec_lit]
  exact exec_word (by decide) hrun rfl (exec_word (by decide) hsh rfl (exec_word (by decide) hsh rfl htail))

/-! ## What the shell is given -/

/-- A session in the launcher service. -/
def Session.atLauncher (s : Session) : Session := { s with svc := .launcher, alive := true }

/-- The shell gets the command as it was escaped, and the session ends. -/
theorem launcher_startLine (host : Host) (s : Session) (command : Bytes) :
    s.launcher host (startLine command) =
      ({ s with alive := false }, ascii "OK 8300\r\n" ++ host.runShell (escapeArg command)) := by
  have hlf : (10 : UInt8) ∉ escapeArg command := (break_not_mem_escapeArg command).2
  have hleave : ¬ (startLine command = ascii "done" ∨ startLine command = ascii "quit") := by
    simp [startLine, ascii]
  have hchdir : startLine command ≠ ascii "chdir /" := by
    simp [startLine, ascii]
  have hstart : (ascii "start/flags").isPrefixOf (startLine command) = true := rfl
  rw [Session.launcher, if_neg hleave, if_neg hchdir, if_pos hstart, startLine, exec_startRe hlf]

theorem recv_startLine (host : Host) (s : Session) (command : Bytes) :
    (mockPeer host).recv ⟨s.atLauncher, []⟩ (startLine command ++ [10]) =
      some (⟨s.atLauncher.crashed (startLine command), []⟩,
        ascii "OK 8300\r\n" ++ host.runShell (escapeArg command)) := by
  obtain ⟨hcr, hlf⟩ := break_not_mem_startLine command
  have hnot : s.atLauncher.svc ≠ .file := fun h => Service.noConfusion h
  have htrim := trimLine_eq hcr hlf
  have hpay : (serve host).payload s.atLauncher (startLine command) = 0 :=
    (serve_payload htrim).trans (payload_of_not_file hnot _)
  have hdispatch : s.atLauncher.dispatch host (startLine command) [] =
      (s.atLauncher.logged (startLine command)).launcher host (startLine command) := rfl
  rw [LineDaemon.recv_line _ rfl hlf hpay, serve_handle htrim, hdispatch, launcher_startLine]
  rfl

/-- A host whose shell prints the command it was given. -/
def echoHost : Host := { smallHost with runShell := id }

/-- The shell of every host gets the client's command with blanks for its line breaks if
and only if the command has no quote and no backslash. -/
theorem shell_command_iff (s : Session) (command : Bytes) :
    (∀ host : Host,
      ((mockPeer host).recv ⟨s.atLauncher, []⟩ (startLine command ++ [10])).map Prod.snd =
        some (ascii "OK 8300\r\n" ++ host.runShell (command.map blankBreak))) ↔
      (34 : UInt8) ∉ command ∧ (92 : UInt8) ∉ command := by
  rw [← escapeArg_eq_map_iff]
  constructor
  · intro h
    -- the host that echoes tells the two commands apart
    have hecho := h echoHost
    rw [recv_startLine, Option.map_some, Option.some.injEq, List.append_cancel_left_eq] at hecho
    exact hecho
  · intro h host
    rw [recv_startLine, Option.map_some, h]

/-- The command `ListProcesses` asks for first is run with backslashes in front of its
quotes. -/
theorem pidin_shell_escaped :
    ((mockPeer echoHost).recv ⟨Session.start.atLauncher, []⟩
        (startLine (ascii "pidin -F \"%a %b %N %p %J %B\"") ++ [10])).map Prod.snd =
      some (ascii "OK 8300\r\npidin -F \\\"%a %b %N %p %J %B\\\"") := by
  rw [recv_startLine, Option.map_some]
  decide +kernel

end QconnMcp.Mock
