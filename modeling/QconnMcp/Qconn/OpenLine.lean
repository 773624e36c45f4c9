import QconnMcp.Mock.Grammar

/-!
# Paths inside command lines

`openFile` and `Delete` splice a caller's path between two quotes of a command
line and send it, without looking at it. Everything written to the connection is
recorded (`Peer.taped`) and compared with what the file service reads from it:
one line that carries back the path, the flags and the mode.

A quote or a line feed in the path breaks this, and so does the empty path for
an open; every other path goes through.
-/

namespace QconnMcp.Qconn

open Kit

/-! ## The requirement -/

/-- Exactly one LF-terminated line. -/
def OneLine (w line : Bytes) : Prop := w = line ++ [10] ∧ (10 : UInt8) ∉ line

/-- What opening `path` may do with the connection: reject the path before
anything is sent, or send one line that the service reads back as exactly that
path, flags and mode. -/
def OpenSafe (res : Except Err FileHandle) (w path : Bytes) (flags mode : Int) : Prop :=
  (w = [] ∧ ∃ e, res = .error e) ∨
    ∃ line f m, OneLine w line ∧ Mock.parseOpen line = some (path, f, m) ∧
      parseInt 16 f = (flags, none) ∧ parseInt 16 m = (mode, none)

/-- `^d:"([^"]*)":1$`, the quoted path of a delete command. -/
def deleteRe : Pattern := [lit "d:\"", group (.run 0 (· != 34)), lit "\":1", skip .done]

def DeleteSafe (res : Option Err) (w path : Bytes) : Prop :=
  (w = [] ∧ res ≠ none) ∨ ∃ line, OneLine w line ∧ deleteRe.exec line = some ([path], [])

/-! ## What is written -/

namespace Client

variable {σ : Type} {P : Peer σ}

/-- The bytes written between two states of a client with a recorded
connection. -/
def written (c c' : Client (σ × Bytes)) : Bytes := c'.peer.2.drop c.peer.2.length

/-- The peer takes everything that is written to it. -/
def TakesAll (P : Peer σ) : Prop := ∀ s b, (P.recv s b).isSome = true

theorem written_raw (hP : TakesAll P) (c : Client (σ × Bytes)) (cmd : Bytes) :
    written c ((raw P.taped cmd).run c).2 = cmd ++ [10] := by
  obtain ⟨⟨s, out⟩, hr⟩ := Option.isSome_iff_exists.mp (hP c.peer.1 (cmd ++ [10]))
  have ht : P.taped.recv c.peer (cmd ++ [10]) = some ((s, c.peer.2 ++ (cmd ++ [10])), out) := by
    simp [Peer.taped, hr]
  rw [raw, run_bind, writeLine_some ht]
  show (c.peer.2 ++ (cmd ++ [10])).drop c.peer.2.length = _
  rw [List.drop_left]

theorem written_openFile (hP : TakesAll P) (c : Client (σ × Bytes)) (path : Bytes)
    (flags mode : Int) :
    written c ((openFile P.taped path flags mode).run c).2 = openCmd path flags mode ++ [10] := by
  have hraw := written_raw hP c (openCmd path flags mode)
  rw [openFile, run_bind]
  rcases hr : (raw P.taped (openCmd path flags mode)).run c with ⟨⟨resp, _ | e⟩, c'⟩
  · rw [hr] at hraw
    dsimp only
    split
    · exact hraw
    · exact hraw
  · rw [hr] at hraw
    exact hraw

theorem written_delete (hP : TakesAll P) {c : Client (σ × Bytes)} (hc : c.current = .file)
    (path : Bytes) : written c ((delete P.taped path).run c).2 = deleteCmd path ++ [10] := by
  have hraw := written_raw hP c (deleteCmd path)
  have hensure : (ensure P.taped .file).run c = (none, c) := by
    show (if c.current = .file then _ else _ : Act _ _).run c = _
    rw [if_pos hc]
    rfl
  rw [delete, run_bind, hensure]
  show written c ((raw P.taped (deleteCmd path) >>= _).run c).2 = _
  rw [run_bind]
  rcases hr : (raw P.taped (deleteCmd path)).run c with ⟨⟨resp, _ | e⟩, c'⟩
  · rw [hr] at hraw
    exact hraw
  · rw [hr] at hraw
    exact hraw

end Client

/-! ## Which paths go through -/

theorem oneLine_cmd {cmd line : Bytes} (h : OneLine (cmd ++ [10]) line) :
    line = cmd ∧ (10 : UInt8) ∉ cmd := by
  have hline := (List.append_cancel_right h.1).symm
  exact ⟨hline, hline ▸ h.2⟩

theorem openSafe_iff {res : Except Err FileHandle} {path : Bytes} {flags mode : Int}
    (hflags : 0 ≤ flags ∧ flags < 2 ^ 63) (hmode : 0 ≤ mode ∧ mode < 2 ^ 63) :
    OpenSafe res (openCmd path flags mode ++ [10]) path flags mode ↔
      path ≠ [] ∧ (34 : UInt8) ∉ path ∧ (10 : UInt8) ∉ path := by
  refine ⟨?_, ?_⟩
  · intro h
    rcases h with ⟨hnil, -⟩ | ⟨line, f, m, hone, hparse, -, -⟩
    · simp at hnil
    · obtain ⟨rfl, hlf⟩ := oneLine_cmd hone
      obtain ⟨hne, hquote, -⟩ := Mock.parseOpen_inv hparse
      refine ⟨hne, hquote, ?_⟩
      intro hmem
      exact hlf (by simp [openCmd, hmem])
  · intro h
    obtain ⟨hne, hquote, hlf⟩ := h
    refine .inr ⟨_, _, _, ⟨rfl, ?_⟩, Mock.parseOpen_openCmd hne hquote hflags.1 hmode.1, ?_, ?_⟩
    · simp [openCmd, ascii, hlf]
    · exact parseInt_fmtInt (by decide) (by decide) (by omega) hflags.2
    · exact parseInt_fmtInt (by decide) (by decide) (by omega) hmode.2

theorem deleteRe_path {line path : Bytes} (h : deleteRe.exec line = some ([path], [])) :
    (34 : UInt8) ∉ path := by
  obtain ⟨_, rfl, hexec⟩ := Pattern.exec_lit_inv h
  obtain ⟨_, rfl, ⟨-, hclass⟩, -⟩ := Pattern.exec_group_inv hexec
  intro hmem
  exact absurd (hclass 34 hmem) (by decide)

theorem deleteSafe_iff {res : Option Err} {path : Bytes} :
    DeleteSafe res (deleteCmd path ++ [10]) path ↔ (34 : UInt8) ∉ path ∧ (10 : UInt8) ∉ path := by
  refine ⟨?_, ?_⟩
  · intro h
    rcases h with ⟨hnil, -⟩ | ⟨line, hone, hexec⟩
    · simp at hnil
    · obtain ⟨rfl, hlf⟩ := oneLine_cmd hone
      refine ⟨deleteRe_path hexec, ?_⟩
      intro hmem
      exact hlf (by simp [deleteCmd, hmem])
  · intro h
    obtain ⟨hquote, hlf⟩ := h
    have hpath : ∀ b ∈ path, (b != 34) = true := by
      intro b hb
      simpa using fun h : b = 34 => hquote (h ▸ hb)
    refine .inr ⟨_, ⟨rfl, ?_⟩, ?_⟩
    · simp [deleteCmd, ascii, hlf]
    · simp only [deleteCmd, List.append_assoc, deleteRe]
      rw [Pattern.exec_lit]
      have hexec := Pattern.exec_run_lit (w := "\":1") true hpath (Nat.zero_le path.length)
        (by decide) (Pattern.exec_done false [])
      rw [List.append_nil] at hexec
      exact hexec

/-- On any connection that takes what is written, opening a path meets the
requirement exactly when the path is not empty and has no quote and no line
feed, and deleting it exactly when it has no quote and no line feed. -/
theorem path_lines_iff {σ : Type} {P : Peer σ} (hP : Client.TakesAll P)
    {c : Client (σ × Bytes)} (hc : c.current = .file) (path : Bytes) {flags mode : Int}
    (hflags : 0 ≤ flags ∧ flags < 2 ^ 63) (hmode : 0 ≤ mode ∧ mode < 2 ^ 63) :
    (OpenSafe ((Client.openFile P.taped path flags mode).run c).1
        (Client.written c ((Client.openFile P.taped path flags mode).run c).2) path flags mode ↔
      path ≠ [] ∧ (34 : UInt8) ∉ path ∧ (10 : UInt8) ∉ path) ∧
    (DeleteSafe ((Client.delete P.taped path).run c).1
        (Client.written c ((Client.delete P.taped path).run c).2) path ↔
      (34 : UInt8) ∉ path ∧ (10 : UInt8) ∉ path) := by
  rw [Client.written_openFile hP, Client.written_delete hP hc]
  exact ⟨openSafe_iff hflags hmode, deleteSafe_iff⟩

/-- A peer that takes everything and never answers. -/
def mutePeer : Peer Unit := ⟨fun _ _ => some ((), []), fun _ => .timeout⟩

/-- A client in the file service, with an empty recording. -/
def muteClient : Client (Unit × Bytes) := ⟨⟨[], .timeout, [], [], 0⟩, ((), []), .file, none, []⟩

theorem path_lines_plain :
    OpenSafe ((Client.openFile mutePeer.taped (ascii "/tmp/a b") 0x301 0o666).run muteClient).1
        (Client.written muteClient
          ((Client.openFile mutePeer.taped (ascii "/tmp/a b") 0x301 0o666).run muteClient).2)
        (ascii "/tmp/a b") 0x301 0o666 ∧
      DeleteSafe ((Client.delete mutePeer.taped (ascii "/tmp/a b")).run muteClient).1
        (Client.written muteClient
          ((Client.delete mutePeer.taped (ascii "/tmp/a b")).run muteClient).2)
        (ascii "/tmp/a b") := by
  have h := path_lines_iff (P := mutePeer) (fun _ _ => rfl) (c := muteClient) rfl
    (ascii "/tmp/a b") (by decide : (0 : Int) ≤ 0x301 ∧ (0x301 : Int) < 2 ^ 63)
    (by decide : (0 : Int) ≤ 0o666 ∧ (0o666 : Int) < 2 ^ 63)
  exact ⟨h.1.mpr (by decide), h.2.mpr (by decide)⟩

/-- A path that closes its quote and goes on with commands of its own: one open
sends a delete along, and one delete becomes two. -/
theorem path_lines_injected :
    Client.written muteClient ((Client.openFile mutePeer.taped
        (ascii "x\":0:0\nd:\"/etc/passwd\":1\no:\"x") 0 0).run muteClient).2 =
      ascii "o:\"x\":0:0\n" ++ ascii "d:\"/etc/passwd\":1\n" ++ ascii "o:\"x\":0:0\n" ∧
    ¬ OpenSafe ((Client.openFile mutePeer.taped
          (ascii "x\":0:0\nd:\"/etc/passwd\":1\no:\"x") 0 0).run muteClient).1
        (Client.written muteClient ((Client.openFile mutePeer.taped
          (ascii "x\":0:0\nd:\"/etc/passwd\":1\no:\"x") 0 0).run muteClient).2)
        (ascii "x\":0:0\nd:\"/etc/passwd\":1\no:\"x") 0 0 ∧
    Client.written muteClient
        ((Client.delete mutePeer.taped (ascii "a\":1\nd:\"b")).run muteClient).2 =
      ascii "d:\"a\":1\n" ++ ascii "d:\"b\":1\n" := by
  refine ⟨?_, ?_, ?_⟩
  · rw [Client.written_openFile fun _ _ => rfl]
    decide
  · rw [Client.written_openFile fun _ _ => rfl, openSafe_iff (by decide) (by decide)]
    decide
  · rw [Client.written_delete (fun _ _ => rfl) rfl]
    decide

end QconnMcp.Qconn
