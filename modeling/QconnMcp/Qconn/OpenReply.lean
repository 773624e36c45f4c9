import QconnMcp.Qconn.Answer

/-!
# Answers to an open command

`openFile` takes the handle from the first line of the answer. The pattern it uses
admits more than the answers it is for: a field may be any text of hexadecimal digits
and dashes, and anything may follow the last quote. The errors of the integer parser
are dropped, so such a field comes out as zero or as a limit of 64 bits.

`OpenForm` is what the pattern admits (`parseOpen_eq_some_iff`); `openFile_exact_iff`
says for which answers the handle is what the line says.
-/

namespace QconnMcp.Qconn

open Kit

/-! ## What the pattern admits -/

theorem forall_mem_fields {p : Bytes → Prop} {fd mode size : Bytes} :
    (∀ f ∈ [fd, mode, size], p f) ↔ p fd ∧ p mode ∧ p size := by
  simp

structure OpenForm where
  fd : Bytes
  mode : Bytes
  size : Bytes
  path : Bytes
  tail : Bytes
  fields : ∀ f ∈ [fd, mode, size], f ≠ [] ∧ ∀ b ∈ f, isHexOrDash b = true
  path_ne : path ≠ []
  /-- The path ends at the last quote. -/
  last_quote : (34 : UInt8) ∉ tail

namespace OpenForm

def line (f : OpenForm) : Bytes :=
  ascii "o:" ++ (f.fd ++ (ascii ":" ++ (f.mode ++ (ascii ":" ++ (f.size ++ (ascii ":\"" ++
    (f.path ++ (ascii "\"" ++ f.tail))))))))

/-- The handle that is returned: the errors of `ParseInt` are dropped. -/
def handle (f : OpenForm) : FileHandle :=
  ⟨(parseInt 16 f.fd).1, (parseInt 16 f.mode).1, (parseInt 16 f.size).1, f.path⟩

theorem exec_line (f : OpenForm) (hlf : (10 : UInt8) ∉ f.line) :
    openRe.exec f.line = some ([f.fd, f.mode, f.size, f.path], f.tail) := by
  have hpath : (10 : UInt8) ∉ f.path := by
    intro h
    exact hlf (by simp [line, h])
  have hfield : ∀ g ∈ [f.fd, f.mode, f.size], 1 ≤ g.length ∧ ∀ b ∈ g, isHexOrDash b = true :=
    fun g hg => ⟨List.length_pos_iff.mpr (f.fields g hg).1, (f.fields g hg).2⟩
  obtain ⟨⟨hfd, hfd'⟩, ⟨hmode, hmode'⟩, hsize, hsize'⟩ := forall_mem_fields.mp hfield
  rw [line, openRe, Pattern.exec_lit]
  exact Pattern.exec_run_lit true hfd' hfd (by decide)
    (Pattern.exec_run_lit true hmode' hmode (by decide)
      (Pattern.exec_run_lit true hsize' hsize (by decide)
        (exec_quoted f.path_ne hpath f.last_quote)))

theorem parseOpen_line (f : OpenForm) (hlf : (10 : UInt8) ∉ f.line) :
    parseOpen f.line = some f.handle := by
  rw [parseOpen, f.exec_line hlf]
  rfl

end OpenForm

/-- What matches has the form, the path reaching up to the last quote. -/
theorem exec_openRe_inv {line fd mode size path tail : Bytes} (hlf : (10 : UInt8) ∉ line)
    (h : openRe.exec line = some ([fd, mode, size, path], tail)) :
    ∃ f : OpenForm, line = f.line ∧ f.fd = fd ∧ f.mode = mode ∧ f.size = size ∧ f.path = path := by
  obtain ⟨s₁, rfl, h₁⟩ := Pattern.exec_lit_inv h
  obtain ⟨s₂, rfl, hfd, h₂⟩ := Pattern.exec_group_inv h₁
  obtain ⟨s₃, rfl, h₃⟩ := Pattern.exec_lit_inv h₂
  obtain ⟨s₄, rfl, hmode, h₄⟩ := Pattern.exec_group_inv h₃
  obtain ⟨s₅, rfl, h₅⟩ := Pattern.exec_lit_inv h₄
  obtain ⟨s₆, rfl, hsize, h₆⟩ := Pattern.exec_group_inv h₅
  obtain ⟨s₇, rfl, h₇⟩ := Pattern.exec_lit_inv h₆
  obtain ⟨s₈, hs₇, hpath, h₈⟩ := Pattern.exec_group_inv h₇
  obtain ⟨s₉, hs₈, h₉⟩ := Pattern.exec_lit_inv h₈
  -- the match is greedy, so it ends at the last quote and not at the one found here
  have hmem : (34 : UInt8) ∈ s₇ := by
    rw [hs₇, hs₈]
    simp [ascii]
  obtain ⟨p, t, hlast, ht⟩ := exists_last hmem
  have hp : p ≠ [] := by
    rintro rfl
    -- the first byte of the path would be the last quote, with another one behind it
    obtain ⟨x, path', rfl⟩ := List.exists_cons_of_ne_nil (List.length_pos_iff.mp hpath.1)
    rw [hs₇, hs₈, List.nil_append, List.cons_append] at hlast
    have htail := (List.cons.inj hlast).2
    exact ht (by rw [← htail]; simp [ascii])
  have hplf : (10 : UInt8) ∉ p := by
    intro hmem'
    exact hlf (by simp [hlast, hmem'])
  have hquoted : Pattern.exec [group (.run 1 (· != 10)), lit "\""] s₇ = some ([p], t) := by
    rw [hlast]
    exact exec_quoted hp hplf ht
  rw [hquoted] at h₇
  obtain ⟨rfl, rfl⟩ : p = path ∧ t = tail := by simpa using h₇
  have hfields : ∀ f ∈ [fd, mode, size], f ≠ [] ∧ ∀ b ∈ f, isHexOrDash b = true :=
    forall_mem_fields.mpr ⟨⟨List.length_pos_iff.mp hfd.1, hfd.2⟩,
      ⟨List.length_pos_iff.mp hmode.1, hmode.2⟩, ⟨List.length_pos_iff.mp hsize.1, hsize.2⟩⟩
  refine ⟨⟨fd, mode, size, p, t, hfields, hp, ht⟩, ?_, rfl, rfl, rfl, rfl⟩
  rw [OpenForm.line, hlast]
  rfl

theorem parseOpen_eq_some_iff {line : Bytes} (hlf : (10 : UInt8) ∉ line) (h : FileHandle) :
    parseOpen line = some h ↔ ∃ f : OpenForm, line = f.line ∧ h = f.handle := by
  constructor
  · intro hparse
    unfold parseOpen at hparse
    split at hparse
    · rename_i fd mode size path tail hexec
      obtain ⟨f, hline, rfl, rfl, rfl, rfl⟩ := exec_openRe_inv hlf hexec
      exact ⟨f, hline, (Option.some.inj hparse).symm⟩
    · cases hparse
  · rintro ⟨f, rfl, rfl⟩
    exact f.parseOpen_line hlf

/-! ## What the line says -/

/-- The line is an answer to an open command, with the numbers and the path of `h`. -/
def StatesHandle (line : Bytes) (h : FileHandle) : Prop :=
  ∃ fd mode size : Bytes,
    line = ascii "o:" ++ fd ++ ascii ":" ++ mode ++ ascii ":" ++ size ++ ascii ":\"" ++ h.path ++
      ascii "\"" ∧
    HexInt fd h.fd ∧ HexInt mode h.mode ∧ HexInt size h.size

/-- Each field is an integer of 64 bits, and nothing follows the path. -/
structure OpenForm.Exact (f : OpenForm) : Prop where
  fields : ∀ g ∈ [f.fd, f.mode, f.size], ∃ i, HexInt g i
  tail : f.tail = []

theorem isHexOrDash_of_hexInt {s : Bytes} {i : Int} (h : HexInt s i) :
    s ≠ [] ∧ ∀ b ∈ s, isHexOrDash b = true := by
  obtain ⟨-, -, digits, hne, hdigits, hs⟩ := h
  have hclass : ∀ b ∈ digits, isHexOrDash b = true := by
    intro b hb
    simp [isHexOrDash, hdigits b hb]
  rcases hs with ⟨rfl, -⟩ | ⟨rfl, -⟩
  · exact ⟨hne, hclass⟩
  · refine ⟨List.cons_ne_nil _ _, ?_⟩
    intro b hb
    rcases List.mem_cons.mp hb with rfl | hb
    · rfl
    · exact hclass b hb

theorem OpenForm.Exact.states {f : OpenForm} (h : f.Exact) : StatesHandle f.line f.handle := by
  have hvalue : ∀ g ∈ [f.fd, f.mode, f.size], HexInt g (parseInt 16 g).1 := by
    intro g hg
    obtain ⟨i, hi⟩ := h.fields g hg
    rw [parseInt_of_hexInt hi]
    exact hi
  refine ⟨f.fd, f.mode, f.size, ?_, forall_mem_fields.mp hvalue⟩
  rw [OpenForm.line, h.tail, List.append_nil]
  simp only [List.append_assoc]
  rfl

/-- A line that says a handle has the form in one way only. -/
theorem OpenForm.exact_of_states {f : OpenForm} (hlf : (10 : UInt8) ∉ f.line) {h : FileHandle}
    (hpath : h.path ≠ []) (hstates : StatesHandle f.line h) : f.Exact := by
  obtain ⟨fd, mode, size, hline, hfd, hmode, hsize⟩ := hstates
  have hfields : ∀ g ∈ [fd, mode, size], g ≠ [] ∧ ∀ b ∈ g, isHexOrDash b = true :=
    forall_mem_fields.mpr ⟨isHexOrDash_of_hexInt hfd, isHexOrDash_of_hexInt hmode,
      isHexOrDash_of_hexInt hsize⟩
  have hform : f.line =
      (⟨fd, mode, size, h.path, [], hfields, hpath, List.not_mem_nil⟩ : OpenForm).line := by
    rw [hline, OpenForm.line, List.append_nil]
    simp only [List.append_assoc]
  have hexec := f.exec_line hlf
  rw [hform, OpenForm.exec_line _ (hform ▸ hlf)] at hexec
  simp only [Option.some.injEq, Prod.mk.injEq, List.cons.injEq, and_true] at hexec
  obtain ⟨⟨hfd', hmode', hsize', -⟩, htail⟩ := hexec
  refine ⟨?_, htail.symm⟩
  rw [← hfd', ← hmode', ← hsize']
  exact forall_mem_fields.mpr ⟨⟨_, hfd⟩, ⟨_, hmode⟩, ⟨_, hsize⟩⟩

/-- The handle parsed from a line is what the line says exactly when the line, where it
has the form at all, has numbers in its fields and nothing behind its path. -/
theorem parseOpen_states_iff {line : Bytes} (hlf : (10 : UInt8) ∉ line) :
    (∀ h, parseOpen line = some h → StatesHandle line h) ↔
      ∀ f : OpenForm, line = f.line → f.Exact := by
  constructor
  · rintro hstates f rfl
    exact f.exact_of_states hlf f.path_ne (hstates _ (f.parseOpen_line hlf))
  · intro hexact h hparse
    obtain ⟨f, rfl, rfl⟩ := (parseOpen_eq_some_iff hlf h).mp hparse
    exact (hexact f rfl).states

/-! ## Opening a file -/

theorem lf_not_mem_firstLine (s : Bytes) : (10 : UInt8) ∉ firstLine s := by
  rw [firstLine]
  cases hfind : ((s.splitOn 10).map (trimRight (· == 13))).find? fun ln => !isNoise ln with
  | none => exact List.not_mem_nil
  | some ln =>
      obtain ⟨x, hx, rfl⟩ := List.mem_map.mp (List.mem_of_find?_eq_some hfind)
      intro hmem
      exact not_mem_of_mem_splitOn hx ((List.rdropWhile_prefix _ x).subset hmem)

namespace Client

variable {σ : Type} (P : Peer σ) (c : Client σ)

/-- The answer to a command, unless `raw` reports an error. -/
def answer? (cmd : Bytes) : Option Bytes :=
  match ((raw P cmd).run c).1 with
  | (resp, none) => some resp
  | (_, some _) => none

theorem openFile_eq_ok_iff (path : Bytes) (flags mode : Int) (h : FileHandle) :
    ((openFile P path flags mode).run c).1 = .ok h ↔
      ∃ resp, c.answer? P (openCmd path flags mode) = some resp ∧
        parseOpen (firstLine resp) = some h := by
  rw [openFile, run_bind, answer?]
  rcases ((raw P (openCmd path flags mode)).run c).1 with ⟨resp, _ | e⟩
  · simp only [Option.some.injEq, exists_eq_left']
    cases parseOpen (firstLine resp) with
    | none => exact iff_of_false nofun nofun
    | some h' =>
        show Except.ok h' = Except.ok h ↔ _
        rw [Except.ok.injEq, Option.some.injEq]
  · exact iff_of_false nofun nofun

end Client

/-- **Parsed exactly, where the fields are numbers.** On any connection, whatever is
answered: the handle that `openFile` returns is what the first line of the answer says
exactly when that line, where it has the form at all, has three hexadecimal integers of
64 bits in its fields and ends with its path. -/
theorem openFile_exact_iff {σ : Type} (P : Peer σ) (c : Client σ) (path : Bytes)
    (flags mode : Int) :
    (∀ h, ((Client.openFile P path flags mode).run c).1 = .ok h →
        ∃ resp, c.answer? P (openCmd path flags mode) = some resp ∧ StatesHandle (firstLine resp) h) ↔
      ∀ resp, c.answer? P (openCmd path flags mode) = some resp →
        ∀ f : OpenForm, firstLine resp = f.line → f.Exact := by
  constructor
  · intro hstates resp hresp
    refine (parseOpen_states_iff (lf_not_mem_firstLine resp)).mp ?_
    intro h hparse
    obtain ⟨resp', hresp', hstate⟩ :=
      hstates h ((Client.openFile_eq_ok_iff P c path flags mode h).mpr ⟨resp, hresp, hparse⟩)
    rw [hresp] at hresp'
    cases hresp'
    exact hstate
  · intro hexact h hopen
    obtain ⟨resp, hresp, hparse⟩ := (Client.openFile_eq_ok_iff P c path flags mode h).mp hopen
    exact ⟨resp, hresp,
      (parseOpen_states_iff (lf_not_mem_firstLine resp)).mpr (hexact resp hresp) h hparse⟩

/-- A target that answers every line alike. -/
def answering (out : Bytes) : Peer Unit := ⟨fun _ _ => some ((), out), fun _ => .timeout⟩

/-- A lone dash makes descriptor zero, and a value beyond 64 bits the largest size. -/
theorem openFile_substitutes :
    let line := ascii "o:-:81b4:8000000000000000:\"/f\""
    let c : Client Unit := ⟨⟨[], .timeout, [], [], 1⟩, (), .file, none, []⟩
    let h : FileHandle := ⟨0, 0x81b4, 2 ^ 63 - 1, ascii "/f"⟩
    let P := answering (line ++ ascii "\r\n<qconn-file> ")
    ((Client.openFile P (ascii "/f") 0 0).run c).1 = .ok h ∧
      (c.answer? P (openCmd (ascii "/f") 0 0)).map firstLine = some line ∧
      ¬ StatesHandle line h := by
  intro line c h P
  refine ⟨by decide +kernel, by decide +kernel, ?_⟩
  intro hstates
  let f : OpenForm := ⟨ascii "-", ascii "81b4", ascii "8000000000000000", ascii "/f", [],
    by decide +kernel, List.cons_ne_nil _ _, List.not_mem_nil⟩
  have hline : line = f.line := by decide
  rw [hline] at hstates
  have hexact : f.Exact := f.exact_of_states (by decide) (List.cons_ne_nil _ _) hstates
  obtain ⟨i, -, -, digits, hne, hdigits, ⟨hs, -⟩ | ⟨hs, -⟩⟩ := hexact.fields f.fd List.mem_cons_self
  · exact absurd (hdigits 45 (by rw [← hs]; decide)) (by decide)
  · exact hne (List.cons.inj hs).2.symm

end QconnMcp.Qconn
