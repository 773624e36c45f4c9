import QconnMcp.Qconn.Telnet

/-!
# What the prompt-synchronised read returns

`readUntilPrompt` tries its pattern only after `>`, blank and LF, and only from
a moving index. Here it is shown to find the first prompt of the data whatever
the length of the text (`readUntilPrompt_found`), and to run to the end of the
input when the data holds none (`readUntilPrompt_missing`). The invariant is
that the text so far holds no prompt and that the index stays 64 bytes behind
the end, where no prompt is longer than 16.
-/

namespace QconnMcp.Qconn

open Kit

/-- The texts that end a response. -/
def prompts : List Bytes := serviceNames.map fun s => ascii "<qconn-" ++ s ++ ascii ">"

/-- No prompt occurs in the text. -/
def NoPrompt (t : Bytes) : Prop := ∀ p ∈ prompts, ¬ p <:+: t

instance (t : Bytes) : Decidable (NoPrompt t) :=
  inferInstanceAs (Decidable (∀ p ∈ prompts, ¬ p <:+: t))

/-! ## The shape of a prompt -/

theorem prompt_concat {p : Bytes} (hp : p ∈ prompts) : ∃ q, p = q ++ [62] ∧ (62 : UInt8) ∉ q := by
  have : ∀ p ∈ prompts, p = p.dropLast ++ [62] ∧ (62 : UInt8) ∉ p.dropLast := by decide
  exact ⟨_, this p hp⟩

theorem prompt_length {p : Bytes} (hp : p ∈ prompts) : p.length ≤ 16 := by
  revert p
  decide

theorem prompt_suffix_eq {p q : Bytes} (hp : p ∈ prompts) (hq : q ∈ prompts) (h : p <:+ q) :
    p = q := by
  have : ∀ p ∈ prompts, ∀ q ∈ prompts, p <:+ q → p = q := by decide
  exact this p hp q hq h

/-- The bytes a prompt is made of: no `IAC`, blank, CR, LF or quote. -/
theorem prompt_bytes {p : Bytes} (hp : p ∈ prompts) :
    iac ∉ p ∧ (32 : UInt8) ∉ p ∧ (13 : UInt8) ∉ p ∧ (10 : UInt8) ∉ p ∧ (34 : UInt8) ∉ p := by
  revert p
  decide

theorem prompt_ne_nil {p : Bytes} (hp : p ∈ prompts) : p ≠ [] := by
  obtain ⟨q, rfl, -⟩ := prompt_concat hp
  simp

theorem isSome_promptRe {s : Bytes} :
    (promptRe.exec s).isSome ↔ ∃ p ∈ prompts, ∃ ws, s = p ++ ws ∧ ∀ b ∈ ws, isReSpace b = true := by
  simp only [promptRe, Pattern.isSome_exec_cons, lit, group, skip, Atom.Accepts, Pattern.exec_nil,
    List.mem_singleton, Option.isSome_some, and_true]
  refine ⟨?_, ?_⟩
  · intro h
    obtain ⟨_, _, rfl, rfl, name, _, rfl, hname, _, _, rfl, rfl, ws, _, rfl, ⟨-, hws⟩, _, _, rfl,
      rfl, rfl⟩ := h
    refine ⟨_, List.mem_map_of_mem hname, ws, ?_, hws⟩
    simp
  · intro h
    obtain ⟨p, hp, ws, rfl, hws⟩ := h
    obtain ⟨name, hname, rfl⟩ := List.mem_map.mp hp
    refine ⟨_, name ++ (ascii ">" ++ ws), ?_, rfl, name, ascii ">" ++ ws, rfl, hname, _, ws, rfl,
      rfl, ws, [], ?_, ⟨Nat.zero_le _, hws⟩, [], [], rfl, rfl, rfl⟩
    · simp
    · simp

/-! ## Searching the text read so far -/

theorem noPrompt_nil : NoPrompt [] := by
  intro p hp h
  exact prompt_ne_nil hp (List.infix_nil.mp h)

/-- Every prompt starts with `<`. -/
theorem noPrompt_of_no_lt {t : Bytes} (ht : (60 : UInt8) ∉ t) : NoPrompt t := by
  have hlt : ∀ p ∈ prompts, (60 : UInt8) ∈ p := by decide
  intro p hp h
  exact ht (h.subset (hlt p hp))

theorem NoPrompt.of_isInfix {s t : Bytes} (ht : NoPrompt t) (h : s <:+: t) : NoPrompt s :=
  fun p hp hs => ht p hp (hs.trans h)

/-- Text joined by a byte that no prompt holds. -/
theorem NoPrompt.join {b : UInt8} (hb : ∀ p ∈ prompts, b ∉ p) {s t : Bytes} (hs : NoPrompt s)
    (ht : NoPrompt t) : NoPrompt (s ++ b :: t) := by
  intro p hp h
  rcases (infix_append_cons (hb p hp) s t).mp h with h | h
  · exact hs p hp h
  · exact ht p hp h

theorem index_of_noPrompt {s : Bytes} (h : NoPrompt s) (k : Nat) :
    promptRe.index (s.drop k) = none := by
  apply Pattern.index_eq_none
  intro j _
  rw [← Option.not_isSome_iff_eq_none, isSome_promptRe]
  intro hsome
  obtain ⟨p, hp, ws, he, -⟩ := hsome
  refine h p hp ?_
  have hsuf : (s.drop k).drop j <:+ s := (List.drop_suffix _ _).trans (List.drop_suffix _ _)
  rw [he] at hsuf
  exact (List.prefix_append p ws).isInfix.trans hsuf.isInfix

/-- Once a prompt has just been completed, the search finds its start. -/
theorem index_of_prompt {t p : Bytes} (hp : p ∈ prompts) {scan : Nat} (hscan : scan ≤ t.length) :
    promptRe.index ((t ++ p).drop scan) = some (t.length - scan) := by
  rw [Pattern.index_eq_some]
  refine ⟨?_, ?_, ?_⟩
  · simp only [List.length_drop, List.length_append]
    omega
  · rw [List.drop_drop, show scan + (t.length - scan) = t.length by omega, List.drop_left,
      isSome_promptRe]
    exact ⟨p, hp, [], by simp, by simp⟩
  · -- an earlier match would run to the end of the text, so it would end in `p` itself
    intro j hj
    rw [← Option.not_isSome_iff_eq_none, List.drop_drop, List.drop_append_of_le_length (by omega),
      isSome_promptRe]
    intro hsome
    obtain ⟨q, hq, ws, he, hws⟩ := hsome
    obtain ⟨p', hp', -⟩ := prompt_concat hp
    rcases List.eq_nil_or_concat ws with rfl | ⟨ws', b, rfl⟩
    · rw [List.append_nil] at he
      have hsuf : p <:+ q := ⟨_, he⟩
      have hlen := congrArg List.length he
      rw [prompt_suffix_eq hp hq hsuf, List.length_append, List.length_drop] at hlen
      omega
    · have hlast := congrArg List.getLast? he
      rw [hp'] at hlast
      simp only [List.concat_eq_append, ← List.append_assoc, List.getLast?_concat,
        Option.some.injEq] at hlast
      have hsp := hws b (by simp)
      rw [← hlast] at hsp
      exact absurd hsp (by decide)

/-- Up to the last byte of the first prompt the text holds no prompt. -/
theorem noPrompt_of_proper {t p x y : Bytes} (hp : p ∈ prompts) (ht : NoPrompt t)
    (h : x ++ y = t ++ p) (hy : y ≠ []) : NoPrompt x := by
  obtain ⟨q, rfl, hq⟩ := prompt_concat hp
  -- `x` is a prefix of `t ++ q`, where `q` holds no `>`
  have hx : x <+: t ++ q := by
    rcases List.eq_nil_or_concat y with rfl | ⟨y', b, rfl⟩
    · exact absurd rfl hy
    · rw [List.concat_eq_append, ← List.append_assoc, ← List.append_assoc] at h
      exact ⟨y', List.append_inj_left' h rfl⟩
  intro w hw hin
  have hin' : w <:+: t ++ q := hin.trans hx.isInfix
  obtain ⟨w', rfl, -⟩ := prompt_concat hw
  clear h hx hp
  induction q using List.reverseRecOn with
  | nil => exact ht _ hw (by simpa using hin')
  | append_singleton q c ih =>
      rw [← List.append_assoc, List.infix_concat_iff] at hin'
      rcases hin' with hsuf | hin'
      · obtain ⟨z, hz⟩ := hsuf
        rw [← List.append_assoc] at hz
        have hc := List.append_inj_right' hz rfl
        simp only [List.cons.injEq, and_true] at hc
        simp [← hc] at hq
      · exact ih (fun hmem => hq (by simp [hmem])) hin'

/-! ## Leading blanks -/

theorem pulls_blanks (i : Nat) (w : Bytes) :
    Pulls (List.replicate i 32 ++ w) (List.replicate i 32) w [] := by
  apply Pulls.of_clean
  intro h
  exact absurd (List.eq_of_mem_replicate h) (by decide)

theorem noPrompt_blanks {t : Bytes} (ht : NoPrompt t) (i : Nat) :
    NoPrompt (List.replicate i 32 ++ t) := by
  induction i with
  | zero => simpa using ht
  | succ i ih =>
      rw [List.replicate_succ, List.cons_append]
      exact noPrompt_nil.join (fun p hp => (prompt_bytes hp).2.1) ih

/-! ## The read loop -/

namespace FrameConn

theorem advance_advance (f : FrameConn) (v r v' r' : Bytes) :
    (f.advance v r).advance v' r' = f.advance v' (r ++ r') := by
  simp [advance]

@[simp] theorem advance_inp (f : FrameConn) (v r : Bytes) : (f.advance v r).inp = v := rfl

@[simp] theorem advance_fin (f : FrameConn) (v r : Bytes) : (f.advance v r).fin = f.fin := rfl

theorem readByte_some {f : FrameConn} {u v r : Bytes} {b : UInt8} (hu : f.inp = u)
    (h : pull u = (some b, v, r)) : f.readByte = (some b, f.advance v r) := by
  subst hu
  unfold pull at h
  simp only [readByte, h]

theorem readByte_none {f : FrameConn} {u v r : Bytes} (hu : f.inp = u)
    (h : pull u = (none, v, r)) : f.readByte = (none, f.advance v r) := by
  subst hu
  unfold pull at h
  simp only [readByte, h]

theorem readToEndFrom_pulls {u d v r r' : Bytes} (h : Pulls u d v r)
    (hend : pull v = (none, [], r')) :
    ∀ (fuel : Nat) (f : FrameConn), f.inp = u → u.length < fuel →
      f.readToEndFrom fuel = (d, f.advance [] (r ++ r')) := by
  induction h with
  | nil u =>
      intro fuel f hu hfuel
      obtain ⟨fuel, rfl⟩ : ∃ n, fuel = n + 1 := ⟨fuel - 1, by omega⟩
      simp only [readToEndFrom, readByte_none hu hend, List.nil_append]
  | @cons u v w d r s b hp _ ih =>
      intro fuel f hu hfuel
      have hv := pull_length hp
      obtain ⟨fuel, rfl⟩ : ∃ n, fuel = n + 1 := ⟨fuel - 1, by omega⟩
      have hrest := ih hend fuel (f.advance v r) rfl (by omega)
      simp only [readToEndFrom, readByte_some hu hp, hrest, advance_advance, List.append_assoc]

/-- Reading to the end delivers the data up to where the input holds none. -/
theorem readToEnd_pulls {f : FrameConn} {d v r r' : Bytes} (h : Pulls f.inp d v r)
    (hend : pull v = (none, [], r')) : f.readToEnd = (d, f.advance [] (r ++ r')) :=
  readToEndFrom_pulls h hend _ f rfl (by omega)

/-- The connection behind a prompt. -/
def afterPrompt (f : FrameConn) (v r : Bytes) : FrameConn :=
  { f.advance v r with promptsRead := f.promptsRead + 1 }.swallow

/-- The rescan index trails the end of the text by at least 64 bytes. -/
def ScanOk (acc : Bytes) (scan : Nat) : Prop := scan = 0 ∨ scan + 64 ≤ acc.length

theorem ScanOk.next {acc : Bytes} {scan : Nat} (h : ScanOk acc scan) (b : UInt8) :
    ScanOk (acc ++ [b])
      (if 256 < (acc ++ [b]).length then (acc ++ [b]).length - 64 else scan) := by
  unfold ScanOk at h ⊢
  simp only [List.length_append, List.length_singleton]
  split <;> omega

theorem ScanOk.grow {acc : Bytes} {scan : Nat} (h : ScanOk acc scan) (b : UInt8) :
    ScanOk (acc ++ [b]) scan := by
  unfold ScanOk at h ⊢
  simp only [List.length_append, List.length_singleton]
  omega

/-- One turn of the loop on a byte that leaves the text without a prompt. -/
theorem readUntilPromptFrom_step {f : FrameConn} {u v r acc : Bytes} {b : UInt8} {scan : Nat}
    (hu : f.inp = u) (hpull : pull u = (some b, v, r)) (hscan : ScanOk acc scan)
    (hacc : NoPrompt (acc ++ [b])) (fuel : Nat) :
    ∃ scan', ScanOk (acc ++ [b]) scan' ∧
      f.readUntilPromptFrom (fuel + 1) acc scan =
        (f.advance v r).readUntilPromptFrom fuel (acc ++ [b]) scan' := by
  by_cases htrig : b = 62 ∨ b = 32 ∨ b = 10
  · refine ⟨_, hscan.next b, ?_⟩
    simp only [readUntilPromptFrom, readByte_some hu hpull, if_pos htrig,
      index_of_noPrompt hacc scan]
  · refine ⟨scan, hscan.grow b, ?_⟩
    simp only [readUntilPromptFrom, readByte_some hu hpull, if_neg htrig]

/-- The turn that completes a prompt. -/
theorem readUntilPromptFrom_last {f : FrameConn} {u v r acc t p : Bytes} {b : UInt8} {scan : Nat}
    (hu : f.inp = u) (hpull : pull u = (some b, v, r)) (hscan : ScanOk acc scan)
    (hp : p ∈ prompts) (hacc : acc ++ [b] = t ++ p) (fuel : Nat) :
    f.readUntilPromptFrom (fuel + 1) acc scan =
      ((trimLeft (· == 32) t, none), f.afterPrompt v r) := by
  obtain ⟨q, hq, -⟩ := prompt_concat hp
  have hb : b = 62 := by
    rw [hq, ← List.append_assoc] at hacc
    simpa using List.append_inj_right' hacc rfl
  have hlen : acc.length + 1 = t.length + p.length := by
    simpa using congrArg List.length hacc
  have hle : scan ≤ t.length := by
    have := prompt_length hp
    unfold ScanOk at hscan
    omega
  simp only [readUntilPromptFrom, readByte_some hu hpull, hacc, index_of_prompt hp hle]
  rw [if_pos (Or.inl hb), show scan + (t.length - scan) = t.length by omega, List.take_left]
  rfl

theorem readUntilPromptFrom_found {t p : Bytes} (hp : p ∈ prompts) (ht : NoPrompt t)
    {u d v r : Bytes} (h : Pulls u d v r) :
    ∀ (fuel : Nat) (acc : Bytes) (scan : Nat) (f : FrameConn), d ≠ [] → acc ++ d = t ++ p →
      ScanOk acc scan → u.length < fuel → f.inp = u →
      f.readUntilPromptFrom fuel acc scan =
        ((trimLeft (· == 32) t, none), f.afterPrompt v r) := by
  -- induction along the data that is still to come
  induction h with
  | nil u =>
      intro fuel acc scan f hd
      exact absurd rfl hd
  | cons hpull hrest ih =>
      rename_i u v w d r r' b
      intro fuel acc scan f _ hacc hscan hfuel hu
      obtain ⟨fuel, rfl⟩ : ∃ n, fuel = n + 1 := ⟨fuel - 1, by omega⟩
      by_cases hd : d = []
      · subst hd
        cases hrest
        rw [readUntilPromptFrom_last hu hpull hscan hp hacc]
        simp
      · rw [List.append_cons] at hacc
        obtain ⟨scan', hscan', hstep⟩ := readUntilPromptFrom_step hu hpull hscan
          (noPrompt_of_proper hp ht hacc hd) fuel
        have hlt := pull_length hpull
        rw [hstep, ih fuel (acc ++ [b]) scan' (f.advance v r) hd hacc hscan' (by omega) rfl]
        simp [afterPrompt, advance]

/-- The first prompt of the data ends the read: the text before it is returned
with its leading blanks dropped, and nothing behind it is consumed but blanks
that are already buffered. -/
theorem readUntilPrompt_found {f : FrameConn} {t p v r : Bytes} (hp : p ∈ prompts)
    (ht : NoPrompt t) (h : Pulls f.inp (t ++ p) v r) :
    f.readUntilPrompt = ((trimLeft (· == 32) t, none), f.afterPrompt v r) :=
  readUntilPromptFrom_found hp ht h _ [] 0 f (by simp [prompt_ne_nil hp]) rfl (.inl rfl)
    (by omega) rfl

theorem readUntilPromptFrom_missing {u d v r : Bytes} (h : Pulls u d v r) {r' : Bytes}
    (hend : pull v = (none, [], r')) :
    ∀ (fuel : Nat) (acc : Bytes) (scan : Nat) (f : FrameConn), NoPrompt (acc ++ d) →
      ScanOk acc scan → u.length < fuel → f.inp = u →
      f.readUntilPromptFrom fuel acc scan =
        ((acc ++ d, if f.fin = .eof ∧ 0 < (acc ++ d).length then none else some f.fin),
          f.advance [] (r ++ r')) := by
  induction h with
  | nil u =>
      intro fuel acc scan f _ _ hfuel hu
      obtain ⟨fuel, rfl⟩ : ∃ n, fuel = n + 1 := ⟨fuel - 1, by omega⟩
      by_cases heof : f.fin = .eof ∧ 0 < acc.length
      · simp [readUntilPromptFrom, readByte_none hu hend, heof]
      · simp [readUntilPromptFrom, readByte_none hu hend, heof]
  | cons hpull hrest ih =>
      rename_i u v w d r r'' b
      intro fuel acc scan f hacc hscan hfuel hu
      obtain ⟨fuel, rfl⟩ : ∃ n, fuel = n + 1 := ⟨fuel - 1, by omega⟩
      rw [List.append_cons] at hacc ⊢
      obtain ⟨scan', hscan', hstep⟩ := readUntilPromptFrom_step hu hpull hscan
        (hacc.of_isInfix (List.prefix_append _ _).isInfix) fuel
      have hlt := pull_length hpull
      rw [hstep, ih hend fuel _ scan' _ hacc hscan' (by omega) rfl, advance_advance,
        List.append_assoc r, advance_fin]

/-- Without a prompt the read takes all the data. At end of file it reports
success unless it read nothing. -/
theorem readUntilPrompt_missing {f : FrameConn} {d v r r' : Bytes} (hd : NoPrompt d)
    (h : Pulls f.inp d v r) (hend : pull v = (none, [], r')) :
    f.readUntilPrompt =
      ((d, if f.fin = .eof ∧ 0 < d.length then none else some f.fin), f.advance [] (r ++ r')) :=
  readUntilPromptFrom_missing h hend _ [] 0 f hd (.inl rfl) (by omega) rfl

/-! ## Status lines -/

theorem readResponseLineFrom_found {u d v r : Bytes} (h : Pulls u d v r) :
    ∀ (fuel : Nat) (acc l : Bytes) (f : FrameConn), d = l ++ [10] → (10 : UInt8) ∉ l →
      u.length < fuel → f.inp = u →
      f.readResponseLineFrom fuel acc =
        ((trimLeft (· == 32) (trimRight (· == 13) (acc ++ l)), none), f.advance v r) := by
  induction h with
  | nil u =>
      intro fuel acc l f hd
      simp at hd
  | cons hpull hrest ih =>
      rename_i u v w d r r' b
      intro fuel acc l f hd hl hfuel hu
      obtain ⟨fuel, rfl⟩ : ∃ n, fuel = n + 1 := ⟨fuel - 1, by omega⟩
      cases l with
      | nil =>
          simp only [List.nil_append, List.cons.injEq] at hd
          obtain ⟨hb, hd⟩ := hd
          subst hd
          cases hrest
          simp [readResponseLineFrom, readByte_some hu hpull, hb]
      | cons c l =>
          simp only [List.cons_append, List.cons.injEq] at hd
          simp only [List.mem_cons, not_or] at hl
          have hb : b ≠ 10 := by
            rw [hd.1]
            exact Ne.symm hl.1
          have hlt := pull_length hpull
          simp only [readResponseLineFrom, readByte_some hu hpull, if_neg hb]
          rw [ih fuel (acc ++ [b]) l _ hd.2 hl.2 (by omega) rfl, advance_advance, hd.1,
            ← List.append_cons]

/-- The line before the next LF, its CRs and leading blanks dropped. -/
theorem readResponseLine_found {f : FrameConn} {l v r : Bytes} (hl : (10 : UInt8) ∉ l)
    (h : Pulls f.inp (l ++ [10]) v r) :
    f.readResponseLine = ((trimLeft (· == 32) (trimRight (· == 13) l), none), f.advance v r) :=
  readResponseLineFrom_found h _ [] l f rfl hl (by omega) rfl

theorem readResponseLineFrom_missing {u d v r : Bytes} (h : Pulls u d v r) {r' : Bytes}
    (hend : pull v = (none, [], r')) :
    ∀ (fuel : Nat) (acc : Bytes) (f : FrameConn), (10 : UInt8) ∉ d → u.length < fuel →
      f.inp = u →
      f.readResponseLineFrom fuel acc = ((acc ++ d, some f.fin), f.advance [] (r ++ r')) := by
  induction h with
  | nil u =>
      intro fuel acc f _ hfuel hu
      obtain ⟨fuel, rfl⟩ : ∃ n, fuel = n + 1 := ⟨fuel - 1, by omega⟩
      simp [readResponseLineFrom, readByte_none hu hend, advance]
  | cons hpull hrest ih =>
      rename_i u v w d r r'' b
      intro fuel acc f hd hfuel hu
      obtain ⟨fuel, rfl⟩ : ∃ n, fuel = n + 1 := ⟨fuel - 1, by omega⟩
      simp only [List.mem_cons, not_or] at hd
      have hlt := pull_length hpull
      simp only [readResponseLineFrom, readByte_some hu hpull, if_neg (Ne.symm hd.1)]
      rw [ih hend fuel (acc ++ [b]) _ hd.2 (by omega) rfl, advance_advance, ← List.append_cons,
        List.append_assoc]
      rfl

theorem readResponseLine_missing {f : FrameConn} {d v r r' : Bytes} (hd : (10 : UInt8) ∉ d)
    (h : Pulls f.inp d v r) (hend : pull v = (none, [], r')) :
    f.readResponseLine = ((d, some f.fin), f.advance [] (r ++ r')) :=
  readResponseLineFrom_missing h hend _ [] f hd (by omega) rfl

end FrameConn

/-! ## The first prompt of a text -/

/-- A text either holds no prompt or splits at its first one. -/
theorem noPrompt_or_first (d : Bytes) :
    NoPrompt d ∨ ∃ t p rest, p ∈ prompts ∧ NoPrompt t ∧ d = t ++ p ++ rest := by
  induction d using List.reverseRecOn with
  | nil => exact .inl noPrompt_nil
  | append_singleton d b ih =>
      rcases ih with hno | ⟨t, p, rest, hp, ht, rfl⟩
      · by_cases hsuf : ∃ p ∈ prompts, p <:+ d ++ [b]
        · obtain ⟨p, hp, t, ht⟩ := hsuf
          refine .inr ⟨t, p, [], hp, ?_, by simp [ht]⟩
          obtain ⟨q, rfl, -⟩ := prompt_concat hp
          rw [← List.append_assoc] at ht
          have hpre : t <+: d := ⟨q, List.append_inj_left' ht rfl⟩
          exact hno.of_isInfix hpre.isInfix
        · refine .inl ?_
          intro p hp hin
          rcases List.infix_concat_iff.mp hin with h | h
          · exact hsuf ⟨p, hp, h⟩
          · exact hno p hp h
      · exact .inr ⟨t, p, rest ++ [b], hp, ht, by simp⟩

/-- The data `d` has its first prompt `p` behind the text `t`: no prompt starts
earlier. -/
structure FirstPrompt (d t p : Bytes) : Prop where
  mem : p ∈ prompts
  stands : t ++ p <+: d
  first : ∀ k < t.length, ∀ q ∈ prompts, ¬ q <+: d.drop k

/-- A prompt holds `<` at its front only, so none reaches from the text before
another prompt into that prompt. -/
theorem firstPrompt_of_noPrompt {t p : Bytes} (hp : p ∈ prompts) (ht : NoPrompt t)
    (rest : Bytes) : FirstPrompt (t ++ p ++ rest) t p := by
  have hlt : ∀ q ∈ prompts, q.head? = some 60 ∧ (60 : UInt8) ∉ q.tail := by decide
  refine ⟨hp, ⟨rest, rfl⟩, ?_⟩
  intro k hk q hq hpre
  obtain ⟨p', rfl⟩ : ∃ p', p = 60 :: p' := List.head?_eq_some_iff.mp (hlt p hp).1
  rw [List.append_assoc, List.drop_append_of_le_length (Nat.le_of_lt hk)] at hpre
  by_cases hlen : q.length ≤ (t.drop k).length
  · -- the prompt `q` would lie in the text
    have hin : q <+: t.drop k :=
      List.prefix_of_prefix_length_le hpre (List.prefix_append _ _) hlen
    exact ht q hq (hin.isInfix.trans (List.drop_suffix k t).isInfix)
  · -- the prompt `q` would hold the `<` of `p`
    have hover : t.drop k ++ [60] <+: q := by
      refine List.prefix_of_prefix_length_le ⟨p' ++ rest, ?_⟩ hpre ?_
      · simp
      · rw [List.length_append, List.length_singleton]
        omega
    obtain ⟨c, s, hs⟩ : ∃ c s, t.drop k = c :: s :=
      List.exists_cons_of_length_pos (by rw [List.length_drop]; omega)
    obtain ⟨q', hq'⟩ := hover
    rw [hs] at hq'
    refine (hlt q hq).2 ?_
    rw [← hq']
    simp

/-- What a look for blanks drops are blanks and tabs. -/
theorem swallowBlanks_blanks (n : Nat) (v : Bytes) :
    ∃ ws, v = ws ++ swallowBlanks n v ∧ ∀ b ∈ ws, b = 32 ∨ b = 9 := by
  induction n generalizing v with
  | zero => exact ⟨[], by simp [swallowBlanks], by simp⟩
  | succ n ih =>
      cases v with
      | nil => exact ⟨[], by simp [swallowBlanks], by simp⟩
      | cons b v =>
          unfold swallowBlanks
          by_cases hb : b = 32 ∨ b = 9
          · obtain ⟨ws, hws, hall⟩ := ih v
            refine ⟨b :: ws, ?_, ?_⟩
            · rw [if_pos hb, List.cons_append, ← hws]
            · exact List.forall_mem_cons.mpr ⟨hb, hall⟩
          · exact ⟨[], by rw [if_neg hb]; rfl, by simp⟩

/-- Dropping data bytes off the raw input drops them off the data. -/
theorem Pulls.drop_clean {ws x rest w r r' : Bytes} (hws : iac ∉ ws)
    (h : Pulls (ws ++ x) rest w r) (hdry : pull w = (none, [], r')) :
    ∃ rest', rest = ws ++ rest' ∧ Pulls x rest' w r := by
  have hclean : Pulls (ws ++ x) ws x [] := .of_clean hws x
  obtain ⟨rest', rfl⟩ := h.prefix_of_dry hdry hclean
  obtain ⟨y, r₁, r₂, h₁, h₂, rfl⟩ := h.split
  obtain ⟨rfl, rfl⟩ := hclean.unique h₁
  exact ⟨rest', rfl, h₂⟩

/-- **The bounded rescan is a full search.** Where the data of the connection
holds a prompt, the read returns the text before the first one, its leading
blanks dropped, and without an error. It reads the raw input exactly as far as
that prompt, and drops nothing behind it but blanks and tabs. -/
theorem readUntilPrompt_firstPrompt (f : FrameConn)
    (h : ∃ p ∈ prompts, p <:+: f.readToEnd.1) :
    ∃ t p ws r f', FirstPrompt f.readToEnd.1 t p ∧
      f.readUntilPrompt = ((trimLeft (· == 32) t, none), f') ∧
      Pulls f.inp (t ++ p) (ws ++ f'.inp) r ∧
      f.readToEnd.1 = t ++ p ++ ws ++ f'.readToEnd.1 ∧
      ∀ b ∈ ws, b = 32 ∨ b = 9 := by
  obtain ⟨d, v, r, r', hd, hdry⟩ := exists_pulls_all f.inp
  rw [FrameConn.readToEnd_pulls hd hdry] at h ⊢
  rcases noPrompt_or_first d with hno | ⟨t, p, rest, hp, ht, rfl⟩
  · obtain ⟨p, hp, hin⟩ := h
    exact absurd hin (hno p hp)
  obtain ⟨w, r₁, r₂, hread, hrest, -⟩ := hd.split
  obtain ⟨ws, hws, hblank⟩ := swallowBlanks_blanks (f.buffered.headD 0) w
  have hclean : iac ∉ ws := by
    intro hmem
    exact absurd (hblank iac hmem) (by decide)
  rw [hws] at hrest hread
  obtain ⟨rest', rfl, htail⟩ := hrest.drop_clean hclean hdry
  have hfound := FrameConn.readUntilPrompt_found hp ht hread
  rw [← hws] at hfound
  refine ⟨t, p, ws, r₁, f.afterPrompt w r₁, firstPrompt_of_noPrompt hp ht _, hfound, hread, ?_,
    hblank⟩
  -- `hdry` ends the data of the connection behind the prompt as well
  have htail' : Pulls (f.afterPrompt w r₁).inp rest' v r₂ := htail
  rw [FrameConn.readToEnd_pulls htail' hdry]
  simp only [List.append_assoc]

/-- The text is longer than the stretch that is searched again, and one of the two blanks
is buffered. -/
theorem readUntilPrompt_firstPrompt_greeting :
    let text : Bytes := List.replicate 300 97
    let f : FrameConn := ⟨32 :: text ++ ascii "<qconn-broker>" ++ ascii "  more", .timeout, [1], [], 0⟩
    (∃ p ∈ prompts, p <:+: f.readToEnd.1) ∧
      f.readUntilPrompt = ((text, none), ⟨ascii " more", .timeout, [], [], 1⟩) ∧
      ∃ t p ws r, FirstPrompt f.readToEnd.1 t p ∧ trimLeft (· == 32) t = text ∧
        Pulls f.inp (t ++ p) (ws ++ ascii " more") r := by
  intro text f
  have hp : ascii "<qconn-broker>" ∈ prompts := by decide
  have htext : ∀ b ∈ 32 :: text, b = 32 ∨ b = 97 := by
    intro b hb
    exact (List.mem_cons.mp hb).imp_right List.eq_of_mem_replicate
  have htrim : trimLeft (· == 32) (32 :: text) = text := rfl
  clear_value text
  have hno : NoPrompt (32 :: text) := by
    intro q hq hin
    have hopens : ∀ q ∈ prompts, (60 : UInt8) ∈ q := by decide
    exact absurd (htext 60 (hin.subset (hopens q hq))) (by decide)
  have hclean : iac ∉ (32 :: text ++ ascii "<qconn-broker>") ++ ascii "  more" := by
    rw [List.append_assoc, List.mem_append, not_or]
    exact ⟨fun h => absurd (htext iac h) (by decide), by decide⟩
  have hall : Pulls f.inp ((32 :: text ++ ascii "<qconn-broker>") ++ ascii "  more") [] [] := by
    have hpulls := Pulls.of_clean hclean []
    rwa [List.append_nil] at hpulls
  have hin : ∃ p ∈ prompts, p <:+: f.readToEnd.1 := by
    rw [FrameConn.readToEnd_pulls hall rfl]
    exact ⟨_, hp, _, _, rfl⟩
  have hhead : Pulls f.inp (32 :: text ++ ascii "<qconn-broker>") (ascii "  more") [] :=
    .of_clean (fun h => hclean (List.mem_append_left _ h)) _
  have hfound := FrameConn.readUntilPrompt_found hp hno hhead
  obtain ⟨t, p, ws, r, f', hfirst, hread, hpulls, -⟩ := readUntilPrompt_firstPrompt f hin
  obtain ⟨hval, rfl⟩ := Prod.mk.inj (hread.symm.trans hfound)
  refine ⟨hin, hfound.trans (congrArg (fun t => ((t, none), _)) htrim), t, p, ws, r, hfirst, ?_, hpulls⟩
  exact (Prod.mk.inj hval).1.trans htrim

end QconnMcp.Qconn
