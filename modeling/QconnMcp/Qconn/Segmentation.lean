import QconnMcp.Qconn.Prompt

/-!
# Independence of TCP segmentation

A prompt's trailing blank is dropped only if it happens to be buffered when
`readUntilPrompt` looks; otherwise it reaches the next read, whose left trim has
to neutralise it. Two runs over one byte stream under different schedules of
what is buffered are compared through a third that never drops anything: a run
lags behind it by the blanks it has dropped (`Lag`), and only directly after a
prompt.

The left trim is missing on the paths where a read runs into the end of the
stream. `Guarded` says that no read meets the end in that position, and
`segmentation_free_iff` shows that this is exactly when the schedules cannot be
told apart.
-/

namespace QconnMcp.Qconn

open Kit

/-- The reads a client makes on its connection. -/
inductive Read where
  | untilPrompt
  | responseLine
  | raw (n : Nat)
  deriving DecidableEq, Repr

def Read.exec : Read → FrameConn → (Bytes × Option IoErr) × FrameConn
  | .untilPrompt, f => f.readUntilPrompt
  | .responseLine, f => f.readResponseLine
  | .raw n, f => f.readN n

/-- The values a sequence of reads returns. -/
def runReads : List Read → FrameConn → List (Bytes × Option IoErr)
  | [], _ => []
  | rd :: rds, f => (rd.exec f).1 :: runReads rds (rd.exec f).2

/-- A binary read comes only directly after a status line; `ok` says whether one
may come now. -/
def pacedFrom : Bool → List Read → Bool
  | _, [] => true
  | ok, .raw _ :: rds => ok && pacedFrom false rds
  | _, .responseLine :: rds => pacedFrom true rds
  | _, .untilPrompt :: rds => pacedFrom false rds

/-- A fresh connection on a byte stream, under a schedule of buffered bytes. -/
def connOn (s : Bytes) (fin : IoErr) (sched : List Nat) : FrameConn := ⟨s, fin, sched, [], 0⟩

def isBlank (b : UInt8) : Bool := b == 32 || b == 9

/-- The blanks and tabs directly behind each prompt of the stream are blanks,
wherever in the stream the reader starts and whatever telnet sequences the
prompt is interleaved with. -/
def SpacesAfterPrompts (s : Bytes) : Prop :=
  ∀ u v r p, u <:+ s → p ∈ prompts → Pulls u p v r → ∀ b ∈ v.takeWhile isBlank, b = 32

/-- No schedule changes what the reads return. -/
def SegmentationFree (s : Bytes) (fin : IoErr) (rds : List Read) : Prop :=
  ∀ sched₁ sched₂, runReads rds (connOn s fin sched₁) = runReads rds (connOn s fin sched₂)

/-! ## When a read meets the end of the stream -/

/-- The stream holds the prompt (or LF) a prompt read waits for. -/
def PromptAhead (u : Bytes) : Prop := ∃ t p v r, p ∈ prompts ∧ NoPrompt t ∧ Pulls u (t ++ p) v r

def LineAhead (u : Bytes) : Prop := ∃ l v r, (10 : UInt8) ∉ l ∧ Pulls u (l ++ [10]) v r

/-- A read directly behind a prompt with a trailing blank (`leak`) finds what it
waits for before the stream ends. -/
def Guarded : Bool → List Read → Bytes → Prop
  | _, [], _ => True
  | leak, .untilPrompt :: rds, u =>
      (leak = true → u.head? = some 32 → PromptAhead u) ∧
        ∀ t p v r, p ∈ prompts → NoPrompt t → Pulls u (t ++ p) v r → Guarded true rds v
  | leak, .responseLine :: rds, u =>
      (leak = true → u.head? = some 32 → LineAhead u) ∧
        ∀ l v r, (10 : UInt8) ∉ l → Pulls u (l ++ [10]) v r → Guarded false rds v
  | _, .raw n :: rds, u => Guarded false rds (u.drop n)

theorem guarded_nil (leak : Bool) (rds : List Read) : Guarded leak rds [] := by
  induction rds generalizing leak with
  | nil => trivial
  | cons rd rds ih =>
      cases rd with
      | untilPrompt =>
          refine ⟨fun _ h => by simp at h, ?_⟩
          intro t p v r hp _ h
          have hlen := h.length_le
          have hpos := List.length_pos_iff.mpr (prompt_ne_nil hp)
          simp only [List.length_append, List.length_nil] at hlen
          omega
      | responseLine =>
          refine ⟨fun _ h => by simp at h, ?_⟩
          intro l v r _ h
          have hlen := h.length_le
          simp at hlen
      | raw n =>
          show Guarded false rds (List.drop n [])
          rw [List.drop_nil]
          exact ih false

/-- Either the awaited prompt is ahead or all the data is prompt-free. -/
theorem promptAhead_or_dry (u : Bytes) :
    PromptAhead u ∨ ∃ d v r r', NoPrompt d ∧ Pulls u d v r ∧ pull v = (none, [], r') := by
  obtain ⟨d, v, r, r', h, hdry⟩ := exists_pulls_all u
  rcases noPrompt_or_first d with hno | ⟨t, p, rest, hp, ht, rfl⟩
  · exact .inr ⟨d, v, r, r', hno, h, hdry⟩
  · obtain ⟨w, r₁, r₂, h₁, -, -⟩ := h.split
    exact .inl ⟨t, p, w, r₁, hp, ht, h₁⟩

theorem lineAhead_or_dry (u : Bytes) :
    LineAhead u ∨ ∃ d v r r', (10 : UInt8) ∉ d ∧ Pulls u d v r ∧ pull v = (none, [], r') := by
  obtain ⟨d, v, r, r', h, hdry⟩ := exists_pulls_all u
  by_cases hd : (10 : UInt8) ∈ d
  · obtain ⟨l, rest, rfl, hl⟩ := List.eq_append_cons_of_mem hd
    rw [List.append_cons] at h
    obtain ⟨w, r₁, r₂, h₁, -, -⟩ := h.split
    exact .inl ⟨l, w, r₁, hl, h₁⟩
  · exact .inr ⟨d, v, r, r', hd, h, hdry⟩

/-! ## The blanks a look drops -/

/-- Dropping buffered blanks drops a run of them. -/
theorem swallowBlanks_split {v : Bytes} (hv : ∀ b ∈ v.takeWhile isBlank, b = 32) (n : Nat) :
    ∃ j, v = List.replicate j 32 ++ swallowBlanks n v := by
  obtain ⟨ws, hsplit, hws⟩ := swallowBlanks_blanks n v
  have hblank : ∀ b ∈ ws, isBlank b = true := by
    intro b hb
    rcases hws b hb with rfl | rfl <;> rfl
  have hspaces : ∀ b ∈ ws, b = 32 := by
    intro b hb
    apply hv
    rw [hsplit, List.takeWhile_append_of_pos hblank]
    exact List.mem_append_left _ hb
  refine ⟨ws.length, ?_⟩
  rw [← List.eq_replicate_of_mem hspaces]
  exact hsplit

/-- A look that sees everything leaves no blank in front. -/
theorem swallowBlanks_head {v : Bytes} {n : Nat} (hn : v.length ≤ n) :
    (swallowBlanks n v).head? ≠ some 32 := by
  induction v generalizing n with
  | nil => cases n <;> simp [swallowBlanks]
  | cons b v ih =>
      obtain ⟨n, rfl⟩ : ∃ m, n = m + 1 := ⟨n - 1, by simp at hn; omega⟩
      unfold swallowBlanks
      split
      · exact ih (by simpa using hn)
      · rename_i hb
        simp only [List.head?_cons, ne_eq, Option.some.injEq]
        exact fun h => hb (.inl h)

/-! ## One read under two schedules -/

/-- `g` has dropped nothing; `f` is `i` leading blanks ahead of it. -/
structure Lag (i : Nat) (g f : FrameConn) : Prop where
  inp : g.inp = List.replicate i 32 ++ f.inp
  fin : g.fin = f.fin
  idle : g.buffered = []

/-- A prompt read that drops nothing stops right behind the prompt. -/
theorem readUntilPrompt_inp {g : FrameConn} {t p v r : Bytes} (hidle : g.buffered = [])
    (hp : p ∈ prompts) (ht : NoPrompt t) (h : Pulls g.inp (t ++ p) v r) :
    g.readUntilPrompt.2.inp = v := by
  rw [FrameConn.readUntilPrompt_found hp ht h]
  simp [FrameConn.afterPrompt, FrameConn.swallow, FrameConn.advance, hidle, swallowBlanks]

/-- A prompt read that finds its prompt returns the same on both sides, and the
blanks it drops are the new lag. -/
theorem Lag.untilPrompt {i : Nat} {g f : FrameConn} (hlag : Lag i g f)
    (hs : SpacesAfterPrompts g.inp) (h : PromptAhead f.inp) :
    g.readUntilPrompt.1 = f.readUntilPrompt.1 ∧
      g.readUntilPrompt.2.inp <:+ g.inp ∧
      f.readUntilPrompt.2.buffered = f.buffered.tail ∧
      (g.inp.length ≤ f.buffered.headD 0 → f.readUntilPrompt.2.inp.head? ≠ some 32) ∧
      ∃ j, Lag j g.readUntilPrompt.2 f.readUntilPrompt.2 := by
  obtain ⟨t, p, v, r, hp, ht, hf⟩ := h
  have hg : Pulls g.inp ((List.replicate i 32 ++ t) ++ p) v r := by
    rw [hlag.inp, List.append_assoc]
    simpa using (pulls_blanks i f.inp).trans hf
  have hfr := FrameConn.readUntilPrompt_found hp ht hf
  have hgr := FrameConn.readUntilPrompt_found hp (noPrompt_blanks ht i) hg
  have hgv := readUntilPrompt_inp hlag.idle hp (noPrompt_blanks ht i) hg
  have hfv : f.readUntilPrompt.2.inp = swallowBlanks (f.buffered.headD 0) v := by
    rw [hfr]
    rfl
  have hspaces : ∀ b ∈ v.takeWhile isBlank, b = 32 := by
    obtain ⟨u', r₁, r₂, h₁, h₂, -⟩ := hg.split
    exact hs u' v r₂ p h₁.suffix hp h₂
  obtain ⟨j, hj⟩ := swallowBlanks_split hspaces (f.buffered.headD 0)
  refine ⟨?_, ?_, ?_, ?_, j, ?_, ?_, ?_⟩
  · rw [hgr, hfr, trimLeft_replicate_append (by decide)]
  · rw [hgv]
    exact hg.suffix
  · rw [hfr]
    rfl
  · intro hlen
    rw [hfv]
    have := hg.length_le
    exact swallowBlanks_head (by omega)
  · rw [hgv, hfv]
    exact hj
  · rw [hgr, hfr]
    exact hlag.fin
  · rw [hgr]
    show g.buffered.tail = []
    rw [hlag.idle]
    rfl

/-- A status-line read trims the lag away. -/
theorem Lag.responseLine {i : Nat} {g f : FrameConn} (hlag : Lag i g f) (h : LineAhead f.inp) :
    g.readResponseLine.1 = f.readResponseLine.1 ∧
      g.readResponseLine.2.inp <:+ g.inp ∧
      f.readResponseLine.2.buffered = f.buffered ∧
      Lag 0 g.readResponseLine.2 f.readResponseLine.2 := by
  obtain ⟨l, v, r, hl, hf⟩ := h
  have hg : Pulls g.inp ((List.replicate i 32 ++ l) ++ [10]) v r := by
    rw [hlag.inp, List.append_assoc]
    simpa using (pulls_blanks i f.inp).trans hf
  have hl' : (10 : UInt8) ∉ List.replicate i 32 ++ l := by
    simp only [List.mem_append, List.mem_replicate, not_or]
    exact ⟨fun h => absurd h.2 (by decide), hl⟩
  rw [FrameConn.readResponseLine_found hl hf, FrameConn.readResponseLine_found hl' hg]
  refine ⟨?_, hg.suffix, rfl, by simp [FrameConn.advance], hlag.fin, hlag.idle⟩
  rw [trimRight_replicate_append (by decide), trimLeft_replicate_append (by decide)]

/-- Two connections with the same input that run dry. -/
theorem Lag.untilPrompt_dry {g f : FrameConn} (hlag : Lag 0 g f) (h : ¬ PromptAhead f.inp) :
    g.readUntilPrompt.1 = f.readUntilPrompt.1 ∧ g.readUntilPrompt.2.inp = [] ∧
      Lag 0 g.readUntilPrompt.2 f.readUntilPrompt.2 := by
  obtain ⟨d, v, r, r', hd, hf, hdry⟩ := (promptAhead_or_dry f.inp).resolve_left h
  have hg : Pulls g.inp d v r := by
    rw [hlag.inp]
    exact hf
  rw [FrameConn.readUntilPrompt_missing hd hf hdry, FrameConn.readUntilPrompt_missing hd hg hdry,
    hlag.fin]
  exact ⟨rfl, rfl, rfl, hlag.fin, hlag.idle⟩

theorem Lag.responseLine_dry {g f : FrameConn} (hlag : Lag 0 g f) (h : ¬ LineAhead f.inp) :
    g.readResponseLine.1 = f.readResponseLine.1 ∧ g.readResponseLine.2.inp = [] ∧
      Lag 0 g.readResponseLine.2 f.readResponseLine.2 := by
  obtain ⟨d, v, r, r', hd, hf, hdry⟩ := (lineAhead_or_dry f.inp).resolve_left h
  have hg : Pulls g.inp d v r := by
    rw [hlag.inp]
    exact hf
  rw [FrameConn.readResponseLine_missing hd hf hdry, FrameConn.readResponseLine_missing hd hg hdry,
    hlag.fin]
  exact ⟨rfl, rfl, rfl, hlag.fin, hlag.idle⟩

/-- Binary reads see the raw input, so they agree only without a lag. -/
theorem Lag.raw {g f : FrameConn} (hlag : Lag 0 g f) (n : Nat) :
    (g.readN n).1 = (f.readN n).1 ∧ (g.readN n).2.inp = g.inp.drop n ∧
      (f.readN n).2.buffered = f.buffered ∧ Lag 0 (g.readN n).2 (f.readN n).2 := by
  have hinp : g.inp = f.inp := hlag.inp
  unfold FrameConn.readN
  rw [hinp, hlag.fin]
  split
  · exact ⟨rfl, rfl, rfl, rfl, rfl, hlag.idle⟩
  · rename_i hn
    exact ⟨rfl, (List.drop_eq_nil_of_le (by omega)).symm, rfl, rfl, rfl, hlag.idle⟩

/-! ## The end of the stream behind leaked blanks -/

theorem promptAhead_blanks {i : Nat} {u : Bytes} :
    PromptAhead (List.replicate i 32 ++ u) ↔ PromptAhead u := by
  refine ⟨?_, ?_⟩
  · intro h
    by_contra hno
    obtain ⟨d, v, r, r', hd, hu, hdry⟩ := (promptAhead_or_dry u).resolve_left hno
    obtain ⟨t, p, w, s, hp, -, ht⟩ := h
    have hpre := ((pulls_blanks i u).trans hu).prefix_of_dry hdry ht
    exact noPrompt_blanks hd i p hp ((List.suffix_append t p).isInfix.trans hpre.isInfix)
  · intro h
    obtain ⟨t, p, v, r, hp, ht, hu⟩ := h
    refine ⟨List.replicate i 32 ++ t, p, v, [] ++ r, hp, noPrompt_blanks ht i, ?_⟩
    rw [List.append_assoc]
    exact (pulls_blanks i u).trans hu

theorem lineAhead_blanks {i : Nat} {u : Bytes} :
    LineAhead (List.replicate i 32 ++ u) ↔ LineAhead u := by
  have hblank : (10 : UInt8) ∉ List.replicate i 32 := by
    intro h
    exact absurd (List.eq_of_mem_replicate h) (by decide)
  refine ⟨?_, ?_⟩
  · intro h
    by_contra hno
    obtain ⟨d, v, r, r', hd, hu, hdry⟩ := (lineAhead_or_dry u).resolve_left hno
    obtain ⟨l, w, s, -, hl⟩ := h
    have hpre := ((pulls_blanks i u).trans hu).prefix_of_dry hdry hl
    have hmem : (10 : UInt8) ∈ List.replicate i 32 ++ d := hpre.subset (by simp)
    exact (List.mem_append.mp hmem).elim hblank hd
  · intro h
    obtain ⟨l, v, r, hl, hu⟩ := h
    refine ⟨List.replicate i 32 ++ l, v, [] ++ r, ?_, ?_⟩
    · simp only [List.mem_append, not_or]
      exact ⟨hblank, hl⟩
    · rw [List.append_assoc]
      exact (pulls_blanks i u).trans hu

/-- A lag shows as a leading blank. -/
theorem Lag.head {i : Nat} {g f : FrameConn} (hlag : Lag i g f) (hi : i ≠ 0) :
    g.inp.head? = some 32 := by
  obtain ⟨k, rfl⟩ := Nat.exists_eq_succ_of_ne_zero hi
  rw [hlag.inp]
  rfl

/-- Behind a lag, running dry shows in the length of the text returned. -/
theorem Lag.untilPrompt_differs {i : Nat} {g f : FrameConn} (hlag : Lag i g f) (hi : i ≠ 0)
    (h : ¬ PromptAhead f.inp) : g.readUntilPrompt.1 ≠ f.readUntilPrompt.1 := by
  obtain ⟨d, v, r, r', hd, hf, hdry⟩ := (promptAhead_or_dry f.inp).resolve_left h
  have hg : Pulls g.inp (List.replicate i 32 ++ d) v ([] ++ r) := by
    rw [hlag.inp]
    exact (pulls_blanks i f.inp).trans hf
  rw [FrameConn.readUntilPrompt_missing hd hf hdry,
    FrameConn.readUntilPrompt_missing (noPrompt_blanks hd i) hg hdry]
  intro he
  have hlen := congrArg (fun x => x.1.length) he
  simp at hlen
  exact hi hlen

theorem Lag.responseLine_differs {i : Nat} {g f : FrameConn} (hlag : Lag i g f) (hi : i ≠ 0)
    (h : ¬ LineAhead f.inp) : g.readResponseLine.1 ≠ f.readResponseLine.1 := by
  obtain ⟨d, v, r, r', hd, hf, hdry⟩ := (lineAhead_or_dry f.inp).resolve_left h
  have hg : Pulls g.inp (List.replicate i 32 ++ d) v ([] ++ r) := by
    rw [hlag.inp]
    exact (pulls_blanks i f.inp).trans hf
  have hd' : (10 : UInt8) ∉ List.replicate i 32 ++ d := by
    simp only [List.mem_append, List.mem_replicate, not_or]
    exact ⟨fun h => absurd h.2 (by decide), hd⟩
  rw [FrameConn.readResponseLine_missing hd hf hdry,
    FrameConn.readResponseLine_missing hd' hg hdry]
  intro he
  have hlen := congrArg (fun x => x.1.length) he
  simp at hlen
  exact hi hlen

/-! ## Whole runs -/

theorem spacesAfterPrompts_of_no_tab {s : Bytes} (h : (9 : UInt8) ∉ s) : SpacesAfterPrompts s := by
  intro u v r p hu _ hv b hb
  have hblank := List.mem_takeWhile_imp hb
  have hmem : b ∈ s := (hv.suffix.trans hu).subset ((List.takeWhile_prefix _).subset hb)
  simp only [isBlank, Bool.or_eq_true, beq_iff_eq] at hblank
  rcases hblank with h32 | h9
  · exact h32
  · exact absurd (h9 ▸ hmem) h

theorem SpacesAfterPrompts.suffix {u s : Bytes} (hs : SpacesAfterPrompts s) (h : u <:+ s) :
    SpacesAfterPrompts u :=
  fun u' v r p hu => hs u' v r p (hu.trans h)

/-- The lag a run may carry: only directly behind a prompt, and never into a
binary read. -/
def LagAllowed (ok leak : Bool) (i : Nat) : Prop := (ok = true ∨ leak = false) → i = 0

theorem LagAllowed.leaks {ok leak : Bool} {i : Nat} {g f : FrameConn} (h : LagAllowed ok leak i)
    (hlag : Lag i g f) (hi : i ≠ 0) : leak = true ∧ g.inp.head? = some 32 := by
  refine ⟨?_, hlag.head hi⟩
  by_contra hleak
  exact hi (h (.inr (by simpa using hleak)))

/-- A guarded read that meets the end of the stream has no lag to show. -/
theorem LagAllowed.eq_zero {ok leak : Bool} {i : Nat} {g f : FrameConn} {Ahead : Bytes → Prop}
    (h : LagAllowed ok leak i) (hlag : Lag i g f)
    (hblanks : Ahead (List.replicate i 32 ++ f.inp) ↔ Ahead f.inp)
    (hguard : leak = true → g.inp.head? = some 32 → Ahead g.inp) (hdry : ¬ Ahead f.inp) :
    i = 0 := by
  by_contra hi
  obtain ⟨hleak, hhead⟩ := h.leaks hlag hi
  have hahead := hguard hleak hhead
  rw [hlag.inp, hblanks] at hahead
  exact hdry hahead

theorem readResponseLine_inp {g : FrameConn} {l v r : Bytes} (hl : (10 : UInt8) ∉ l)
    (h : Pulls g.inp (l ++ [10]) v r) : g.readResponseLine.2.inp = v := by
  rw [FrameConn.readResponseLine_found hl h]
  rfl

theorem Guarded.after_prompt {leak : Bool} {rds : List Read} {g : FrameConn}
    (h : Guarded leak (.untilPrompt :: rds) g.inp) (hidle : g.buffered = [])
    (hahead : PromptAhead g.inp) : Guarded true rds g.readUntilPrompt.2.inp := by
  obtain ⟨t, p, v, r, hp, ht, hg⟩ := hahead
  rw [readUntilPrompt_inp hidle hp ht hg]
  exact h.2 t p v r hp ht hg

theorem Guarded.after_line {leak : Bool} {rds : List Read} {g : FrameConn}
    (h : Guarded leak (.responseLine :: rds) g.inp) (hahead : LineAhead g.inp) :
    Guarded false rds g.readResponseLine.2.inp := by
  obtain ⟨l, v, r, hl, hg⟩ := hahead
  rw [readResponseLine_inp hl hg]
  exact h.2 l v r hl hg

theorem runReads_cons_congr {rd : Read} {rds : List Read} {g f : FrameConn}
    (hval : (rd.exec g).1 = (rd.exec f).1)
    (hrest : runReads rds (rd.exec g).2 = runReads rds (rd.exec f).2) :
    runReads (rd :: rds) g = runReads (rd :: rds) f := by
  rw [runReads, runReads, hval, hrest]

/-- Guarded reads cannot tell a run from the one that drops nothing. -/
theorem runReads_eq_of_guarded {rds : List Read} :
    ∀ {ok leak : Bool} {i : Nat} {g f : FrameConn}, pacedFrom ok rds = true →
      LagAllowed ok leak i → SpacesAfterPrompts g.inp → Lag i g f → Guarded leak rds g.inp →
      runReads rds g = runReads rds f := by
  induction rds with
  | nil =>
      intro ok leak i g f _ _ _ _ _
      rfl
  | cons rd rds ih =>
      intro ok leak i g f hpaced hallowed hs hlag hguard
      cases rd with
      | untilPrompt =>
          by_cases hahead : PromptAhead f.inp
          · obtain ⟨hval, hsuf, -, -, j, hlag'⟩ := hlag.untilPrompt hs hahead
            have hahead' : PromptAhead g.inp := by
              rw [hlag.inp]
              exact promptAhead_blanks.mpr hahead
            have hnext := hguard.after_prompt hlag.idle hahead'
            refine runReads_cons_congr hval (ih hpaced ?_ (hs.suffix hsuf) hlag' hnext)
            intro h
            simp at h
          · -- the stream ends: nothing is left to read on either side
            obtain rfl := hallowed.eq_zero hlag promptAhead_blanks hguard.1 hahead
            obtain ⟨hval, hnil, hlag'⟩ := hlag.untilPrompt_dry hahead
            refine runReads_cons_congr hval (@ih _ true _ _ _ hpaced (fun _ => rfl) ?_ hlag' ?_)
            · exact hs.suffix (by show g.readUntilPrompt.2.inp <:+ g.inp; simp [hnil])
            · show Guarded true rds g.readUntilPrompt.2.inp
              rw [hnil]
              exact guarded_nil _ _
      | responseLine =>
          by_cases hahead : LineAhead f.inp
          · obtain ⟨hval, hsuf, -, hlag'⟩ := hlag.responseLine hahead
            have hahead' : LineAhead g.inp := by
              rw [hlag.inp]
              exact lineAhead_blanks.mpr hahead
            have hnext := hguard.after_line hahead'
            exact runReads_cons_congr hval (ih hpaced (fun _ => rfl) (hs.suffix hsuf) hlag' hnext)
          · obtain rfl := hallowed.eq_zero hlag lineAhead_blanks hguard.1 hahead
            obtain ⟨hval, hnil, hlag'⟩ := hlag.responseLine_dry hahead
            refine runReads_cons_congr hval (@ih _ false _ _ _ hpaced (fun _ => rfl) ?_ hlag' ?_)
            · exact hs.suffix (by show g.readResponseLine.2.inp <:+ g.inp; simp [hnil])
            · show Guarded false rds g.readResponseLine.2.inp
              rw [hnil]
              exact guarded_nil _ _
      | raw n =>
          simp only [pacedFrom, Bool.and_eq_true] at hpaced
          have hi := hallowed (.inl hpaced.1)
          subst hi
          obtain ⟨hval, hinp, -, hlag'⟩ := hlag.raw n
          refine runReads_cons_congr hval (@ih _ false _ _ _ hpaced.2 (fun _ => rfl) ?_ hlag' ?_)
          · show SpacesAfterPrompts (g.readN n).2.inp
            rw [hinp]
            exact hs.suffix (List.drop_suffix n g.inp)
          · show Guarded false rds (g.readN n).2.inp
            rw [hinp]
            exact hguard

/-- Conversely, compare with a run that sees everything buffered and so always
drops all blanks: the first unguarded read tells the two apart. -/
theorem guarded_of_runReads_eq {rds : List Read} :
    ∀ {ok leak : Bool} {i k n : Nat} {g f : FrameConn}, pacedFrom ok rds = true →
      LagAllowed ok leak i → SpacesAfterPrompts g.inp → Lag i g f →
      (leak = true → f.inp.head? ≠ some 32) → f.buffered = List.replicate k n → rds.length ≤ k →
      g.inp.length ≤ n → runReads rds g = runReads rds f → Guarded leak rds g.inp := by
  induction rds with
  | nil =>
      intro ok leak i k n g f _ _ _ _ _ _ _ _ _
      trivial
  | cons rd rds ih =>
      intro ok leak i k n g f hpaced hallowed hs hlag hhead hbuf hk hn heq
      obtain ⟨k, rfl⟩ : ∃ m, k = m + 1 := ⟨k - 1, by simp at hk; omega⟩
      have hk' : rds.length ≤ k := by simpa using hk
      have hval : (rd.exec g).1 = (rd.exec f).1 := (List.cons.inj heq).1
      have hrest : runReads rds (rd.exec g).2 = runReads rds (rd.exec f).2 := (List.cons.inj heq).2
      have hlagged : leak = true → g.inp.head? = some 32 → i ≠ 0 := by
        intro hleak hg hi
        rw [hlag.inp, hi] at hg
        exact hhead hleak hg
      cases rd with
      | untilPrompt =>
          refine ⟨?_, ?_⟩
          · intro hleak hg
            by_contra hno
            rw [hlag.inp, promptAhead_blanks] at hno
            exact hlag.untilPrompt_differs (hlagged hleak hg) hno hval
          · intro t p v r hp ht hg
            have hahead : PromptAhead g.inp := ⟨t, p, v, r, hp, ht, hg⟩
            rw [hlag.inp, promptAhead_blanks] at hahead
            obtain ⟨-, hsuf, htail, hdrop, j, hlag'⟩ := hlag.untilPrompt hs hahead
            rw [← readUntilPrompt_inp hlag.idle hp ht hg]
            refine ih (n := n) hpaced ?_ (hs.suffix hsuf) hlag' (fun _ => hdrop ?_) ?_ hk'
              (hsuf.length_le.trans hn) hrest
            · intro h
              simp at h
            · rw [hbuf]
              exact hn
            · show f.readUntilPrompt.2.buffered = _
              rw [htail, hbuf]
              rfl
      | responseLine =>
          refine ⟨?_, ?_⟩
          · intro hleak hg
            by_contra hno
            rw [hlag.inp, lineAhead_blanks] at hno
            exact hlag.responseLine_differs (hlagged hleak hg) hno hval
          · intro l v r hl hg
            have hahead : LineAhead g.inp := ⟨l, v, r, hl, hg⟩
            rw [hlag.inp, lineAhead_blanks] at hahead
            obtain ⟨-, hsuf, hsame, hlag'⟩ := hlag.responseLine hahead
            rw [← readResponseLine_inp hl hg]
            exact ih hpaced (fun _ => rfl) (hs.suffix hsuf) hlag' (by simp)
              (hsame.trans hbuf) (by omega) (hsuf.length_le.trans hn) hrest
      | raw m =>
          simp only [pacedFrom, Bool.and_eq_true] at hpaced
          have hi := hallowed (.inl hpaced.1)
          subst hi
          obtain ⟨-, hinp, hsame, hlag'⟩ := hlag.raw m
          have hsuf : (g.readN m).2.inp <:+ g.inp := by
            rw [hinp]
            exact List.drop_suffix m g.inp
          show Guarded false rds (g.inp.drop m)
          rw [← hinp]
          exact ih hpaced.2 (fun _ => rfl) (hs.suffix hsuf) hlag' (by simp)
            (hsame.trans hbuf) (by omega) (hsuf.length_le.trans hn) hrest

/-- What the reads return is independent of the segmentation exactly when no
read directly behind a prompt and its blank runs into the end of the stream. -/
theorem segmentation_free_iff {s : Bytes} {rds : List Read} (hpaced : pacedFrom false rds = true)
    (hs : SpacesAfterPrompts s) (fin : IoErr) :
    SegmentationFree s fin rds ↔ Guarded false rds s := by
  have start : ∀ sched, Lag 0 (connOn s fin []) (connOn s fin sched) :=
    fun _ => ⟨rfl, rfl, rfl⟩
  refine ⟨?_, ?_⟩
  · intro h
    exact guarded_of_runReads_eq (k := rds.length) (n := s.length) hpaced (fun _ => rfl) hs
      (start (List.replicate rds.length s.length)) (by simp) rfl le_rfl le_rfl (h _ _)
  · intro h sched₁ sched₂
    have run : ∀ sched, runReads rds (connOn s fin []) = runReads rds (connOn s fin sched) :=
      fun sched => runReads_eq_of_guarded hpaced (fun _ => rfl) hs (start sched) h
    rw [← run sched₁, ← run sched₂]

/-- A status line behind a blank that may be dropped or not, and the bytes it announces. -/
theorem segmentation_free_greeting :
    let s := ascii "<qconn-file>" ++ ascii " o:3\r\nABC<qconn-file> "
    let rds := [Read.untilPrompt, .responseLine, .raw 3, .untilPrompt]
    pacedFrom false rds = true ∧ SpacesAfterPrompts s ∧ SegmentationFree s .eof rds := by
  intro s rds
  have hs : SpacesAfterPrompts s := spacesAfterPrompts_of_no_tab (by decide)
  have hprompt : ascii "<qconn-file>" ∈ prompts := by decide
  have hnil : NoPrompt [] := by decide
  have hfirst : Pulls s ([] ++ ascii "<qconn-file>") (ascii " o:3\r\nABC<qconn-file> ") [] :=
    .of_clean (by decide) _
  have hstatus : iac ∉ ascii " o:3\r" ++ [10] := by decide
  have hline : LineAhead (ascii " o:3\r\nABC<qconn-file> ") :=
    ⟨_, ascii "ABC<qconn-file> ", [], by decide, .of_clean hstatus _⟩
  refine ⟨rfl, hs, (segmentation_free_iff rfl hs .eof).mpr ⟨by simp, ?_⟩⟩
  intro t p v r hp ht hpulls
  -- what is behind the first prompt does not depend on how it was found
  have hsame := (FrameConn.readUntilPrompt_found (f := connOn s .eof []) hp ht hpulls).symm.trans
    (FrameConn.readUntilPrompt_found hprompt hnil hfirst)
  obtain rfl : v = ascii " o:3\r\nABC<qconn-file> " := congrArg (fun x => x.2.inp) hsame
  exact ⟨fun _ _ => hline, fun _ _ _ _ _ => ⟨by simp, fun _ _ _ _ _ _ _ => trivial⟩⟩

/-- A peer that closes right after its prompt: the second read ends the session
if the blank was buffered, and returns the blank as a response if it was not. -/
theorem trailing_blank_shows_segmentation :
    pacedFrom false [.untilPrompt, .untilPrompt] = true ∧
      SpacesAfterPrompts (ascii "<qconn-broker> ") ∧
      runReads [.untilPrompt, .untilPrompt] (connOn (ascii "<qconn-broker> ") .eof [1]) =
        [([], none), ([], some .eof)] ∧
      runReads [.untilPrompt, .untilPrompt] (connOn (ascii "<qconn-broker> ") .eof [0]) =
        [([], none), ([32], none)] := by
  refine ⟨rfl, spacesAfterPrompts_of_no_tab (by decide), ?_, ?_⟩
  · decide +kernel
  · decide +kernel

end QconnMcp.Qconn
