import QconnMcp.Kit.Scanner
import QconnMcp.Qconn.Prompt

/-!
# Telnet sequences in a whole stream

The client filters telnet twice: `readByte` under every text read, and
`stripIAC` over the output collected in one piece. The first part shows that
`readByte` is transparent on a stream of data and complete telnet sequences and
refuses every option offered there (`readToEnd_items`). The second compares the
two filters on an arbitrary stream. Both are scanners over the same modes; they
part in one place only, the `IAC` that ends a subnegotiation, and
`readToEnd_eq_stripIac_iff` says on which streams this shows.
-/

namespace QconnMcp.Qconn

open Kit

/-! ## Streams of data and complete sequences -/

/-- The commands that carry an option byte. -/
def isOption (cmd : UInt8) : Bool := cmd == doo || cmd == dont || cmd == will || cmd == wont

theorem isOption_iff {cmd : UInt8} :
    isOption cmd = true ↔ cmd = doo ∨ cmd = dont ∨ cmd = will ∨ cmd = wont := by
  simp [isOption, or_assoc]

theorem not_option_iff {cmd : UInt8} :
    isOption cmd = false ↔ ¬ (cmd = doo ∨ cmd = dont ∨ cmd = will ∨ cmd = wont) := by
  rw [← isOption_iff, Bool.not_eq_true]

/-- The answer to an option command. -/
def refuse (cmd opt : UInt8) : Bytes :=
  if cmd = doo then [iac, wont, opt] else if cmd = will then [iac, dont, opt] else []

theorem handleIac_option {cmd : UInt8} (hcmd : isOption cmd = true) (opt : UInt8) (u : Bytes) :
    handleIac (cmd :: opt :: u) = some (u, refuse cmd opt) := by
  have hiac : cmd ≠ iac := by
    rintro rfl
    exact absurd hcmd (by decide)
  simp only [handleIac, if_neg hiac, if_pos (isOption_iff.mp hcmd), refuse]

theorem handleIac_option_cut {cmd : UInt8} (hcmd : isOption cmd = true) :
    handleIac [cmd] = none := by
  have hiac : cmd ≠ iac := by
    rintro rfl
    exact absurd hcmd (by decide)
  simp only [handleIac, if_neg hiac, if_pos (isOption_iff.mp hcmd)]

theorem handleIac_sb (u : Bytes) : handleIac (sb :: u) = (skipSb u).map fun v => (v, []) := by
  have hiac : sb ≠ iac := by decide
  have hopt : isOption sb = false := by decide
  simp only [handleIac, if_neg hiac, if_neg (not_option_iff.mp hopt), if_true]

theorem handleIac_command {cmd : UInt8} (hcmd : isOption cmd = false) (hsb : cmd ≠ sb)
    (u : Bytes) : handleIac (cmd :: u) = some (u, []) := by
  simp only [handleIac, if_neg (not_option_iff.mp hcmd), if_neg hsb, ite_self]

/-- One piece of a stream: a data byte, or a complete telnet sequence. -/
inductive Item where
  | data (b : UInt8) (hb : b ≠ iac)
  | option (cmd opt : UInt8) (hcmd : isOption cmd = true)
  | subnegotiation (body : Bytes)
  | command (cmd : UInt8) (hcmd : isOption cmd = false) (hsb : cmd ≠ sb)

namespace Item

/-- A body as it travels, every `IAC` in it doubled. -/
def doubled (body : Bytes) : Bytes := body.flatMap fun b => if b = iac then [iac, iac] else [b]

/-- The bytes of the piece. -/
def wire : Item → Bytes
  | data b _ => [b]
  | option cmd opt _ => [iac, cmd, opt]
  | subnegotiation body => [iac, sb] ++ doubled body ++ [iac, se]
  | command cmd _ _ => [iac, cmd]

/-- What the reader should get of it. -/
def text : Item → Bytes
  | data b _ => [b]
  | _ => []

/-- What should be written back: an offer of either side is refused. -/
def refusal : Item → Bytes
  | option cmd opt _ => refuse cmd opt
  | _ => []

end Item

theorem skipSb_doubled (body u : Bytes) :
    skipSb (Item.doubled body ++ iac :: se :: u) = some u := by
  induction body with
  | nil => rfl
  | cons b body ih =>
      rw [Item.doubled, List.flatMap_cons, List.append_assoc]
      by_cases hb : b = iac
      · subst hb
        rw [if_pos rfl]
        show skipSb (iac :: iac :: (Item.doubled body ++ iac :: se :: u)) = some u
        rw [skipSb, if_pos rfl, if_neg (by decide), ih]
      · rw [if_neg hb]
        show skipSb (b :: (Item.doubled body ++ iac :: se :: u)) = some u
        -- `skipSb` looks at two bytes; the second is there in any case
        obtain ⟨n, w, hw⟩ : ∃ n w, Item.doubled body ++ iac :: se :: u = n :: w :=
          List.exists_cons_of_length_pos (by simp)
        rw [hw] at ih ⊢
        rw [skipSb, if_neg hb, ih]

/-- `u` yields the data `d` to its end and is answered with `r`. -/
def Drains (u d r : Bytes) : Prop :=
  ∃ v r₁ r₂, Pulls u d v r₁ ∧ pull v = (none, [], r₂) ∧ r = r₁ ++ r₂

theorem Drains.data {u d r : Bytes} {b : UInt8} (hb : b ≠ iac) (h : Drains u d r) :
    Drains (b :: u) (b :: d) r := by
  obtain ⟨v, r₁, r₂, hpulls, hend, rfl⟩ := h
  exact ⟨v, r₁, r₂, .cons (r := []) (pull_data hb u) hpulls, hend, rfl⟩

/-- A telnet sequence in front of a stream adds its answer and nothing else. -/
theorem Drains.sequence {u v d r s : Bytes} (hseq : handleIac u = some (v, r))
    (h : Drains v d s) : Drains (iac :: u) d (r ++ s) := by
  obtain ⟨w, s₁, s₂, hpulls, hend, rfl⟩ := h
  cases hpulls with
  | nil =>
      refine ⟨iac :: u, [], r ++ s₂, .nil _, ?_, by simp⟩
      rw [pull_iac, hseq]
      simp only [hend]
  | @cons _ x _ d' t t' b hpull hrest =>
      refine ⟨w, (r ++ t) ++ t', s₂, .cons ?_ hrest, hend, by simp⟩
      rw [pull_iac, hseq]
      simp only [hpull]

theorem Item.drains (i : Item) {u d r : Bytes} (h : Drains u d r) :
    Drains (i.wire ++ u) (i.text ++ d) (i.refusal ++ r) := by
  cases i with
  | data b hb => exact h.data hb
  | option cmd opt hcmd => exact Drains.sequence (handleIac_option hcmd opt u) h
  | subnegotiation body =>
      refine Drains.sequence (r := []) ?_ h
      show handleIac (sb :: (Item.doubled body ++ [iac, se] ++ u)) = some (u, [])
      rw [List.append_assoc, handleIac_sb]
      show (skipSb (Item.doubled body ++ iac :: se :: u)).map _ = _
      rw [skipSb_doubled]
      rfl
  | command cmd hcmd hsb => exact Drains.sequence (handleIac_command hcmd hsb u) h

theorem drains_items (items : List Item) :
    Drains (items.flatMap Item.wire) (items.flatMap Item.text) (items.flatMap Item.refusal) := by
  induction items with
  | nil => exact ⟨[], [], [], .nil [], pull_nil, rfl⟩
  | cons i items ih => exact i.drains ih

/-- **Telnet is transparent and refused.** On a stream that interleaves data
with complete telnet sequences, `readByte` delivers the data and nothing else,
and what it writes back are the refusals of the offers, in their order. -/
theorem readToEnd_items (f : FrameConn) (items : List Item)
    (hinp : f.inp = items.flatMap Item.wire) :
    f.readToEnd = (items.flatMap Item.text, f.advance [] (items.flatMap Item.refusal)) := by
  obtain ⟨v, r₁, r₂, hpulls, hend, hr⟩ := drains_items items
  rw [← hinp] at hpulls
  rw [FrameConn.readToEnd_pulls hpulls hend, hr]

theorem readToEnd_items_split_prompt :
    let items := [Item.data 60 (by decide), .option doo 24 (by decide), .data 113 (by decide),
      .subnegotiation [1, iac, se], .option will 255 (by decide), .data 62 (by decide)]
    let f : FrameConn := ⟨items.flatMap Item.wire, .timeout, [], [], 0⟩
    f.inp = items.flatMap Item.wire ∧
      f.readToEnd = ([60, 113, 62], f.advance [] [iac, wont, 24, iac, dont, 255]) := by
  intro items f
  exact ⟨rfl, readToEnd_items f items rfl⟩

/-! ## The two filters as scanners -/

/-- Where a byte stands: in the data, behind an `IAC`, in the place of an option
byte, in a subnegotiation, or behind an `IAC` in one. -/
inductive Mode where
  | data
  | command
  | option
  | sub
  | subIac
  deriving DecidableEq, Repr

/-- Read one byte. In a subnegotiation `handleIAC` reads an `IAC` with the byte
behind it as a pair (`paired`); `stripIAC` looks for an `IAC` with `SE` right
behind it, whatever stands in front. -/
def Mode.next (paired : Bool) : Mode → UInt8 → Mode
  | data, b => if b = iac then command else data
  | command, b => if isOption b then option else if b = sb then sub else data
  | option, _ => data
  | sub, b => if b = iac then subIac else sub
  | subIac, b => if b = se then data else if b = iac ∧ paired = false then subIac else sub

/-- Outside telnet sequences every byte but `IAC` is data. -/
def Mode.out (m : Mode) (b : UInt8) : Bytes := if m = data ∧ b ≠ iac then [b] else []

/-- The telnet filter with either reading of a subnegotiation. -/
def filter (paired : Bool) : Scanner Mode UInt8 UInt8 := ⟨Mode.next paired, Mode.out⟩

section
variable (paired : Bool)

theorem output_data {b : UInt8} (hb : b ≠ iac) (u : Bytes) :
    (filter paired).output .data (b :: u) = b :: (filter paired).output .data u := by
  rw [Scanner.output_cons]
  simp [filter, Mode.out, Mode.next, hb]

theorem output_iac (u : Bytes) :
    (filter paired).output .data (iac :: u) = (filter paired).output .command u :=
  Scanner.output_skip _ rfl rfl u

theorem output_option {cmd : UInt8} (hcmd : isOption cmd = true) (u : Bytes) :
    (filter paired).output .command (cmd :: u) = (filter paired).output .data (u.drop 1) := by
  rw [Scanner.output_skip _ rfl (t := .option) (by simp [filter, Mode.next, hcmd])]
  cases u with
  | nil => rfl
  | cons opt u => exact Scanner.output_skip _ rfl rfl u

theorem output_sb (u : Bytes) :
    (filter paired).output .command (sb :: u) = (filter paired).output .sub u :=
  Scanner.output_skip _ rfl rfl u

theorem output_command {cmd : UInt8} (hcmd : isOption cmd = false) (hsb : cmd ≠ sb) (u : Bytes) :
    (filter paired).output .command (cmd :: u) = (filter paired).output .data u :=
  Scanner.output_skip _ rfl (by simp [filter, Mode.next, hcmd, hsb]) u

theorem output_sub {b : UInt8} (hb : b ≠ iac) (u : Bytes) :
    (filter paired).output .sub (b :: u) = (filter paired).output .sub u :=
  Scanner.output_skip _ rfl (by simp [filter, Mode.next, hb]) u

theorem output_sub_end (u : Bytes) :
    (filter paired).output .sub (iac :: se :: u) = (filter paired).output .data u := by
  rw [Scanner.output_skip _ rfl (t := .subIac) rfl, Scanner.output_skip _ rfl (t := .data) rfl]

end

/-! ## `readByte` reads in pairs -/

theorem output_skipSb : ∀ u : Bytes,
    (filter true).output .sub u = (skipSb u).elim [] ((filter true).output .data)
  | [] => rfl
  | [b] => by
      by_cases hb : b = iac
      · subst hb
        rfl
      · rw [output_sub true hb]
        rfl
  | b :: n :: rest => by
      unfold skipSb
      by_cases hb : b = iac
      · subst hb
        rw [if_pos rfl]
        by_cases hn : n = se
        · subst hn
          rw [if_pos rfl, output_sub_end]
          rfl
        · -- the pair is skipped, an `IAC` in its second place with it
          rw [if_neg hn, ← output_skipSb rest, Scanner.output_skip _ rfl (t := .subIac) rfl,
            Scanner.output_skip _ rfl (t := .sub)]
          simp [filter, Mode.next, hn]
      · rw [if_neg hb, output_sub true hb, output_skipSb (n :: rest)]

theorem output_handleIac (u : Bytes) :
    (filter true).output .command u =
      (handleIac u).elim [] fun vr => (filter true).output .data vr.1 := by
  cases u with
  | nil => rfl
  | cons cmd u =>
      cases hopt : isOption cmd with
      | true =>
          rw [output_option true hopt]
          cases u with
          | nil => rw [handleIac_option_cut hopt]; rfl
          | cons opt u => rw [handleIac_option hopt]; rfl
      | false =>
          by_cases hsb : cmd = sb
          · subst hsb
            rw [output_sb, output_skipSb, handleIac_sb]
            cases skipSb u <;> rfl
          · rw [output_command true hopt hsb, handleIac_command hopt hsb]
            rfl

theorem output_pull (u : Bytes) :
    (filter true).output .data u =
      (pull u).1.elim [] fun b => b :: (filter true).output .data (pull u).2.1 := by
  induction u using pull_induct with
  | nil => rfl
  | data b u hb => rw [output_data true hb, pull_data hb]; rfl
  | cut u hi => rw [output_iac, output_handleIac, pull_iac, hi]; rfl
  | seq u v r hi ih =>
      rw [output_iac, output_handleIac, pull_iac, hi]
      exact ih

/-- `readByte` is the filter that reads in pairs. -/
theorem readToEnd_eq_output (f : FrameConn) :
    f.readToEnd.1 = (filter true).output .data f.inp := by
  obtain ⟨d, v, r, r', hpulls, hend⟩ := exists_pulls_all f.inp
  rw [FrameConn.readToEnd_pulls hpulls hend]
  generalize f.inp = u at hpulls
  induction hpulls with
  | nil u => rw [output_pull, hend]; rfl
  | cons hpull _ ih =>
      have hrest := ih hend
      rw [output_pull, hpull]
      exact congrArg _ hrest

/-! ## `stripIAC` ends at the first `IAC SE` -/

theorem output_stripSb (u : Bytes) :
    (filter false).output .sub u = (filter false).output .data ((stripSb u).drop 2) := by
  induction u with
  | nil => rfl
  | cons b u ih =>
      unfold stripSb
      by_cases hb : b = iac
      · subst hb
        cases u with
        | nil => rfl
        | cons n u =>
            by_cases hn : n = se
            · subst hn
              rw [if_pos ⟨rfl, rfl⟩, output_sub_end]
              rfl
            · rw [if_neg (by simp [hn]), ← ih]
              -- behind this `IAC` the byte `n` is read as it is in the body
              have hnext : Mode.next false .subIac n = Mode.next false .sub n := by
                simp [Mode.next, hn]
              rw [Scanner.output_skip _ rfl (t := .subIac) rfl,
                Scanner.output_skip _ rfl hnext]
              rfl
      · rw [if_neg (fun h => hb h.1), ← ih, output_sub false hb]

theorem length_stripSb_le (u : Bytes) : (stripSb u).length ≤ u.length := by
  induction u with
  | nil => exact Nat.le_refl _
  | cons b u ih =>
      unfold stripSb
      split
      · exact Nat.le_refl _
      · exact Nat.le_succ_of_le ih

theorem stripIacFrom_eq_output (fuel : Nat) (u : Bytes) (hfuel : u.length ≤ fuel) :
    stripIacFrom fuel u = (filter false).output .data u := by
  induction fuel generalizing u with
  | zero =>
      rw [List.eq_nil_of_length_eq_zero (Nat.le_zero.mp hfuel)]
      rfl
  | succ fuel ih =>
      cases u with
      | nil => rfl
      | cons b u =>
          rw [List.length_cons] at hfuel
          by_cases hb : b = iac
          · subst hb
            cases u with
            | nil => rfl
            | cons cmd u =>
                rw [List.length_cons] at hfuel
                rw [output_iac]
                simp only [stripIacFrom, ne_eq, not_true_eq_false, if_false]
                cases hopt : isOption cmd with
                | true =>
                    rw [if_pos (isOption_iff.mp hopt), output_option false hopt]
                    apply ih
                    rw [List.length_drop]
                    omega
                | false =>
                    rw [if_neg (not_option_iff.mp hopt)]
                    by_cases hsb : cmd = sb
                    · subst hsb
                      rw [if_pos rfl, output_sb, output_stripSb]
                      apply ih
                      have := length_stripSb_le u
                      rw [List.length_drop]
                      omega
                    · rw [if_neg hsb, output_command false hopt hsb]
                      apply ih
                      omega
          · simp only [stripIacFrom, ne_eq, hb, not_false_eq_true, if_true]
            rw [output_data false hb, ih u (by omega)]

theorem stripIac_eq_output (u : Bytes) : stripIac u = (filter false).output .data u :=
  stripIacFrom_eq_output _ u (Nat.le_refl _)

/-! ## Where the two part -/

/-- The modes of the two filters at one byte. Either they are in the same mode,
or `readByte` is still in a subnegotiation that `stripIAC` may have left; at the
`SE` that ends it for `readByte`, `stripIAC` is back in the data as well. -/
def Abreast (m m' : Mode) : Prop := m = m' ∨ m' = .sub ∨ m' = .subIac ∧ m ≠ .sub

theorem abreast_next {m m' : Mode} (h : Abreast m m') (b : UInt8) :
    Abreast (m.next false b) (m'.next true b) := by
  rcases h with rfl | rfl | ⟨rfl, hm⟩
  · cases m with
    | subIac =>
        by_cases hse : b = se
        · exact .inl (by simp [Mode.next, hse])
        · exact .inr (.inl (by simp [Mode.next, hse]))
    | data | command | option | sub => exact .inl rfl
  · by_cases hb : b = iac
    · -- no mode but `sub` and `command` leads into `sub`, and neither does on `IAC`
      refine .inr (.inr ⟨by simp [Mode.next, hb], ?_⟩)
      subst hb
      cases m <;> decide
    · exact .inr (.inl (by simp [Mode.next, hb]))
  · by_cases hse : b = se
    · subst hse
      left
      cases m with
      | sub => exact absurd rfl hm
      | data | command | option | subIac => decide
    · exact .inr (.inl (by simp [Mode.next, hse]))

theorem trails : (filter true).Trails (filter false) Abreast where
  step b h := abreast_next h b
  out b h := by
    rcases h with rfl | rfl | ⟨rfl, -⟩
    · exact .inl rfl
    · exact .inr rfl
    · exact .inr rfl

/-- Behind the bytes `x`, `readByte` is in a subnegotiation that has already
ended for `stripIAC`: some `IAC SE` in its body is not the pair that ends it, and
since then only complete telnet sequences and data have gone by. -/
def Straying (x : Bytes) : Prop :=
  (filter false).state .data x = .data ∧
    ((filter true).state .data x = .sub ∨ (filter true).state .data x = .subIac)

theorem abreast_state (x : Bytes) :
    Abreast ((filter false).state .data x) ((filter true).state .data x) := by
  induction x using List.reverseRecOn with
  | nil => exact .inl rfl
  | append_singleton x b ih =>
      rw [Scanner.state, Scanner.state, List.foldl_append, List.foldl_append]
      exact abreast_next ih b

/-- The filters emit the same at a byte unless it is data of a straying `stripIAC`. -/
theorem out_eq_iff (x : Bytes) (b : UInt8) :
    (filter true).out ((filter true).state .data x) b =
        (filter false).out ((filter false).state .data x) b ↔ b ≠ iac → ¬ Straying x := by
  have hab := abreast_state x
  unfold Straying
  generalize (filter true).state .data x = m' at hab ⊢
  generalize (filter false).state .data x = m at hab ⊢
  by_cases hb : b = iac
  · simp [filter, Mode.out, hb]
  · rcases hab with rfl | rfl | ⟨rfl, -⟩
    · -- in one mode they emit the same, and it is not both `data` and in a body
      refine ⟨?_, fun _ => rfl⟩
      rintro - - ⟨rfl, h⟩
      exact absurd h (by decide)
    · cases m <;> simp [filter, Mode.out, hb]
    · cases m <;> simp [filter, Mode.out, hb]

/-- **When the two filters agree.** The data `readByte` delivers is what
`stripIAC` keeps exactly when no byte other than `IAC` stands where `readByte` is
in a subnegotiation and `stripIAC` already out of it. -/
theorem readToEnd_eq_stripIac_iff (f : FrameConn) :
    f.readToEnd.1 = stripIac f.inp ↔
      ∀ x b y, f.inp = x ++ b :: y → b ≠ iac → ¬ Straying x := by
  rw [readToEnd_eq_output, stripIac_eq_output, trails.output_eq_iff (.inl rfl)]
  simp only [out_eq_iff]

/-- A doubled `IAC` in front of an `SE` in the body: `readByte` is still in the
subnegotiation when the input ends, `stripIAC` delivers the byte behind it. -/
theorem filters_part_at_doubled_iac :
    let f : FrameConn := ⟨[iac, sb, iac, iac, se, 65], .eof, [], [], 0⟩
    f.readToEnd.1 = [] ∧ stripIac f.inp = [65] ∧ f.readToEnd.1 ≠ stripIac f.inp := by
  decide

end QconnMcp.Qconn
