import QconnMcp.Kit.Bytes
import QconnMcp.Kit.Scanner

/-!
# Words of a POSIX shell

The part of `sh` that decides which words a command line has: quoting by backslash,
single and double quotes, comments, operators, and where expansions begin and end.
What an expansion results in is not modelled. A word that is subject to one is a
token `expanded`; a word that the shell takes as it stands is a token `literal`.

The last part weighs what is read against what comes out. A quoting byte, a blank
that ends no word and a comment are read and leave nothing behind, and nothing later
makes up for them (`read_weight`): so a text whose words are the pieces between its
blanks consists of bytes that stand for themselves (`words_exact`).
-/

namespace QconnMcp.Kit.Shell

/-! ## Reading -/

inductive Token where
  | literal (s : Bytes)
  | expanded
  | op (b : UInt8)
  deriving DecidableEq, Repr

/-- A construct that is open inside a word. -/
inductive Ctx where
  | single
  | double
  | paren
  | brace
  | tick
  deriving DecidableEq, Repr

/-- A word being read: its bytes, each with whether it was quoted, whether it holds
an expansion, what is open (innermost first), and whether the last byte was a
backslash or a dollar that still waits for the next byte. -/
structure Word where
  text : List (UInt8 × Bool)
  active : Bool
  nest : List Ctx
  esc : Bool
  dollar : Bool
  deriving DecidableEq, Repr

inductive Lex where
  | between
  | comment
  | word (w : Word)
  deriving DecidableEq, Repr

def isBlank (b : UInt8) : Bool := b == 32 || b == 9

/-- `LF & ( ) ; < > |`. -/
def isOperator (b : UInt8) : Bool :=
  b == 10 || b == 38 || b == 40 || b == 41 || b == 59 || b == 60 || b == 62 || b == 124

def isDelim (b : UInt8) : Bool := isBlank b || isOperator b

/-- The bytes that a backslash makes literal in double quotes. -/
def isDoubleSpecial (b : UInt8) : Bool := b == 36 || b == 96 || b == 34 || b == 92

/-- The bytes that start a quotation or an expansion outside quotes. -/
def isQuoting (b : UInt8) : Bool := isDoubleSpecial b || b == 39

/-- The byte stands for itself outside quotes. -/
def isOrdinary (b : UInt8) : Bool := !isDelim b && !isQuoting b

namespace Word

def empty : Word := ⟨[], false, [], false, false⟩

def add (w : Word) (b : UInt8) (quoted : Bool) : Word :=
  { w with text := w.text ++ [(b, quoted)], dollar := false }

def enter (w : Word) (c : Ctx) : Word := { w with nest := c :: w.nest, dollar := false }

def leave (w : Word) : Word := { w with nest := w.nest.tail, dollar := false }

def inside (w : Word) (c : Ctx) : Bool := w.nest.head? == some c

/-- The byte behind a backslash; with LF it is a line continuation. -/
def putEscaped (w : Word) (b : UInt8) : Word :=
  let w := { w with esc := false }
  if b = 10 then w
  else if w.inside .double && !isDoubleSpecial b then (w.add 92 true).add b true
  else w.add b true

/-- A byte that is not special in quotes. -/
def putOther (w : Word) (b : UInt8) : Word :=
  if w.dollar && b == 40 then w.enter .paren
  else if w.dollar && b == 123 then w.enter .brace
  else if w.inside .double then w.add b true
  else if b = 39 then w.enter .single
  else if w.inside .paren && b == 40 then w.enter .paren
  else if w.inside .paren && b == 41 || w.inside .brace && b == 125 then w.leave
  else w.add b false

/-- The word with one more byte. -/
def put (w : Word) (b : UInt8) : Word :=
  if w.esc then w.putEscaped b
  else if w.inside .single then (if b = 39 then w.leave else w.add b true)
  else if b = 92 then { w with esc := true, dollar := false }
  else if b = 34 then (if w.inside .double then w.leave else w.enter .double)
  else if b = 36 then { w with active := true, dollar := true }
  else if b = 96 then
    { (if w.inside .tick then w.leave else w.enter .tick) with active := true }
  else w.putOther b

/-- The byte ends the word. -/
def ends (w : Word) (b : UInt8) : Bool :=
  w.nest.isEmpty && !w.esc && !(w.dollar && b == 40) && isDelim b

end Word

/-- A bracket expression starts here: behind `[` and a `!` comes a byte other than
a slash, and then, with no slash in between, a closing bracket. -/
def closesBracket : List (UInt8 × Bool) → Bool
  | [] => false
  | (b, quoted) :: rest => b != 47 && (b == 93 && !quoted || closesBracket rest)

def opensBracket (rest : List (UInt8 × Bool)) : Bool :=
  let rest := if rest.head? = some (33, false) then rest.tail else rest
  match rest with
  | [] => false
  | (b, _) :: rest => b != 47 && closesBracket rest

/-- The word is a pattern for file names. -/
def isPattern : List (UInt8 × Bool) → Bool
  | [] => false
  | (b, quoted) :: rest =>
      (!quoted && (b == 42 || b == 63 || b == 91 && opensBracket rest)) || isPattern rest

/-- The word is subject to tilde or pathname expansion. -/
def expands (text : List (UInt8 × Bool)) : Bool :=
  text.head? == some (126, false) || isPattern text

def Word.token (w : Word) : Token :=
  if w.active || expands w.text then .expanded else .literal (w.text.map Prod.fst)

def delimiter (b : UInt8) : List Token := if isBlank b then [] else [.op b]

namespace Lex

def next : Lex → UInt8 → Lex
  | between, b => if isDelim b then between else if b = 35 then comment else word (Word.empty.put b)
  | comment, b => if b = 10 then between else comment
  | word w, b => if w.ends b then between else word (w.put b)

def out : Lex → UInt8 → List Token
  | between, b => if isDelim b then delimiter b else []
  | comment, b => if b = 10 then [.op b] else []
  | word w, b => if w.ends b then w.token :: delimiter b else []

/-- What is left at the end of the text; nothing when something is open. -/
def finish : Lex → Option (List Token)
  | between => some []
  | comment => some []
  | word w => if w.nest = [] ∧ w.esc = false then some [w.token] else none

end Lex

def reader : Scanner Lex UInt8 Token := ⟨Lex.next, Lex.out⟩

@[simp] theorem reader_next (s : Lex) (b : UInt8) : reader.next s b = s.next b := rfl

@[simp] theorem reader_out (s : Lex) (b : UInt8) : reader.out s b = s.out b := rfl

/-- The tokens of a text from a state on, when the text is complete. -/
def tokensFrom (s : Lex) (text : Bytes) : Option (List Token) :=
  ((reader.state s text).finish).map (reader.output s text ++ ·)

def tokens (text : Bytes) : Option (List Token) := tokensFrom .between text

theorem tokensFrom_append (s : Lex) (x y : Bytes) :
    tokensFrom s (x ++ y) = (tokensFrom (reader.state s x) y).map (reader.output s x ++ ·) := by
  rw [tokensFrom, tokensFrom, Scanner.state_append, Scanner.output_append, Option.map_map]
  congr 1
  funext toks
  exact List.append_assoc ..

theorem tokensFrom_cons (s : Lex) (b : UInt8) (x : Bytes) :
    tokensFrom s (b :: x) = (tokensFrom (s.next b) x).map (s.out b ++ ·) := by
  rw [show b :: x = [b] ++ x from rfl, tokensFrom_append]
  show (tokensFrom (s.next b) x).map (s.out b ++ [] ++ ·) = _
  rw [List.append_nil]

/-! ## Bytes that stand for themselves -/

/-- A word of unquoted bytes. -/
def bare (text : Bytes) : Word := ⟨text.map (·, false), false, [], false, false⟩

theorem isOrdinary_iff {b : UInt8} :
    isOrdinary b = true ↔ isDelim b = false ∧ isQuoting b = false := by
  simp [isOrdinary]

theorem not_quoting {b : UInt8} (hb : isQuoting b = false) :
    b ≠ 36 ∧ b ≠ 96 ∧ b ≠ 34 ∧ b ≠ 92 ∧ b ≠ 39 := by
  simpa [isQuoting, isDoubleSpecial, and_assoc] using hb

theorem bare_put {b : UInt8} (hb : isQuoting b = false) (text : Bytes) :
    (bare text).put b = bare (text ++ [b]) := by
  obtain ⟨hdollar, htick, hdouble, hslash, hsingle⟩ := not_quoting hb
  simp [Word.put, Word.putOther, Word.inside, Word.add, bare, *]

theorem bare_ends (b : UInt8) (text : Bytes) : (bare text).ends b = isDelim b := by
  simp [Word.ends, bare]

/-- Ordinary bytes are collected as they are. -/
theorem state_bare {x : Bytes} (hx : ∀ b ∈ x, isOrdinary b = true) (text : Bytes) :
    reader.state (.word (bare text)) x = .word (bare (text ++ x)) ∧
      reader.output (.word (bare text)) x = [] := by
  induction x generalizing text with
  | nil => simp [Scanner.state, Scanner.output]
  | cons b x ih =>
      obtain ⟨hdelim, hquote⟩ := isOrdinary_iff.mp (hx b (List.mem_cons_self ..))
      have hnext : reader.next (.word (bare text)) b = .word (bare (text ++ [b])) := by
        rw [reader_next, Lex.next, bare_ends, hdelim, bare_put hquote]
        rfl
      have hout : reader.out (.word (bare text)) b = [] := by
        rw [reader_out, Lex.out, bare_ends, hdelim]
        rfl
      have hrest := ih (fun y hy => hx y (List.mem_cons_of_mem _ hy)) (text ++ [b])
      rw [Scanner.state_cons, Scanner.output_cons, hnext, hout]
      rw [List.append_assoc] at hrest
      exact hrest

/-- A word of ordinary bytes, with a mark in front that is none of a comment. -/
theorem state_word {a : Bytes} (hne : a ≠ []) (hhash : a.head? ≠ some 35)
    (ha : ∀ b ∈ a, isOrdinary b = true) :
    reader.state .between a = .word (bare a) ∧ reader.output .between a = [] := by
  cases a with
  | nil => exact absurd rfl hne
  | cons b x =>
      obtain ⟨hdelim, hquote⟩ := isOrdinary_iff.mp (ha b (List.mem_cons_self ..))
      have hb : b ≠ 35 := by simpa using hhash
      have hnext : reader.next .between b = .word (bare [b]) := by
        rw [reader_next, Lex.next, hdelim, if_neg Bool.false_ne_true, if_neg hb]
        exact congrArg Lex.word (bare_put hquote [])
      have hout : reader.out .between b = [] := by
        rw [reader_out, Lex.out, hdelim]
        rfl
      rw [Scanner.state_cons, Scanner.output_cons, hnext, hout]
      exact state_bare (fun y hy => ha y (List.mem_cons_of_mem _ hy)) [b]

/-! ## Double quotes -/

/-- A word with a double quotation open. -/
def quoted (text : Bytes) : Word := ⟨text.map (·, true), false, [.double], false, false⟩

/-- In double quotes the text `x` is read as `t`. -/
def Reads (x t : Bytes) : Prop :=
  ∀ text, reader.state (.word (quoted text)) x = .word (quoted (text ++ t)) ∧
    reader.output (.word (quoted text)) x = []

theorem Reads.append {x y t u : Bytes} (hx : Reads x t) (hy : Reads y u) :
    Reads (x ++ y) (t ++ u) := by
  intro text
  obtain ⟨hstate, hout⟩ := hx text
  rw [Scanner.state_append, Scanner.output_append, hstate, hout, ← List.append_assoc]
  exact hy (text ++ t)

theorem Reads.nil : Reads [] [] := fun text => ⟨by simp [Scanner.state], rfl⟩

theorem Reads.flatMap {α : Type} {f g : α → Bytes} {l : List α} (h : ∀ a ∈ l, Reads (f a) (g a)) :
    Reads (l.flatMap f) (l.flatMap g) := by
  induction l with
  | nil => exact .nil
  | cons a l ih =>
      rw [List.flatMap_cons, List.flatMap_cons]
      exact (h a (List.mem_cons_self ..)).append (ih fun x hx => h x (List.mem_cons_of_mem _ hx))

theorem quoted_put {b : UInt8} (hb : isDoubleSpecial b = false) (text : Bytes) :
    (quoted text).put b = quoted (text ++ [b]) := by
  have hne : b ≠ 36 ∧ b ≠ 96 ∧ b ≠ 34 ∧ b ≠ 92 := by
    simpa [isDoubleSpecial, and_assoc] using hb
  simp [Word.put, Word.putOther, Word.inside, Word.add, quoted, hne]

theorem quoted_next (b : UInt8) {w : Word} (hw : w.nest ≠ []) :
    Lex.next (.word w) b = .word (w.put b) ∧ Lex.out (.word w) b = [] := by
  have hends : w.ends b = false := by simp [Word.ends, hw]
  rw [Lex.next, Lex.out, hends]
  exact ⟨rfl, rfl⟩

theorem Reads.plain {x : Bytes} (hx : ∀ b ∈ x, isDoubleSpecial b = false) : Reads x x := by
  induction x with
  | nil => exact .nil
  | cons b x ih =>
      refine Reads.append (x := [b]) (t := [b]) ?_ (ih fun y hy => hx y (List.mem_cons_of_mem _ hy))
      intro text
      obtain ⟨hnext, hout⟩ := quoted_next b (w := quoted text) (List.cons_ne_nil _ _)
      rw [quoted_put (hx b (List.mem_cons_self ..))] at hnext
      exact ⟨hnext, by rw [Scanner.output_cons, reader_out, hout]; rfl⟩

/-- A backslash is dropped in front of a special byte, and kept otherwise. -/
theorem Reads.escape {b : UInt8} (hb : b ≠ 10) :
    Reads [92, b] (if isDoubleSpecial b then [b] else [92, b]) := by
  intro text
  have hslash : (quoted text).put 92 = { quoted text with esc := true } := by
    simp [Word.put, Word.inside, quoted]
  have hput : Word.put { quoted text with esc := true } b =
      quoted (text ++ if isDoubleSpecial b then [b] else [92, b]) := by
    cases hspecial : isDoubleSpecial b <;>
      simp [Word.put, Word.putEscaped, Word.inside, Word.add, quoted, hb, hspecial]
  obtain ⟨hnext, hout⟩ := quoted_next 92 (w := quoted text) (List.cons_ne_nil _ _)
  obtain ⟨hnext', hout'⟩ := quoted_next b (w := { quoted text with esc := true })
    (List.cons_ne_nil _ _)
  rw [hslash] at hnext
  rw [hput] at hnext'
  refine ⟨?_, ?_⟩
  · rw [Scanner.state_cons, reader_next, hnext]
    exact hnext'
  · rw [Scanner.output_cons, reader_next, reader_out, hnext, hout, Scanner.output_cons, reader_out,
      hout']
    rfl

theorem expands_quoted (text : Bytes) : expands (text.map (·, true)) = false := by
  have hpattern : isPattern (text.map (·, true)) = false := by
    induction text with
    | nil => rfl
    | cons b text ih => simp [isPattern, ih]
  rw [expands, hpattern]
  cases text with
  | nil => rfl
  | cons b text => simp

/-- A quoted text at the end is one word. -/
theorem tokens_quoted {x t : Bytes} (h : Reads x t) :
    tokensFrom .between (34 :: x ++ [34]) = some [.literal t] := by
  obtain ⟨hstate, hout⟩ := h []
  have hclose : (quoted t).put 34 = ⟨t.map (·, true), false, [], false, false⟩ := by
    simp [Word.put, Word.inside, Word.leave, quoted]
  obtain ⟨hnext, hout'⟩ := quoted_next 34 (w := quoted t) (List.cons_ne_nil _ _)
  rw [List.cons_append, tokensFrom_cons]
  show (tokensFrom (.word (quoted [])) (x ++ [34])).map ([] ++ ·) = _
  rw [tokensFrom_append, hstate, hout, List.nil_append, tokensFrom_cons, hnext, hout', hclose]
  have htoken : Word.token ⟨t.map (·, true), false, [], false, false⟩ = .literal t := by
    simp only [Word.token, expands_quoted, Bool.or_self, List.map_map]
    exact congrArg Token.literal (List.map_id t)
  simp [tokensFrom, Scanner.state, Scanner.output, Lex.finish, htoken]

theorem Word.put_active {w : Word} (hw : w.active = true) (b : UInt8) : (w.put b).active = true := by
  have hescaped : (w.putEscaped b).active = true := by
    rw [Word.putEscaped]
    split_ifs <;> exact hw
  have hother : (w.putOther b).active = true := by
    rw [Word.putOther]
    split_ifs <;> exact hw
  rw [Word.put]
  split_ifs
  · exact hescaped
  · exact hw
  · exact hw
  · exact hw
  · exact hw
  · exact hw
  · rfl
  · rfl
  · rfl
  · exact hother

/-- A word with an expansion in it is not taken as it stands. -/
theorem tokensFrom_active {x : Bytes} {w : Word} (hw : w.active = true) {ts : List Token}
    (h : tokensFrom (.word w) x = some ts) : ts.head? = some .expanded := by
  have htoken : w.token = .expanded := by simp [Word.token, hw]
  induction x generalizing w ts with
  | nil =>
      rw [tokensFrom] at h
      change (Lex.finish (.word w)).map ([] ++ ·) = _ at h
      rw [Lex.finish] at h
      split_ifs at h
      · rw [htoken] at h
        obtain rfl := Option.some.inj h
        rfl
      · cases h
  | cons b x ih =>
      rw [tokensFrom_cons, Lex.next, Lex.out] at h
      obtain ⟨us, hus, rfl⟩ := Option.map_eq_some_iff.mp h
      split_ifs at hus ⊢ with hends
      · rw [htoken]
        rfl
      · have hput := Word.put_active hw b
        exact ih hput hus (by simp [Word.token, hput])

/-- In double quotes a dollar or a backquote starts an expansion. -/
theorem tokens_quoted_active {x y t : Bytes} (h : Reads x t) {b : UInt8} (hb : b = 36 ∨ b = 96)
    {ts : List Token} (hts : tokensFrom .between (34 :: (x ++ b :: y)) = some ts) :
    ts.head? = some .expanded := by
  obtain ⟨hstate, hout⟩ := h []
  have hactive : ((quoted t).put b).active = true := by
    rcases hb with rfl | rfl <;> simp [Word.put, Word.inside, quoted]
  obtain ⟨hnext, hout'⟩ := quoted_next b (w := quoted t) (List.cons_ne_nil _ _)
  rw [tokensFrom_cons] at hts
  change (tokensFrom (.word (quoted [])) (x ++ b :: y)).map ([] ++ ·) = _ at hts
  rw [tokensFrom_append, hstate, hout, List.nil_append, tokensFrom_cons, hnext, hout'] at hts
  obtain ⟨us, hus, rfl⟩ := Option.map_eq_some_iff.mp hts
  obtain ⟨vs, hvs, rfl⟩ := Option.map_eq_some_iff.mp hus
  obtain ⟨zs, hzs, rfl⟩ := Option.map_eq_some_iff.mp hvs
  exact tokensFrom_active hactive hzs

/-! ## Weights -/

/-- The bytes of a word and the delimiter behind it. -/
def Token.weight : Token → Nat
  | .literal s => s.length + 1
  | _ => 0

def weight (ts : List Token) : Nat := (ts.map Token.weight).sum

theorem weight_append (x y : List Token) : weight (x ++ y) = weight x + weight y := by
  simp [weight]

/-- The bytes that the word being read holds; in double quotes a backslash may still
turn out to be one of them. -/
def Lex.held : Lex → Nat
  | .word w => w.text.length + if w.esc && w.inside .double then 1 else 0
  | _ => 0

theorem held_of_not_esc {w : Word} (hesc : w.esc = false) : (Lex.word w).held = w.text.length := by
  simp [Lex.held, hesc]

theorem Word.putOther_text (w : Word) (b : UInt8) :
    (w.putOther b).esc = w.esc ∧ (w.putOther b).text.length ≤ w.text.length + 1 := by
  rw [Word.putOther]
  split_ifs <;> simp [Word.add, Word.enter, Word.leave]

/-- The byte behind a backslash comes with the backslash in double quotes only. -/
theorem Word.putEscaped_text (w : Word) (b : UInt8) :
    (w.putEscaped b).esc = false ∧
      (w.putEscaped b).text.length ≤ w.text.length + 1 + if w.inside .double then 1 else 0 := by
  rw [Word.putEscaped]
  split_ifs <;> simp_all [Word.add, Word.inside]
  omega

theorem Word.put_held (w : Word) (b : UInt8) :
    (Lex.word (w.put b)).held ≤ (Lex.word w).held + 1 := by
  rw [Word.put]
  cases hesc : w.esc with
  | true =>
      obtain ⟨hesc', htext⟩ := w.putEscaped_text b
      rw [if_pos rfl, held_of_not_esc hesc', Lex.held, hesc, Bool.true_and]
      omega
  | false =>
      rw [if_neg Bool.false_ne_true, held_of_not_esc hesc]
      obtain ⟨hother, htext⟩ := w.putOther_text b
      have hquote : ∀ w' : Word, w'.esc = false → w'.text = w.text →
          (Lex.word w').held ≤ w.text.length + 1 := by
        intro w' hesc' htext'
        rw [held_of_not_esc hesc', htext']
        omega
      split_ifs
      · exact hquote _ hesc rfl
      · rw [held_of_not_esc (w := w.add b true) hesc]
        simp [Word.add]
      · -- the backslash
        simp only [Lex.held, Bool.true_and]
        split <;> omega
      · exact hquote _ hesc rfl
      · exact hquote _ hesc rfl
      · exact hquote _ rfl rfl
      · exact hquote _ hesc rfl
      · exact hquote _ hesc rfl
      · rw [held_of_not_esc (hother.trans hesc)]
        exact htext

theorem Word.token_weight (w : Word) : weight [w.token] ≤ w.text.length + 1 := by
  simp only [weight, List.map_cons, List.map_nil, List.sum_cons, List.sum_nil, Word.token]
  split
  · simp [Token.weight]
  · simp [Token.weight]

theorem delimiter_weight (b : UInt8) : weight (delimiter b) = 0 := by
  rw [delimiter]
  split
  · rfl
  · rfl

/-- One byte read adds one to what is held and emitted, at most. -/
theorem Lex.read_weight (s : Lex) (b : UInt8) :
    weight (s.out b) + (s.next b).held ≤ s.held + 1 := by
  cases s with
  | between =>
      rw [Lex.out, Lex.next]
      split
      · rw [delimiter_weight]
        simp [Lex.held]
      · split
        · simp [weight, Lex.held]
        · have hput : (word (Word.empty.put b)).held ≤ 0 + 1 := Word.put_held .empty b
          simp only [weight, List.map_nil, List.sum_nil]
          exact (Nat.zero_add _).le.trans hput
  | comment =>
      rw [Lex.out, Lex.next]
      split
      · simp [weight, Token.weight, Lex.held]
      · simp [weight, Lex.held]
  | word w =>
      rw [Lex.out, Lex.next]
      split
      · have htoken := w.token_weight
        have hdelim := delimiter_weight b
        rw [← List.singleton_append, weight_append, hdelim]
        simp only [Lex.held]
        omega
      · have hput := w.put_held b
        simp only [weight, List.map_nil, List.sum_nil]
        omega

theorem read_weight (s : Lex) (x : Bytes) :
    weight (reader.output s x) + (reader.state s x).held ≤ s.held + x.length := by
  induction x generalizing s with
  | nil => simp [Scanner.output, Scanner.state, weight]
  | cons b x ih =>
      have hstep : weight (reader.out s b) + (reader.next s b).held ≤ s.held + 1 := s.read_weight b
      have hrest := ih (reader.next s b)
      rw [Scanner.output_cons, Scanner.state_cons, weight_append, List.length_cons]
      omega

/-! ## Words that are the pieces of a text -/

/-- A text that the shell takes as one word and as it stands. -/
structure Plain (a : Bytes) : Prop where
  ne_nil : a ≠ []
  no_comment : a.head? ≠ some 35
  ordinary : ∀ b ∈ a, isOrdinary b = true
  unexpanded : expands (a.map (·, false)) = false

theorem bare_token (a : Bytes) :
    (bare a).token = if expands (a.map (·, false)) then .expanded else .literal a := by
  simp only [Word.token, bare, Bool.false_or, List.map_map]
  congr
  exact List.map_id a

/-- A delimiter ends a word of ordinary bytes. -/
theorem read_delim {x : Bytes} (hne : x ≠ []) (hhash : x.head? ≠ some 35)
    (hx : ∀ b ∈ x, isOrdinary b = true) {b : UInt8} (hb : isDelim b = true) :
    reader.state .between (x ++ [b]) = .between ∧
      reader.output .between (x ++ [b]) = (bare x).token :: delimiter b := by
  obtain ⟨hstate, hout⟩ := state_word hne hhash hx
  rw [Scanner.state_append, Scanner.output_append, hstate, hout]
  refine ⟨?_, ?_⟩
  · show Lex.next (.word (bare x)) b = .between
    rw [Lex.next, bare_ends, hb]
    rfl
  · show Lex.out (.word (bare x)) b ++ [] = _
    rw [Lex.out, bare_ends, hb, List.append_nil]
    rfl

theorem Plain.read {a : Bytes} (ha : Plain a) :
    reader.state .between (a ++ [32]) = .between ∧
      reader.output .between (a ++ [32]) = [.literal a] := by
  obtain ⟨hstate, hout⟩ := read_delim ha.ne_nil ha.no_comment ha.ordinary (b := 32) rfl
  rw [bare_token, ha.unexpanded] at hout
  exact ⟨hstate, hout⟩

/-- The texts with a blank behind each. -/
def spaced (args : List Bytes) : Bytes := args.flatMap (· ++ [32])

theorem spaced_cons (a : Bytes) (args : List Bytes) : spaced (a :: args) = a ++ 32 :: spaced args := by
  simp [spaced]

theorem spaced_read {args : List Bytes} (hargs : ∀ a ∈ args, Plain a) :
    reader.state .between (spaced args) = .between ∧
      reader.output .between (spaced args) = args.map .literal := by
  induction args with
  | nil => exact ⟨rfl, rfl⟩
  | cons a args ih =>
      obtain ⟨hstate, hout⟩ := (hargs a (List.mem_cons_self ..)).read
      obtain ⟨hrest, hrest'⟩ := ih fun x hx => hargs x (List.mem_cons_of_mem _ hx)
      have htext : spaced (a :: args) = (a ++ [32]) ++ spaced args := by simp [spaced]
      rw [htext, Scanner.state_append, Scanner.output_append, hstate, hout, hrest, hrest']
      exact ⟨rfl, rfl⟩

theorem weight_literals (args : List Bytes) : weight (args.map .literal) = (spaced args).length := by
  induction args with
  | nil => rfl
  | cons a args ih =>
      rw [List.map_cons, ← List.singleton_append, weight_append, ih, spaced_cons]
      simp [weight, Token.weight]
      omega

theorem weight_le_of_prefix {x y : List Token} (h : x <+: y) : weight x ≤ weight y := by
  obtain ⟨z, rfl⟩ := h
  rw [weight_append]
  omega

/-- A text one byte of which is lost cannot have its pieces as its words. -/
theorem not_literals_of_loss {args : List Bytes} {x y : Bytes} (htext : spaced args = x ++ y)
    (hloss : weight (reader.output .between x) + (reader.state .between x).held < x.length) :
    ¬ args.map .literal <+: reader.output .between (spaced args) := by
  intro h
  have hle := weight_le_of_prefix h
  have hrest := read_weight (reader.state .between x) y
  rw [weight_literals, htext, Scanner.output_append, weight_append, List.length_append] at hle
  omega

theorem delim_of_quoting {b : UInt8} (hb : isQuoting b = true) : isDelim b = false ∧ b ≠ 35 := by
  simp only [isQuoting, isDoubleSpecial, Bool.or_eq_true, beq_iff_eq] at hb
  rcases hb with (((rfl | rfl) | rfl) | rfl) | rfl <;> decide

/-- A quoting byte is not added to the word. -/
theorem bare_put_quoting {b : UInt8} (hb : isQuoting b = true) (text : Bytes) :
    (Lex.word ((bare text).put b)).held = text.length := by
  simp only [isQuoting, isDoubleSpecial, Bool.or_eq_true, beq_iff_eq] at hb
  rcases hb with (((rfl | rfl) | rfl) | rfl) | rfl <;>
    simp [Word.put, Word.putOther, Word.inside, Word.enter, Lex.held, bare]

/-- The first quoting byte behind ordinary ones is a loss. -/
theorem loss_of_quoting {x : Bytes} {b : UInt8} (hhash : x.head? ≠ some 35)
    (hx : ∀ y ∈ x, isOrdinary y = true) (hb : isQuoting b = true) :
    weight (reader.output .between (x ++ [b])) + (reader.state .between (x ++ [b])).held <
      (x ++ [b]).length := by
  obtain ⟨hdelim, hne⟩ := delim_of_quoting hb
  have hheld := bare_put_quoting hb x
  have hread : reader.state .between (x ++ [b]) = .word ((bare x).put b) ∧
      reader.output .between (x ++ [b]) = [] := by
    by_cases hnil : x = []
    · subst hnil
      refine ⟨?_, ?_⟩
      · show Lex.next .between b = _
        rw [Lex.next, hdelim, if_neg Bool.false_ne_true, if_neg hne]
        rfl
      · show Lex.out .between b ++ [] = _
        rw [Lex.out, hdelim]
        rfl
    · obtain ⟨hstate, hout⟩ := state_word hnil hhash hx
      rw [Scanner.state_append, Scanner.output_append, hstate, hout]
      refine ⟨?_, ?_⟩
      · show Lex.next (.word (bare x)) b = _
        rw [Lex.next, bare_ends, hdelim]
        rfl
      · show Lex.out (.word (bare x)) b ++ [] = _
        rw [Lex.out, bare_ends, hdelim]
        rfl
  rw [hread.1, hread.2, hheld]
  simp [weight]

theorem eq_of_bare_token {x a : Bytes} (h : (bare x).token = .literal a) :
    x = a ∧ expands (x.map (·, false)) = false := by
  rw [bare_token] at h
  cases hexp : expands (x.map (·, false)) with
  | true =>
      rw [hexp] at h
      cases h
  | false =>
      rw [hexp] at h
      exact ⟨Token.literal.inj h, rfl⟩

/-- A text is made of ordinary bytes, or one that is not ordinary comes first. -/
theorem ordinary_or_split (a : Bytes) :
    (∀ y ∈ a, isOrdinary y = true) ∨
      ∃ x b q, a = x ++ b :: q ∧ (∀ y ∈ x, isOrdinary y = true) ∧ isOrdinary b = false := by
  cases hrest : a.dropWhile isOrdinary with
  | nil => exact .inl (List.dropWhile_eq_nil_iff.mp hrest)
  | cons b q =>
      refine .inr ⟨a.takeWhile isOrdinary, b, q, ?_, fun y hy => List.mem_takeWhile_imp hy, ?_⟩
      · rw [← hrest, List.takeWhile_append_dropWhile]
      · have hhead := List.head?_dropWhile_not isOrdinary a
        rw [hrest] at hhead
        simpa using hhead

/-- A word that a delimiter ends is the first token. -/
theorem first_of_delim {a x q : Bytes} {b : UInt8} {args : List Bytes}
    (htext : spaced (a :: args) = x ++ [b] ++ q) (hne : x ≠ []) (hhash : x.head? ≠ some 35)
    (hx : ∀ y ∈ x, isOrdinary y = true) (hb : isDelim b = true)
    (h : (a :: args).map .literal <+: reader.output .between (spaced (a :: args))) :
    x = a ∧ expands (x.map (·, false)) = false := by
  rw [htext, Scanner.output_append, (read_delim hne hhash hx hb).2] at h
  exact eq_of_bare_token (List.cons_prefix_cons.mp h).1.symm

/-- No literal comes first when a delimiter does. -/
theorem not_literals_of_delim {a q : Bytes} {b : UInt8} {args : List Bytes}
    (htext : spaced (a :: args) = [b] ++ q) (hb : isDelim b = true) :
    ¬ (a :: args).map .literal <+: reader.output .between (spaced (a :: args)) := by
  have hout : reader.output .between [b] = delimiter b := by
    show Lex.out .between b ++ [] = _
    rw [Lex.out, hb, List.append_nil]
    rfl
  cases hblank : isBlank b with
  | true =>
      -- a blank that ends no word is lost
      have hstate : reader.state .between [b] = .between := by
        show Lex.next .between b = _
        rw [Lex.next, hb]
        rfl
      refine not_literals_of_loss htext ?_
      rw [hout, hstate, delimiter_weight]
      exact Nat.one_pos
  | false =>
      -- an operator is a token of its own
      intro h
      rw [htext, Scanner.output_append, hout, delimiter, hblank] at h
      cases (List.cons_prefix_cons.mp h).1

/-- The first piece is a word by itself, or a byte is lost in it. -/
theorem first_exact {a : Bytes} {args : List Bytes}
    (h : (a :: args).map .literal <+: reader.output .between (spaced (a :: args))) : Plain a := by
  have htext := spaced_cons a args
  have hhash : a.head? ≠ some 35 := by
    intro hhead
    obtain ⟨t, rfl⟩ : ∃ t, a = 35 :: t := List.head?_eq_some_iff.mp hhead
    exact not_literals_of_loss (x := [35]) htext (by decide) h
  rcases ordinary_or_split a with hall | ⟨x, b, q, ha, hx, hb⟩
  · by_cases hne : a = []
    · subst hne
      exact absurd h (not_literals_of_delim htext rfl)
    · have hsplit : spaced (a :: args) = a ++ [32] ++ spaced args := by simp [htext]
      exact ⟨hne, hhash, hall, (first_of_delim hsplit hne hhash hall rfl h).2⟩
  · -- the byte that is not ordinary ends the word early or takes itself away
    exfalso
    have hsplit : spaced (a :: args) = x ++ [b] ++ (q ++ 32 :: spaced args) := by
      rw [htext, ha]
      simp
    have hhash' : x.head? ≠ some 35 := by
      intro hhead
      obtain ⟨t, rfl⟩ : ∃ t, x = 35 :: t := List.head?_eq_some_iff.mp hhead
      exact hhash (by rw [ha]; rfl)
    cases hdelim : isDelim b with
    | false =>
        have hquote : isQuoting b = true := by
          simpa [isOrdinary, hdelim] using hb
        exact not_literals_of_loss hsplit (loss_of_quoting hhash' hx hquote) h
    | true =>
        by_cases hne : x = []
        · subst hne
          exact not_literals_of_delim hsplit hdelim h
        · have heq := (first_of_delim hsplit hne hhash' hx hdelim h).1
          rw [ha] at heq
          simp at heq

/-- **Words that are the pieces of a text.** When the pieces of a text between its
blanks come out as literal words, each of them is plain. -/
theorem words_exact {args : List Bytes}
    (h : args.map .literal <+: reader.output .between (spaced args)) : ∀ a ∈ args, Plain a := by
  induction args with
  | nil => exact fun a ha => absurd ha (by simp)
  | cons a args ih =>
      have ha := first_exact h
      intro x hx
      rcases List.mem_cons.mp hx with rfl | hx
      · exact ha
      · refine ih ?_ x hx
        have hsplit : spaced (a :: args) = (a ++ [32]) ++ spaced args := by simp [spaced]
        rw [hsplit, Scanner.output_append, ha.read.1, ha.read.2] at h
        exact (List.cons_prefix_cons.mp h).2

/-! ## Words between other text -/

/-- The bytes that close something. -/
def isClosing (b : UInt8) : Bool := b == 39 || b == 34 || b == 96 || b == 41 || b == 125

theorem not_closing {b : UInt8} (hb : isClosing b = false) :
    b ≠ 39 ∧ b ≠ 34 ∧ b ≠ 96 ∧ b ≠ 41 ∧ b ≠ 125 := by
  simpa [isClosing, and_assoc] using hb

/-- What is open stays open. -/
theorem Word.put_nest {w : Word} (hw : w.nest ≠ []) {b : UInt8} (hb : isClosing b = false) :
    (w.put b).nest ≠ [] := by
  obtain ⟨hsingle, hdouble, htick, hparen, hbrace⟩ := not_closing hb
  have hescaped : (w.putEscaped b).nest = w.nest := by
    rw [Word.putEscaped]
    split_ifs <;> rfl
  have hother : (w.putOther b).nest ≠ [] := by
    rw [Word.putOther]
    split_ifs <;> simp_all [Word.enter, Word.add]
  rw [Word.put]
  split_ifs
  · rwa [hescaped]
  · exact hw
  · exact hw
  · exact hw
  · exact hother

theorem Word.ends_of_open {w : Word} (hw : w.nest ≠ []) (b : UInt8) : w.ends b = false := by
  simp [Word.ends, hw]

/-- A text that closes nothing does not complete an open word. -/
theorem tokensFrom_open {x : Bytes} (hx : ∀ b ∈ x, isClosing b = false) {w : Word}
    (hw : w.nest ≠ []) : tokensFrom (.word w) x = none := by
  induction x generalizing w with
  | nil => simp [tokensFrom, Scanner.state, Lex.finish, hw]
  | cons b x ih =>
      have hnext : Lex.next (.word w) b = .word (w.put b) := by
        rw [Lex.next, w.ends_of_open hw]
        rfl
      rw [tokensFrom_cons, hnext, ih (fun y hy => hx y (List.mem_cons_of_mem _ hy))
        (Word.put_nest hw (hx b (List.mem_cons_self ..)))]
      rfl

theorem tokensFrom_comment {x : Bytes} (hx : (10 : UInt8) ∉ x) : tokensFrom .comment x = some [] := by
  induction x with
  | nil => rfl
  | cons b x ih =>
      rw [List.mem_cons, not_or] at hx
      rw [tokensFrom_cons, Lex.next, Lex.out, if_neg (Ne.symm hx.1), if_neg (Ne.symm hx.1), ih hx.2]
      rfl

theorem Word.esc_of_put {w : Word} {b : UInt8} (h : (w.put b).esc = true) : b = 92 := by
  by_contra hb
  have hescaped := (w.putEscaped_text b).1
  have hother := (w.putOther_text b).1
  rw [Word.put] at h
  split_ifs at h <;> simp_all [Word.leave, Word.enter, Word.add]

/-- A word that waits for an escaped byte was reached by a backslash. -/
theorem state_esc {x : Bytes} {w : Word} (h : reader.state .between x = .word w)
    (hesc : w.esc = true) : ∃ y, x = y ++ [92] := by
  rcases List.eq_nil_or_concat x with rfl | ⟨y, b, rfl⟩
  · cases h
  · rw [List.concat_eq_append, Scanner.state_append] at h
    refine ⟨y, ?_⟩
    have hput : ∃ w₀ : Word, w = w₀.put b := by
      change Lex.next (reader.state .between y) b = _ at h
      cases hs : reader.state .between y with
      | between =>
          rw [hs, Lex.next] at h
          split_ifs at h
          exact ⟨_, (Lex.word.inj h).symm⟩
      | comment =>
          rw [hs, Lex.next] at h
          split_ifs at h
      | word w₀ =>
          rw [hs, Lex.next] at h
          split_ifs at h
          exact ⟨_, (Lex.word.inj h).symm⟩
    obtain ⟨w₀, rfl⟩ := hput
    rw [Word.esc_of_put hesc, List.concat_eq_append]

theorem Word.ends_blank (w : Word) : w.ends 32 = true ↔ w.nest = [] ∧ w.esc = false := by
  simp [Word.ends, isDelim, isBlank]

/-- Behind a blank an unquoted word goes on only when the blank was escaped. -/
theorem escaped_blank {x : Bytes} {w : Word} (h : reader.state .between (x ++ [32]) = .word w)
    (hw : w.nest = []) : w.esc = false ∧ (∃ y, x = y ++ [92]) ∧ ∃ t, w.text = t ++ [(32, true)] := by
  rw [Scanner.state_append] at h
  change Lex.next (reader.state .between x) 32 = _ at h
  cases hs : reader.state .between x with
  | between =>
      rw [hs] at h
      cases h
  | comment =>
      rw [hs] at h
      cases h
  | word w₀ =>
      rw [hs, Lex.next] at h
      split_ifs at h with hends
      obtain rfl := Lex.word.inj h
      cases hesc : w₀.esc with
      | true =>
          have hput : w₀.put 32 = w₀.putEscaped 32 := by
            rw [Word.put, hesc]
            rfl
          have hnest : w₀.nest = [] := by
            rw [hput, Word.putEscaped] at hw
            split_ifs at hw <;> exact hw
          rw [hput]
          refine ⟨(w₀.putEscaped_text 32).1, state_esc hs hesc, w₀.text, ?_⟩
          simp [Word.putEscaped, Word.inside, hnest, Word.add]
      | false =>
          exfalso
          by_cases hnest : w₀.nest = []
          · exact hends (w₀.ends_blank.mpr ⟨hnest, hesc⟩)
          · exact Word.put_nest hnest (by decide) hw

theorem prefix_of_not_mem {α : Type} {m l r : List α} {x : α} (h : m <+: l ++ x :: r) (hx : x ∉ m) :
    m <+: l := by
  rcases List.prefix_or_prefix_of_prefix h (List.prefix_append l (x :: r)) with hle | ⟨t, rfl⟩
  · exact hle
  · cases t with
    | nil => simp
    | cons y t =>
        rw [List.prefix_append_right_inj, List.cons_prefix_cons] at h
        exact absurd (h.1 ▸ by simp) hx

theorem op_not_mem_literals (b : UInt8) (args : List Bytes) : Token.op b ∉ args.map Token.literal := by
  simp

theorem Word.text_of_token {w : Word} {a : Bytes} (h : w.token = .literal a) :
    w.text.map Prod.fst = a := by
  rw [Word.token] at h
  split_ifs at h
  exact Token.literal.inj h

section
variable {b : UInt8} {tail : Bytes} (hop : isOperator b = true) (hblank : isBlank b = false)
  (hb : b ≠ 40)
include hop hblank hb

theorem tokensFrom_operator {w : Word} (hnest : w.nest = []) (hesc : w.esc = false) :
    tokensFrom (.word w) (b :: tail) =
      (tokensFrom .between tail).map ([w.token, .op b] ++ ·) := by
  have hends : w.ends b = true := by
    simp [Word.ends, hnest, hesc, hb, isDelim, hop]
  rw [tokensFrom_cons, Lex.next, Lex.out, hends, delimiter, hblank]
  rfl

/-- In front of an operator and a text that closes nothing, pieces that come out as
literal words come out of their own text. -/
theorem literals_of_tokens (htail : ∀ y ∈ b :: tail, isClosing y = false ∧ y ≠ 10)
    {args : List Bytes} {us : List Token}
    (h : tokensFrom .between (spaced args ++ b :: tail) = some (args.map .literal ++ us)) :
    args.map .literal <+: reader.output .between (spaced args) := by
  have hlf : (10 : UInt8) ∉ b :: tail := fun hmem => (htail 10 hmem).2 rfl
  rw [tokensFrom_append] at h
  obtain ⟨rest, hrest, heq⟩ := Option.map_eq_some_iff.mp h
  have hpre : args.map .literal <+: reader.output .between (spaced args) ++ rest := ⟨us, heq.symm⟩
  cases hs : reader.state .between (spaced args) with
  | between =>
      have hdelim : isDelim b = true := by simp [isDelim, hop]
      rw [hs, tokensFrom_cons, Lex.next, Lex.out, hdelim, delimiter, hblank] at hrest
      obtain ⟨more, -, rfl⟩ := Option.map_eq_some_iff.mp hrest
      exact prefix_of_not_mem hpre (op_not_mem_literals b args)
  | comment =>
      rw [hs, tokensFrom_comment hlf] at hrest
      obtain rfl := Option.some.inj hrest
      rwa [List.append_nil] at hpre
  | word w =>
      by_cases hnest : w.nest = []
      · -- the last blank was escaped, and the word ends at the operator
        rcases List.eq_nil_or_concat args with rfl | ⟨init, a, rfl⟩
        · simp
        rw [List.concat_eq_append] at *
        have htext : spaced (init ++ [a]) = spaced init ++ a ++ [32] := by simp [spaced]
        rw [htext] at hs
        obtain ⟨hesc, ⟨y, hy⟩, t, ht⟩ := escaped_blank hs hnest
        rw [← htext] at hs
        rw [hs, tokensFrom_operator hop hblank hb hnest hesc] at hrest
        obtain ⟨more, -, rfl⟩ := Option.map_eq_some_iff.mp hrest
        have hpre' : (init ++ [a]).map .literal <+:
            reader.output .between (spaced (init ++ [a])) ++ [w.token] := by
          refine prefix_of_not_mem (x := .op b) (r := more) ?_ (op_not_mem_literals b _)
          rwa [List.append_assoc]
        rcases List.prefix_concat_iff.mp hpre' with hlast | hle
        · exfalso
          rw [List.map_append] at hlast
          have htoken : w.token = .literal a := by
            simpa using (List.append_inj' hlast rfl).2.symm
          obtain rfl := Word.text_of_token htoken
          rw [ht, List.map_append, ← List.append_assoc] at hy
          exact absurd (List.append_inj' hy rfl).2 (by decide)
        · exact hle
      · rw [hs, tokensFrom_open (fun z hz => (htail z hz).1) hnest] at hrest
        cases hrest

end

/-- The shell is between two words behind the text and a blank. -/
def Settled (text : Bytes) : Prop := reader.state .between (text ++ [32]) = .between

instance (text : Bytes) : Decidable (Settled text) :=
  inferInstanceAs (Decidable (_ = _))

/-- A blank ends whatever the end of the text would end, but a comment. -/
theorem next_blank_iff (s : Lex) : s.next 32 = .between ↔ s ≠ .comment ∧ s.finish.isSome := by
  cases s with
  | between => simp [Lex.next, Lex.finish, isDelim, isBlank]
  | comment => simp [Lex.next]
  | word w =>
      rw [Lex.next, Lex.finish]
      by_cases hw : w.nest = [] ∧ w.esc = false
      · rw [if_pos (w.ends_blank.mpr hw), if_pos hw]
        simp
      · rw [if_neg (hw ∘ w.ends_blank.mp), if_neg hw]
        simp

theorem out_blank {s : Lex} (hs : s ≠ .comment) {f : List Token} (hf : s.finish = some f) :
    s.out 32 = f := by
  cases s with
  | between => exact Option.some.inj hf
  | comment => exact absurd rfl hs
  | word w =>
      rw [Lex.finish] at hf
      split_ifs at hf with hw
      obtain rfl := Option.some.inj hf
      rw [Lex.out, if_pos (w.ends_blank.mpr hw)]
      rfl

theorem Settled.tokens {text : Bytes} (h : Settled text) :
    tokens text = some (reader.output .between (text ++ [32])) := by
  rw [Settled, Scanner.state_append] at h
  obtain ⟨hne, hsome⟩ := (next_blank_iff _).mp h
  obtain ⟨f, hf⟩ := Option.isSome_iff_exists.mp hsome
  rw [Shell.tokens, tokensFrom, hf, Scanner.output_append]
  show some (_ ++ f) = some (_ ++ (Lex.out _ 32 ++ []))
  rw [out_blank hne hf, List.append_nil]

/-- What the shell makes of a text in front when more text follows. -/
theorem settled_of_tokens {text rest : Bytes} {ts more : List Token} (hts : tokens text = some ts)
    (hrest : (10 : UInt8) ∉ rest) (hmore : more ≠ [])
    (h : tokens (text ++ 32 :: rest) = some (ts ++ more)) :
    Settled text ∧ tokensFrom .between rest = some more := by
  have hsome : (reader.state .between text).finish.isSome := by
    rw [tokens, tokensFrom] at hts
    exact Option.isSome_iff_exists.mpr ((Option.map_eq_some_iff.mp hts).imp fun _ h => h.1)
  have hne : reader.state .between text ≠ .comment := by
    intro hcomment
    -- in a comment everything that follows is lost
    have hlf : (10 : UInt8) ∉ (32 :: rest) := by simpa using hrest
    rw [tokens, tokensFrom, hcomment] at hts
    rw [tokens, tokensFrom_append, hcomment, tokensFrom_comment hlf] at h
    obtain rfl := Option.some.inj hts
    exact hmore (by simpa using h)
  have hsettled : Settled text := by
    rw [Settled, Scanner.state_append]
    exact (next_blank_iff _).mpr ⟨hne, hsome⟩
  refine ⟨hsettled, ?_⟩
  rw [hsettled.tokens] at hts
  obtain rfl := Option.some.inj hts
  rw [show text ++ 32 :: rest = (text ++ [32]) ++ rest by simp, tokens, tokensFrom_append,
    show reader.state .between (text ++ [32]) = .between from hsettled] at h
  obtain ⟨toks, htoks, heq⟩ := Option.map_eq_some_iff.mp h
  rw [htoks, List.append_cancel_left heq]

/-- **Arguments as they stand.** Pieces written behind a text come out behind its
tokens, as literal words, exactly when the text is settled and every piece is plain. -/
theorem passes_iff {text tail : Bytes} {args : List Bytes} {b : UInt8} (hop : isOperator b = true)
    (hblank : isBlank b = false) (hb : b ≠ 40)
    (htail : ∀ y ∈ b :: tail, isClosing y = false ∧ y ≠ 10)
    (hdone : (tokensFrom .between (b :: tail)).isSome) (hne : args ≠ [])
    (hargs : ∀ a ∈ args, (10 : UInt8) ∉ a) :
    (∃ ts us, tokens text = some ts ∧
        tokens (text ++ 32 :: (spaced args ++ b :: tail)) = some (ts ++ (args.map .literal ++ us))) ↔
      Settled text ∧ ∀ a ∈ args, Plain a := by
  constructor
  · rintro ⟨ts, us, hts, h⟩
    have hlf : (10 : UInt8) ∉ spaced args ++ b :: tail := by
      rw [List.mem_append, not_or]
      refine ⟨?_, fun hmem => (htail 10 hmem).2 rfl⟩
      intro hmem
      obtain ⟨a, ha, hmem⟩ := List.mem_flatMap.mp hmem
      exact hargs a ha (by simpa using hmem)
    obtain ⟨hsettled, hrest⟩ := settled_of_tokens hts hlf (by simp [hne]) h
    exact ⟨hsettled, words_exact (literals_of_tokens hop hblank hb htail hrest)⟩
  · rintro ⟨hsettled, hplain⟩
    obtain ⟨us, hus⟩ := Option.isSome_iff_exists.mp hdone
    obtain ⟨hstate, hout⟩ := spaced_read hplain
    refine ⟨_, us, hsettled.tokens, ?_⟩
    rw [show text ++ 32 :: (spaced args ++ b :: tail) = (text ++ [32]) ++ (spaced args ++ b :: tail)
      by simp, tokens, tokensFrom_append,
      show reader.state .between (text ++ [32]) = .between from hsettled, tokensFrom_append, hstate,
      hout, hus]
    rfl

end QconnMcp.Kit.Shell
