import QconnMcp.Kit.Bytes

/-!
# Command-line flags

Go's `flag` package. A flag set binds names to variables, here to a part of a
state `α`. `Parse` reads the arguments from left to right: each flag stores its
value at once, and the first argument that is not a flag, is not defined or has
a bad value ends the parse. Words written for a flag (`-n=v`, `-n v`, `-n`, with
one dash or two) are read back as that flag and its value.
-/

namespace QconnMcp.Kit

variable {α : Type}

def dash : UInt8 := 0x2d
def equals : UInt8 := 0x3d

/-! ## Flag sets -/

/-- A flag: whether it is a boolean one, which texts its `Set` accepts, and what
`Set` stores. A text that is not accepted is an error, but something is stored
all the same. -/
structure Flag (α : Type) where
  isBool : Bool
  valid : Bytes → Bool
  store : Bytes → α → α

/-- What `Var` asks of a name, beside that it is not empty. -/
def wellNamed (name : Bytes) : Bool :=
  name != [] && name.head? != some dash && !name.contains equals

theorem wellNamed_cases {name : Bytes} (h : wellNamed name = true) :
    ∃ c s, name = c :: s ∧ c ≠ dash ∧ c ≠ equals ∧ equals ∉ name := by
  cases name with
  | nil => exact absurd h (by decide)
  | cons c s =>
      simp only [wellNamed, Bool.and_eq_true, bne_iff_ne, List.head?_cons, ne_eq,
        Option.some.injEq, Bool.not_eq_true', List.contains_eq_mem, decide_eq_false_iff_not] at h
      obtain ⟨⟨-, hdash⟩, hequals⟩ := h
      refine ⟨c, s, rfl, hdash, ?_, hequals⟩
      rintro rfl
      exact hequals List.mem_cons_self

/-- The flags that have been defined. -/
structure FlagSet (α : Type) where
  table : List (Bytes × Flag α)
  named : (table.all fun p => wellNamed p.1) = true

def FlagSet.formal (fs : FlagSet α) (name : Bytes) : Option (Flag α) := fs.table.lookup name

theorem FlagSet.wellNamed {fs : FlagSet α} {name : Bytes} {f : Flag α}
    (h : fs.formal name = some f) : wellNamed name = true := by
  obtain ⟨l₁, l₂, htable, -⟩ := List.lookup_eq_some_iff.mp h
  have hmem : (name, f) ∈ fs.table := by
    rw [htable]
    exact List.mem_append_right _ List.mem_cons_self
  exact List.all_eq_true.mp fs.named _ hmem

/-! ## Parsing -/

inductive FlagErr where
  | badSyntax (word : Bytes)
  | help
  | undefined (name : Bytes)
  | needsArgument (name : Bytes)
  | invalid (value name : Bytes)
  deriving DecidableEq, Repr

/-- What `parseOne` makes of a word. -/
inductive Word where
  /-- Not a flag, or the mark behind the last flag. -/
  | last
  | bad
  | flag (name : Bytes) (value : Option Bytes)
  deriving DecidableEq, Repr

/-- A word without its dashes. -/
def Word.ofName (name : Bytes) : Word :=
  if name.head? = some dash ∨ name.head? = some equals then .bad
  else
    match cut equals name with
    | some (name, value) => .flag name (some value)
    | none => .flag name none

def Word.read : Bytes → Word
  | c :: d :: s =>
      if c ≠ dash then .last
      else if d ≠ dash then .ofName (d :: s)
      else if s = [] then .last
      else .ofName s
  | _ => .last

/-- `Set`, and the rest of the parse when the value is accepted. -/
def Flag.take (f : Flag α) (name value : Bytes) (k : α → α × Option FlagErr) (a : α) :
    α × Option FlagErr :=
  if f.valid value then k (f.store value a) else (f.store value a, some (.invalid value name))

/-- `Parse`. -/
def FlagSet.parse (fs : FlagSet α) : List Bytes → α → α × Option FlagErr
  | [], a => (a, none)
  | s :: args, a =>
      match Word.read s with
      | .last => (a, none)
      | .bad => (a, some (.badSyntax s))
      | .flag name value =>
          match fs.formal name with
          | none =>
              (a, some (if name = ascii "help" ∨ name = ascii "h" then .help else .undefined name))
          | some f =>
              if f.isBool then f.take name (value.getD (ascii "true")) (fs.parse args) a
              else
                match value with
                | some v => f.take name v (fs.parse args) a
                | none =>
                    match args with
                    | [] => (a, some (.needsArgument name))
                    | v :: args => f.take name v (fs.parse args) a

/-! ## Words for a flag -/

/-- How the value of a flag is given. -/
inductive Form : Bool → Type where
  | inline {b : Bool} (value : Bytes) : Form b
  /-- In the next word. -/
  | next (value : Bytes) : Form false
  /-- Not at all. -/
  | bare : Form true
  deriving DecidableEq, Repr

def Form.text {b : Bool} : Form b → Bytes
  | inline v => v
  | next v => v
  | bare => ascii "true"

def dashes (double : Bool) : Bytes := if double then [dash, dash] else [dash]

def Form.words {b : Bool} (name : Bytes) (double : Bool) : Form b → List Bytes
  | inline v => [dashes double ++ (name ++ equals :: v)]
  | next v => [dashes double ++ name, v]
  | bare => [dashes double ++ name]

section

variable {name : Bytes} (hname : wellNamed name = true) (double : Bool)
include hname

theorem Word.read_dashes (s : Bytes) :
    Word.read (dashes double ++ (name ++ s)) = .ofName (name ++ s) := by
  obtain ⟨c, t, rfl, hc, -⟩ := wellNamed_cases hname
  cases double with
  | false => simp [Word.read, dashes, hc]
  | true => simp [Word.read, dashes]

theorem Word.read_value (v : Bytes) :
    Word.read (dashes double ++ (name ++ equals :: v)) = .flag name (some v) := by
  rw [Word.read_dashes hname]
  obtain ⟨c, t, rfl, hdash, hequals, hmem⟩ := wellNamed_cases hname
  rw [Word.ofName, cut_append hmem]
  simp [hdash, hequals]

theorem Word.read_name : Word.read (dashes double ++ name) = .flag name none := by
  have hread := Word.read_dashes hname double []
  rw [List.append_nil] at hread
  rw [hread]
  obtain ⟨c, t, rfl, hdash, hequals, hmem⟩ := wellNamed_cases hname
  rw [Word.ofName, cut, if_neg hmem]
  simp [hdash, hequals]

end

namespace FlagSet

variable {fs : FlagSet α} {name : Bytes}

/-- The words of a flag that is defined are taken for it. -/
theorem parse_words {f : Flag α} (h : fs.formal name = some f) (double : Bool)
    (form : Form f.isBool) (args : List Bytes) (a : α) :
    fs.parse (form.words name double ++ args) a = f.take name form.text (fs.parse args) a := by
  have hname := FlagSet.wellNamed h
  obtain ⟨isBool, valid, store⟩ := f
  cases form with
  | inline v =>
      show fs.parse ((dashes double ++ (name ++ equals :: v)) :: args) a = _
      rw [parse]
      simp only [Word.read_value hname, h]
      cases isBool <;> rfl
  | next v =>
      show fs.parse ((dashes double ++ name) :: v :: args) a = _
      rw [parse]
      simp only [Word.read_name hname, h]
      rfl
  | bare =>
      show fs.parse ((dashes double ++ name) :: args) a = _
      rw [parse]
      simp only [Word.read_name hname, h]
      rfl

/-- The parse ends at a flag that is not defined. -/
theorem parse_undefined (hname : Kit.wellNamed name = true) (h : fs.formal name = none)
    (double : Bool) {b : Bool} (form : Form b) (args : List Bytes) (a : α) :
    (fs.parse (form.words name double ++ args) a).1 = a := by
  cases form with
  | inline v =>
      show (fs.parse ((dashes double ++ (name ++ equals :: v)) :: args) a).1 = _
      rw [parse]
      simp only [Word.read_value hname, h]
  | next v =>
      show (fs.parse ((dashes double ++ name) :: v :: args) a).1 = _
      rw [parse]
      simp only [Word.read_name hname, h]
  | bare =>
      show (fs.parse ((dashes double ++ name) :: args) a).1 = _
      rw [parse]
      simp only [Word.read_name hname, h]

end FlagSet

/-! ## Lines of defined flags -/

/-- A flag of a set with a value, and how it is written. -/
structure Setting (fs : FlagSet α) where
  name : Bytes
  flag : Flag α
  defined : fs.formal name = some flag
  double : Bool
  form : Form flag.isBool

namespace Setting

variable {fs : FlagSet α}

def words (s : Setting fs) : List Bytes := s.form.words s.name s.double

def valid (s : Setting fs) : Bool := s.flag.valid s.form.text

def apply (a : α) (s : Setting fs) : α := s.flag.store s.form.text a

/-- When every value is accepted, the flags are applied from left to right. -/
theorem parse_valid (ss : List (Setting fs)) (h : ∀ s ∈ ss, s.valid = true) (a : α) :
    fs.parse (ss.flatMap words) a = (ss.foldl apply a, none) := by
  induction ss generalizing a with
  | nil => rfl
  | cons s ss ih =>
      have hs : s.flag.valid s.form.text = true := h s List.mem_cons_self
      rw [List.flatMap_cons, words, FlagSet.parse_words s.defined, Flag.take, if_pos hs]
      exact ih (fun t ht => h t (List.mem_cons_of_mem _ ht)) _

/-- A value that is not accepted is an error. -/
theorem parse_invalid (ss : List (Setting fs)) (h : ∃ s ∈ ss, s.valid = false) (a : α) :
    (fs.parse (ss.flatMap words) a).2 ≠ none := by
  induction ss generalizing a with
  | nil => exact absurd h (by simp)
  | cons s ss ih =>
      rw [List.flatMap_cons, words, FlagSet.parse_words s.defined, Flag.take]
      cases hs : s.flag.valid s.form.text with
      | false => simp
      | true =>
          obtain ⟨t, ht, hbad⟩ := h
          have hts : t ≠ s := by
            rintro rfl
            rw [Setting.valid, hs] at hbad
            cases hbad
          exact ih ⟨t, List.mem_of_ne_of_mem hts ht, hbad⟩ _

end Setting

end QconnMcp.Kit
