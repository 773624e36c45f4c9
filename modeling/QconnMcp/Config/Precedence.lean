import Mathlib.Data.List.Sigma
import QconnMcp.Config.Load
import QconnMcp.Kit.Layers

/-!
# Which source wins

What `Load` is for: a field takes the value of its flag, or else of its variable,
or else of the file, or else its default, in whatever order the flags are given.
The model of the code is compared with that on every command line of distinct
flags. The first flag set stops at the first flag it does not know, so the file
that `-config` names is found only when no other flag stands before it.
-/

namespace QconnMcp.Config

open Kit

/-! ## Command lines -/

inductive FlagName where
  | config
  | field (f : Field)
  deriving DecidableEq

namespace FlagName

def text : FlagName → Bytes
  | config => ascii "config"
  | field .qconnHost => ascii "qconn-host"
  | field .qconnPort => ascii "qconn-port"
  | field .timeout => ascii "timeout"
  | field .bindAddr => ascii "bind"
  | field .path => ascii "path"
  | field .token => ascii "token"
  | field .debugPort => ascii "debug-port"
  | field .pdebugCmd => ascii "pdebug-cmd"
  | field .debugSerial => ascii "debug-serial"
  | field .debugBaud => ascii "debug-baud"
  | field .logLevel => ascii "log-level"
  | field .logFormat => ascii "log-format"
  | field .trace => ascii "trace"

def isBool : FlagName → Bool
  | config => false
  | field f => f.kind == .bool

/-- Whether a text is a value for the flag. -/
def valid (W : World) : FlagName → Bytes → Bool
  | config, _ => true
  | field f, v => (W.parse f.kind v).2

def store (W : World) : FlagName → Bytes → Config → Config
  | config, _, c => c
  | field f, v, c => c.set f (W.parse f.kind v).1

def flag (W : World) (n : FlagName) : Flag Config := ⟨n.isBool, n.valid W, n.store W⟩

theorem formal_flags (W : World) (n : FlagName) : (flags W).formal n.text = some (n.flag W) := by
  cases n with
  | config => rfl
  | field f => cases f <;> rfl

theorem formal_preFlags_field (f : Field) : preFlags.formal (field f).text = none := by
  cases f <;> rfl

end FlagName

/-- A flag on a command line: its dashes, and its value. -/
structure Given (n : FlagName) where
  double : Bool
  form : Form n.isBool

def Given.words (g : Sigma Given) : List Bytes := g.2.form.words g.1.text g.2.double

/-- Distinct flags, in some order. -/
structure CommandLine where
  given : List (Sigma Given)
  distinct : given.NodupKeys

namespace CommandLine

def words (line : CommandLine) : List Bytes := line.given.flatMap Given.words

/-- Whether every flag has a value that it accepts. -/
def valid (W : World) (line : CommandLine) : Bool :=
  line.given.all fun g => g.1.valid W g.2.form.text

/-- What the flags set. -/
def layer (W : World) (line : CommandLine) : Layer := fun f =>
  (line.given.dlookup (.field f)).map fun g => (W.parse f.kind g.form.text).1

/-- The file that is asked for. -/
def path (W : World) (line : CommandLine) : Bytes :=
  ((line.given.dlookup .config).map fun g => g.form.text).getD (W.getenv (ascii "QCONN_CONFIG"))

end CommandLine

/-! ## What the configuration should be -/

section

variable (W : World)

/-- What the environment sets. -/
def envLayer : Layer
  | .qconnHost => W.variable (ascii "QCONN_HOST")
  | .qconnPort => (W.variable (ascii "QCONN_PORT")).bind W.atoi
  | .bindAddr => W.variable (ascii "MCP_ADDR")
  | .token => W.variable (ascii "MCP_TOKEN")
  | .debugPort => (W.variable (ascii "QCONN_DEBUG_PORT")).bind W.atoi
  | .logLevel => W.variable (ascii "LOG_LEVEL")
  | .trace => if W.getenv (ascii "QCONN_TRACE") = ascii "1" then some true else none
  | .timeout | .path | .pdebugCmd | .debugSerial | .debugBaud | .logFormat => none

/-- What a file sets, `none` when it cannot be loaded. The empty path names no file. -/
def document (path : Bytes) : Option Layer :=
  if path = [] then some fun _ => none
  else
    match W.readFile path with
    | .error _ => none
    | .ok b => if (W.unmarshal b).2 = none then some (W.unmarshal b).1 else none

/-- Flags over environment over a file over the defaults; `none` is an error. -/
def layeredOn (line : CommandLine) (path : Bytes) : Option ((f : Field) → f.Val) :=
  if line.valid W then
    (document W path).map fun doc => resolve default.get [line.layer W, envLayer W, doc]
  else none

def layered (line : CommandLine) : Option ((f : Field) → f.Val) :=
  layeredOn W line (line.path W)

/-- What `Load` returns, without the text of its error. -/
def outcome (args : List Bytes) : Option ((f : Field) → f.Val) :=
  match load W args with
  | (c, none) => some c.get
  | (_, some _) => none

/-- The order of the flags does not matter to it. -/
theorem layered_perm {line line' : CommandLine} (h : line.given.Perm line'.given) :
    layered W line = layered W line' := by
  have hlookup (n : FlagName) : line.given.dlookup n = line'.given.dlookup n :=
    List.perm_dlookup n line.distinct h
  have hvalid : line.valid W = line'.valid W := h.all_eq
  have hlayer : line.layer W = line'.layer W := by
    funext f
    rw [CommandLine.layer, CommandLine.layer, hlookup]
  have hpath : line.path W = line'.path W := by
    rw [CommandLine.path, CommandLine.path, hlookup]
  rw [layered, layered, layeredOn, layeredOn, hvalid, hlayer, hpath]

end

/-! ## The code against it -/

section

variable {W : World} {line : CommandLine}

theorem get_applyEnv (c : Config) (f : Field) :
    (applyEnv W c).get f = (envLayer W f).getD (c.get f) := by
  have hfold : applyEnv W c = [Field.qconnHost, .qconnPort, .bindAddr, .token, .debugPort,
      .logLevel, .trace].foldl (fun c f => c.assign f (envLayer W f)) c := by
    simp only [applyEnv, List.foldl, envLayer]
    split <;> rfl
  rw [hfold, get_foldl_assign _ (by decide)]
  cases f <;> rfl

/-- What the flags of a line do, one after another. -/
theorem get_foldl_store {gs : List (Sigma Given)} (h : gs.NodupKeys) (c : Config) (f : Field) :
    (gs.foldl (fun c g => g.1.store W g.2.form.text c) c).get f =
      ((gs.dlookup (.field f)).map fun g => (W.parse f.kind g.form.text).1).getD (c.get f) := by
  induction gs generalizing c with
  | nil => rfl
  | cons g gs ih =>
      obtain ⟨n, g⟩ := g
      obtain ⟨hn, hgs⟩ := List.nodupKeys_cons.mp h
      rw [List.foldl_cons, ih hgs]
      by_cases hf : FlagName.field f = n
      · subst hf
        rw [List.dlookup_eq_none.mpr hn, List.dlookup_cons_eq]
        exact get_set c f _
      · rw [List.dlookup_cons_ne _ _ hf]
        congr 1
        cases n with
        | config => rfl
        | field k => exact get_set_of_ne c (fun hk => hf (congrArg FlagName.field hk)) _

/-- A flag of the line as one of the second set. -/
def Given.setting (W : World) (g : Sigma Given) : Setting (flags W) :=
  ⟨g.1.text, g.1.flag W, g.1.formal_flags W, g.2.double, g.2.form⟩

theorem flags_parse_valid (h : line.valid W = true) (c : Config) :
    (flags W).parse line.words c =
      (line.given.foldl (fun c g => g.1.store W g.2.form.text c) c, none) := by
  have hparse := Setting.parse_valid (line.given.map (Given.setting W)) ?_ c
  · rw [List.flatMap_map, List.foldl_map] at hparse
    exact hparse
  · intro s hs
    obtain ⟨g, hg, rfl⟩ := List.mem_map.mp hs
    exact List.all_eq_true.mp h g hg

theorem flags_parse_invalid (h : line.valid W = false) (c : Config) :
    ((flags W).parse line.words c).2 ≠ none := by
  have hparse := Setting.parse_invalid (line.given.map (Given.setting W)) ?_ c
  · rw [List.flatMap_map] at hparse
    exact hparse
  · obtain ⟨g, hg, hbad⟩ := List.all_eq_false.mp h
    exact ⟨_, List.mem_map_of_mem hg, Bool.eq_false_iff.mpr hbad⟩

/-- The first flag set stops at any other flag than `-config`. -/
theorem preFlags_parse_other {gs : List (Sigma Given)} (h : gs.keys.head? ≠ some .config)
    (p : Bytes) : (preFlags.parse (gs.flatMap Given.words) p).1 = p := by
  cases gs with
  | nil => rfl
  | cons g gs =>
      obtain ⟨n, g⟩ := g
      cases n with
      | config => exact absurd rfl h
      | field f =>
          have hname : wellNamed (FlagName.field f).text = true := by
            cases f <;> rfl
          exact FlagSet.parse_undefined hname (FlagName.formal_preFlags_field f) g.double g.form _ p

/-- The file that `Load` finds: `-config` counts at the front only. -/
def CommandLine.found (W : World) (line : CommandLine) : Bytes :=
  if .config ∈ line.given.keys.tail then W.getenv (ascii "QCONN_CONFIG") else line.path W

theorem preFlags_parse (W : World) (line : CommandLine) :
    (preFlags.parse line.words (W.getenv (ascii "QCONN_CONFIG"))).1 = line.found W := by
  obtain ⟨given, distinct⟩ := line
  cases given with
  | nil => rfl
  | cons g gs =>
      obtain ⟨n, g⟩ := g
      obtain ⟨hn, -⟩ := List.nodupKeys_cons.mp distinct
      show _ = if .config ∈ gs.keys then _ else _
      rw [CommandLine.path]
      generalize W.getenv (ascii "QCONN_CONFIG") = p
      cases n with
      | config =>
          rw [if_neg hn, List.dlookup_cons_eq]
          have hformal : preFlags.formal FlagName.config.text =
              some ⟨false, fun _ => true, fun v _ => v⟩ := rfl
          have hwords := FlagSet.parse_words hformal g.double g.form (gs.flatMap Given.words) p
          have hrest : gs.keys.head? ≠ some .config := fun h => hn (List.mem_of_head? h)
          calc (preFlags.parse (CommandLine.words ⟨⟨.config, g⟩ :: gs, distinct⟩) p).1
              _ = (preFlags.parse (gs.flatMap Given.words) g.form.text).1 := congrArg Prod.fst hwords
              _ = g.form.text := preFlags_parse_other hrest _
      | field f =>
          rw [CommandLine.words, preFlags_parse_other (by simp [List.keys])]
          split
          · rfl
          · rename_i hconfig
            rw [List.dlookup_cons_ne _ _ (by simp), List.dlookup_eq_none.mpr hconfig]
            rfl

/-- The file as `Load` gets it, over the defaults. -/
theorem document_cases (path : Bytes) :
    (document W path = none ∧
        ∃ c e, (if path ≠ [] then loadYAML W path default else (default, none)) = (c, some e)) ∨
      ∃ doc, document W path = some doc ∧
        (if path ≠ [] then loadYAML W path default else (default, none)) =
          (overlay doc default, none) := by
  rw [document, loadYAML]
  by_cases hpath : path = []
  · right
    rw [if_pos hpath, if_neg (not_not.mpr hpath)]
    exact ⟨_, rfl, rfl⟩
  · rw [if_neg hpath, if_pos hpath]
    cases W.readFile path with
    | error e => exact .inl ⟨rfl, _, _, rfl⟩
    | ok b =>
        cases herr : (W.unmarshal b).2 with
        | none => exact .inr ⟨(W.unmarshal b).1, by simp [herr], by simp [herr]⟩
        | some e => exact .inl ⟨by simp [herr], overlay (W.unmarshal b).1 default, .yaml e, by simp [herr]⟩

/-- `Load` lays the right layers over the file it finds. -/
theorem outcome_words (W : World) (line : CommandLine) :
    outcome W line.words = layeredOn W line (line.found W) := by
  rw [outcome, load, preFlags_parse]
  generalize line.found W = path
  rcases document_cases (W := W) path with ⟨hdoc, c, e, hload⟩ | ⟨doc, hdoc, hload⟩
  · simp only [hload, layeredOn, hdoc, Option.map_none, ite_self]
  · simp only [hload, layeredOn, hdoc, Option.map_some]
    cases hvalid : line.valid W with
    | false =>
        have hparse := flags_parse_invalid hvalid (applyEnv W (overlay doc default))
        generalize (flags W).parse line.words (applyEnv W (overlay doc default)) = r at hparse ⊢
        obtain ⟨c, _ | e⟩ := r
        · exact absurd rfl hparse
        · rfl
    | true =>
        rw [flags_parse_valid hvalid]
        refine congrArg some (funext fun f => ?_)
        rw [get_foldl_store line.distinct, get_applyEnv, get_overlay]
        rfl

/-! ## When the right file is found -/

/-- Two files give the same configuration, or neither gives any. -/
def Alike (W : World) (line : CommandLine) (p q : Bytes) : Prop :=
  match document W p, document W q with
  | some d, some d' => ∀ f, line.layer W f = none → envLayer W f = none →
      (d f).getD (default.get f) = (d' f).getD (default.get f)
  | none, none => True
  | _, _ => False

theorem layeredOn_eq_iff (hvalid : line.valid W = true) (p q : Bytes) :
    layeredOn W line p = layeredOn W line q ↔ Alike W line p q := by
  rw [layeredOn, layeredOn, if_pos hvalid, if_pos hvalid, Alike]
  cases document W p with
  | none =>
      cases document W q with
      | none => simp
      | some d' => simp
  | some d =>
      cases document W q with
      | none => simp
      | some d' =>
          have heq := resolve_eq_iff default.get [line.layer W, envLayer W] d d'
          simp only [List.forall_mem_cons, List.not_mem_nil, false_imp_iff, implies_true, and_true,
            and_imp] at heq
          exact Option.some_inj.trans heq

/-- **Which source wins.** On a line of distinct flags `Load` returns what flags over
environment over the file asked for over the defaults come to, and an error when
the file cannot be loaded or a value is not accepted, exactly when one of these
holds: some value is not accepted; no flag stands before `-config`; or the file that
`QCONN_CONFIG` names gives the same configuration as the one `-config` names. -/
theorem load_layered_iff (W : World) (line : CommandLine) :
    outcome W line.words = layered W line ↔
      line.valid W = false ∨ .config ∉ line.given.keys.tail ∨
        Alike W line (W.getenv (ascii "QCONN_CONFIG")) (line.path W) := by
  rw [outcome_words, layered, CommandLine.found]
  cases hvalid : line.valid W with
  | false => simp [layeredOn, hvalid]
  | true =>
      by_cases hbehind : .config ∈ line.given.keys.tail
      · rw [if_pos hbehind, layeredOn_eq_iff hvalid]
        simp [hbehind]
      · rw [if_neg hbehind]
        simp [hbehind]

end

/-- A world with one file, which sets the log level. -/
def debugWorld : World where
  getenv _ := []
  readFile _ := .ok []
  unmarshal _ := (fun f => match f with
    | .logLevel => some (ascii "debug")
    | _ => none, none)
  atoi _ := none
  parseInt _ := (0, true)
  parseDuration _ := (0, true)
  parseBool _ := (true, true)

/-- `-config f` and `-trace`. -/
def configFirst : CommandLine :=
  ⟨[⟨.config, false, .next (ascii "f")⟩, ⟨.field .trace, false, .bare⟩],
    by simp [List.NodupKeys, List.keys]⟩

/-- The same flags in the other order. -/
def configLast : CommandLine :=
  ⟨[⟨.field .trace, false, .bare⟩, ⟨.config, false, .next (ascii "f")⟩],
    by simp [List.NodupKeys, List.keys]⟩

/-- Behind another flag, the file is not read. -/
theorem config_behind_flag_ignored :
    configFirst.words = [ascii "-config", ascii "f", ascii "-trace"] ∧
      configLast.words = [ascii "-trace", ascii "-config", ascii "f"] ∧
      (load debugWorld configFirst.words).1.logLevel = ascii "debug" ∧
      load debugWorld configLast.words = ({ default with trace := true }, none) ∧
      outcome debugWorld configLast.words ≠ layered debugWorld configLast := by
  refine ⟨by decide, by decide, by decide, by decide, ?_⟩
  intro h
  have hlevel := congrArg (Option.map fun c => (show Bytes from c .logLevel)) h
  exact absurd hlevel (by decide)

end QconnMcp.Config
