import QconnMcp.Kit.Flags

/-!
# Loading the configuration

`internal/config/config.go`. `Load` starts from the defaults, lets a YAML file,
the environment and the flags override them in this order, and reads the
arguments twice: a first flag set, which knows `-config` alone, looks for the
path of the file, and its error is ignored; a second one has every flag.

What the program does not contain is a parameter (`World`): the environment, the
files, the YAML decoder, and the readers of numbers, durations and booleans.
-/

namespace QconnMcp

open Kit

structure Config where
  qconnHost : Bytes
  qconnPort : Int
  timeout : Int
  bindAddr : Bytes
  path : Bytes
  token : Bytes
  debugPort : Int
  pdebugCmd : Bytes
  debugSerial : Bytes
  debugBaud : Int
  logLevel : Bytes
  logFormat : Bytes
  trace : Bool
  deriving DecidableEq, Repr

namespace Config

/-! ## Fields -/

inductive Kind where
  | str
  | int
  | duration
  | bool
  deriving DecidableEq, Repr

/-- The values of a kind. A duration counts nanoseconds. -/
def Kind.Val : Kind → Type
  | str => Bytes
  | int => Int
  | duration => Int
  | bool => Bool

inductive Field where
  | qconnHost
  | qconnPort
  | timeout
  | bindAddr
  | path
  | token
  | debugPort
  | pdebugCmd
  | debugSerial
  | debugBaud
  | logLevel
  | logFormat
  | trace
  deriving DecidableEq, Repr

namespace Field

def kind : Field → Kind
  | qconnHost => .str
  | qconnPort => .int
  | timeout => .duration
  | bindAddr => .str
  | path => .str
  | token => .str
  | debugPort => .int
  | pdebugCmd => .str
  | debugSerial => .str
  | debugBaud => .int
  | logLevel => .str
  | logFormat => .str
  | trace => .bool

def Val (f : Field) : Type := f.kind.Val

end Field

/-- What a source of settings says about each field. -/
abbrev Layer : Type := (f : Field) → Option f.Val

def get (c : Config) : (f : Field) → f.Val
  | .qconnHost => c.qconnHost
  | .qconnPort => c.qconnPort
  | .timeout => c.timeout
  | .bindAddr => c.bindAddr
  | .path => c.path
  | .token => c.token
  | .debugPort => c.debugPort
  | .pdebugCmd => c.pdebugCmd
  | .debugSerial => c.debugSerial
  | .debugBaud => c.debugBaud
  | .logLevel => c.logLevel
  | .logFormat => c.logFormat
  | .trace => c.trace

def set (c : Config) : (f : Field) → f.Val → Config
  | .qconnHost, v => { c with qconnHost := v }
  | .qconnPort, v => { c with qconnPort := v }
  | .timeout, v => { c with timeout := v }
  | .bindAddr, v => { c with bindAddr := v }
  | .path, v => { c with path := v }
  | .token, v => { c with token := v }
  | .debugPort, v => { c with debugPort := v }
  | .pdebugCmd, v => { c with pdebugCmd := v }
  | .debugSerial, v => { c with debugSerial := v }
  | .debugBaud, v => { c with debugBaud := v }
  | .logLevel, v => { c with logLevel := v }
  | .logFormat, v => { c with logFormat := v }
  | .trace, v => { c with trace := v }

@[simp] theorem get_set (c : Config) (f : Field) (v : f.Val) : (c.set f v).get f = v := by
  cases f <;> rfl

theorem get_set_of_ne (c : Config) {f g : Field} (h : f ≠ g) (v : g.Val) :
    (c.set g v).get f = c.get f := by
  cases g <;> cases f <;> first | rfl | exact absurd rfl h

/-- A field is assigned when there is a value for it. -/
def assign (c : Config) (f : Field) (v : Option f.Val) : Config := v.elim c (c.set f)

@[simp] theorem get_assign (c : Config) (f : Field) (v : Option f.Val) :
    (c.assign f v).get f = v.getD (c.get f) := by
  cases v with
  | none => rfl
  | some v => exact get_set c f v

theorem get_assign_of_ne (c : Config) {f g : Field} (h : f ≠ g) (v : Option g.Val) :
    (c.assign g v).get f = c.get f := by
  cases v with
  | none => rfl
  | some v => exact get_set_of_ne c h v

/-- Assigning fields one after another, each from a layer. -/
theorem get_foldl_assign (layer : Layer) {fs : List Field} (h : fs.Nodup) (c : Config)
    (f : Field) :
    (fs.foldl (fun c f => c.assign f (layer f)) c).get f =
      if f ∈ fs then (layer f).getD (c.get f) else c.get f := by
  induction fs generalizing c with
  | nil => rfl
  | cons g fs ih =>
      obtain ⟨hg, hfs⟩ := List.nodup_cons.mp h
      rw [List.foldl_cons, ih hfs]
      by_cases hf : f = g
      · subst hf
        rw [if_neg hg, if_pos List.mem_cons_self, get_assign]
      · rw [get_assign_of_ne c hf]
        simp [hf]

/-- `Default`. -/
def default : Config where
  qconnHost := ascii "127.0.0.1"
  qconnPort := 8000
  timeout := 30 * 10 ^ 9
  bindAddr := ascii "127.0.0.1:8077"
  path := ascii "/mcp"
  token := []
  debugPort := 8001
  pdebugCmd := ascii "on -d pdebug %d </dev/null >/dev/null 2>&1"
  debugSerial := []
  debugBaud := 115200
  logLevel := ascii "info"
  logFormat := ascii "text"
  trace := false

/-! ## Sources -/

/-- What `Load` takes from outside. A reader for flags returns what `Set` stores
and whether it accepts the text; the decoder returns the fields it sets and an
error, if there is one. -/
structure World where
  getenv : Bytes → Bytes
  readFile : Bytes → Except Bytes Bytes
  unmarshal : Bytes → Layer × Option Bytes
  atoi : Bytes → Option Int
  parseInt : Bytes → Int × Bool
  parseDuration : Bytes → Int × Bool
  parseBool : Bytes → Bool × Bool

inductive LoadErr where
  | file (msg : Bytes)
  | yaml (msg : Bytes)
  | flag (e : FlagErr)
  deriving DecidableEq, Repr

section

variable (W : World)

/-- The fields a document sets, over what there is. -/
def overlay (doc : Layer) (c : Config) : Config :=
  [Field.qconnHost, .qconnPort, .timeout, .bindAddr, .path, .token, .debugPort, .pdebugCmd,
    .debugSerial, .debugBaud, .logLevel, .logFormat, .trace].foldl
      (fun c f => c.assign f (doc f)) c

theorem get_overlay (doc : Layer) (c : Config) (f : Field) :
    (overlay doc c).get f = (doc f).getD (c.get f) := by
  rw [overlay, get_foldl_assign doc (by decide), if_pos (by cases f <;> decide)]

def loadYAML (path : Bytes) (c : Config) : Config × Option LoadErr :=
  match W.readFile path with
  | .error e => (c, some (.file e))
  | .ok b => (overlay (W.unmarshal b).1 c, (W.unmarshal b).2.map .yaml)

/-- A variable that is not empty. -/
def World.variable (name : Bytes) : Option Bytes :=
  if W.getenv name ≠ [] then some (W.getenv name) else none

def applyEnv (c : Config) : Config :=
  let c := c.assign .qconnHost (W.variable (ascii "QCONN_HOST"))
  let c := c.assign .qconnPort ((W.variable (ascii "QCONN_PORT")).bind W.atoi)
  let c := c.assign .bindAddr (W.variable (ascii "MCP_ADDR"))
  let c := c.assign .token (W.variable (ascii "MCP_TOKEN"))
  let c := c.assign .debugPort ((W.variable (ascii "QCONN_DEBUG_PORT")).bind W.atoi)
  let c := c.assign .logLevel (W.variable (ascii "LOG_LEVEL"))
  if W.getenv (ascii "QCONN_TRACE") = ascii "1" then { c with trace := true } else c

/-! ## Flags -/

/-- `Set` for a kind of flag. -/
def World.parse : (k : Kind) → Bytes → k.Val × Bool
  | .str, v => (v, true)
  | .int, v => W.parseInt v
  | .duration, v => W.parseDuration v
  | .bool, v => W.parseBool v

/-- `StringVar`, `IntVar`, `DurationVar` or `BoolVar` for a field. -/
def var (f : Field) : Flag Config where
  isBool := f.kind == .bool
  valid v := (W.parse f.kind v).2
  store v c := c.set f (W.parse f.kind v).1

/-- The first flag set, over the path of the file. -/
def preFlags : FlagSet Bytes where
  table := [(ascii "config", ⟨false, fun _ => true, fun v _ => v⟩)]
  named := by decide

/-- The second one. Its `-config` is read by nobody. -/
def flags : FlagSet Config where
  table := [(ascii "config", ⟨false, fun _ => true, fun _ c => c⟩),
    (ascii "qconn-host", var W .qconnHost),
    (ascii "qconn-port", var W .qconnPort),
    (ascii "timeout", var W .timeout),
    (ascii "bind", var W .bindAddr),
    (ascii "path", var W .path),
    (ascii "token", var W .token),
    (ascii "debug-port", var W .debugPort),
    (ascii "pdebug-cmd", var W .pdebugCmd),
    (ascii "debug-serial", var W .debugSerial),
    (ascii "debug-baud", var W .debugBaud),
    (ascii "log-level", var W .logLevel),
    (ascii "log-format", var W .logFormat),
    (ascii "trace", var W .trace)]
  named := by rfl

/-- `Load`. -/
def load (args : List Bytes) : Config × Option LoadErr :=
  let configPath := (preFlags.parse args (W.getenv (ascii "QCONN_CONFIG"))).1
  match if configPath ≠ [] then loadYAML W configPath default else (default, none) with
  | (c, some e) => (c, some e)
  | (c, none) =>
      match (flags W).parse args (applyEnv W c) with
      | (c, some e) => (c, some (.flag e))
      | (c, none) => (c, none)

end

end Config

end QconnMcp
