import QconnMcp.Qconn.Transfer
import QconnMcp.Tools.Files

/-!
# Saving and restoring a file through the tools

`qconn_write_file` beside the `qconn_read_file` of `Tools.Files`. What a read reports can
be handed to a write as it is: the base64 text takes precedence over the plain text, it
survives JSON where the plain text need not, and the decoder of `encoding/base64` skips
the line ends that may have got into it. So a file that was read can be put back,
whatever was written in between and whatever is in it (`read_then_write_restores`).
-/

namespace QconnMcp.Tools

open Kit Qconn

/-! ## `base64.StdEncoding.DecodeString` -/

/-- `decodeMap`. -/
def base64Value (c : UInt8) : Option Nat :=
  if 65 ≤ c ∧ c ≤ 90 then some (c.toNat - 65)
  else if 97 ≤ c ∧ c ≤ 122 then some (c.toNat - 97 + 26)
  else if 48 ≤ c ∧ c ≤ 57 then some (c.toNat - 48 + 52)
  else if c = 43 then some 62
  else if c = 47 then some 63
  else none

def isLineEnd (c : UInt8) : Bool := c == 10 || c == 13

/-- The bytes of up to four values of six bits, one less than there are values. Bits that
are left over are not looked at. -/
def quantumBytes (q : List Nat) : Bytes :=
  let val := q.getD 0 0 * 2 ^ 18 + q.getD 1 0 * 2 ^ 12 + q.getD 2 0 * 2 ^ 6 + q.getD 3 0
  [UInt8.ofNat (val / 2 ^ 16), UInt8.ofNat (val / 2 ^ 8), UInt8.ofNat val].take (q.length - 1)

/-- Behind the padding; `pos` is the position of the rest. -/
def afterPadding (pos : Nat) (q : List Nat) (rest : Bytes) : Except Nat Bytes :=
  let tail := rest.dropWhile isLineEnd
  if tail = [] then .ok (quantumBytes q)
  else .error (pos + (rest.length - tail.length))

/-- Behind the first of two padding characters. -/
def secondPadding (pos : Nat) (q : List Nat) (rest : Bytes) : Except Nat Bytes :=
  let si := pos + (rest.length - (rest.dropWhile isLineEnd).length)
  match rest.dropWhile isLineEnd with
  | [] => .error si
  | c :: more => if c = 61 then afterPadding (si + 1) q more else .error (si - 1)

/-- `Decode` from a position on, with the values of the quantum so far. The error is the
number in `CorruptInputError`. -/
def decodeFrom : Nat → List Nat → Bytes → Except Nat Bytes
  | pos, q, [] => if q = [] then .ok [] else .error (pos - q.length)
  | pos, q, c :: rest =>
      match base64Value c with
      | some v =>
          if q.length = 3 then
            (quantumBytes (q ++ [v]) ++ ·) <$> decodeFrom (pos + 1) [] rest
          else decodeFrom (pos + 1) (q ++ [v]) rest
      | none =>
          if isLineEnd c then decodeFrom (pos + 1) q rest
          else if c ≠ 61 ∨ q.length < 2 then .error pos
          else if q.length = 2 then secondPadding (pos + 1) q rest
          else afterPadding (pos + 1) q rest

def decodeString (s : Bytes) : Except Nat Bytes := decodeFrom 0 [] s

/-! ## Decoding what was encoded -/

theorem base64Value_base64Digit {n : Nat} (h : n < 64) : base64Value (base64Digit n) = some n := by
  revert n
  decide

theorem base64Digit_lt {n : Nat} (h : n < 64) : base64Digit n < 0x80 := by
  revert n
  decide

/-- A digit joins the quantum. -/
theorem decodeFrom_digit {n : Nat} (h : n < 64) {q : List Nat} (hq : q.length < 3) (pos : Nat)
    (rest : Bytes) :
    decodeFrom pos q (base64Digit n :: rest) = decodeFrom (pos + 1) (q ++ [n]) rest := by
  rw [decodeFrom, base64Value_base64Digit h]
  exact if_neg (by omega)

theorem decodeFrom_fourth {n : Nat} (h : n < 64) {q : List Nat} (hq : q.length = 3) (pos : Nat)
    (rest : Bytes) :
    decodeFrom pos q (base64Digit n :: rest) =
      (quantumBytes (q ++ [n]) ++ ·) <$> decodeFrom (pos + 1) [] rest := by
  rw [decodeFrom, base64Value_base64Digit h]
  exact if_pos hq

theorem quantumBytes_three (a b c : UInt8) :
    quantumBytes [a.toNat / 4, a.toNat % 4 * 16 + b.toNat / 16, b.toNat % 16 * 4 + c.toNat / 64,
      c.toNat % 64] = [a, b, c] := by
  have ha := a.toNat_lt
  have hb := b.toNat_lt
  have hc := c.toNat_lt
  refine congrArg₂ List.cons ?_ (congrArg₂ List.cons ?_ (congrArg₂ List.cons ?_ rfl)) <;>
    refine UInt8.toNat_inj.mp ?_ <;> simp <;> omega

theorem quantumBytes_two (a b : UInt8) :
    quantumBytes [a.toNat / 4, a.toNat % 4 * 16 + b.toNat / 16, b.toNat % 16 * 4] = [a, b] := by
  have ha := a.toNat_lt
  have hb := b.toNat_lt
  refine congrArg₂ List.cons ?_ (congrArg₂ List.cons ?_ rfl) <;>
    refine UInt8.toNat_inj.mp ?_ <;> simp <;> omega

theorem quantumBytes_one (a : UInt8) : quantumBytes [a.toNat / 4, a.toNat % 4 * 16] = [a] := by
  have ha := a.toNat_lt
  refine congrArg₂ List.cons ?_ rfl
  refine UInt8.toNat_inj.mp ?_
  simp
  omega

theorem decodeFrom_encodeToString (b : Bytes) (pos : Nat) :
    decodeFrom pos [] (encodeToString b) = .ok b := by
  induction b using encodeToString.induct generalizing pos with
  | case1 a b c rest ih =>
      have ha := a.toNat_lt
      have hb := b.toNat_lt
      have hc := c.toNat_lt
      rw [encodeToString, decodeFrom_digit (by omega) (by decide), decodeFrom_digit (by omega) (by simp),
        decodeFrom_digit (by omega) (by simp), decodeFrom_fourth (by omega) rfl, ih]
      exact congrArg (fun x => Except.ok (x ++ rest)) (quantumBytes_three a b c)
  | case2 a b =>
      have ha := a.toNat_lt
      have hb := b.toNat_lt
      rw [encodeToString, decodeFrom_digit (by omega) (by decide), decodeFrom_digit (by omega) (by simp),
        decodeFrom_digit (by omega) (by simp)]
      exact congrArg Except.ok (quantumBytes_two a b)
  | case3 a =>
      have ha := a.toNat_lt
      rw [encodeToString, decodeFrom_digit (by omega) (by decide), decodeFrom_digit (by omega) (by simp)]
      exact congrArg Except.ok (quantumBytes_one a)
  | case4 => rfl

theorem eq_nil_of_encodeToString {b : Bytes} (h : encodeToString b = []) : b = [] := by
  rcases b with _ | ⟨a, _ | ⟨b, _ | ⟨c, rest⟩⟩⟩
  · rfl
  · cases h
  · cases h
  · cases h

/-! ## Line ends -/

/-- The text without its line ends. -/
def unfolded (s : Bytes) : Bytes := s.filter fun c => !isLineEnd c

theorem unfolded_cons_of_lineEnd {c : UInt8} (h : isLineEnd c = true) (s : Bytes) :
    unfolded (c :: s) = unfolded s := by
  rw [unfolded, List.filter_cons_of_neg (by simp [h])]
  rfl

theorem unfolded_cons {c : UInt8} (h : isLineEnd c = false) (s : Bytes) :
    unfolded (c :: s) = c :: unfolded s := by
  rw [unfolded, List.filter_cons_of_pos (by simp [h])]
  rfl

theorem unfolded_dropWhile (s : Bytes) : unfolded (s.dropWhile isLineEnd) = unfolded s := by
  induction s with
  | nil => rfl
  | cons c s ih =>
      by_cases h : isLineEnd c = true
      · rw [List.dropWhile_cons_of_pos h, ih, unfolded_cons_of_lineEnd h]
      · rw [List.dropWhile_cons_of_neg h]

/-- What stands first behind the line ends. -/
theorem dropWhile_cases (s : Bytes) :
    s.dropWhile isLineEnd = [] ∧ unfolded s = [] ∨
      ∃ c more, isLineEnd c = false ∧ s.dropWhile isLineEnd = c :: more ∧
        unfolded s = c :: unfolded more := by
  have hsame := unfolded_dropWhile s
  cases h : s.dropWhile isLineEnd with
  | nil =>
      rw [h] at hsame
      exact .inl ⟨rfl, hsame.symm⟩
  | cons c more =>
      have hc : isLineEnd c = false := by
        have hhead := List.head?_dropWhile_not isLineEnd s
        rw [h] at hhead
        simpa using hhead
      rw [h, unfolded_cons hc] at hsame
      exact .inr ⟨c, more, hc, rfl, hsame.symm⟩

theorem afterPadding_of_unfolded {rest : Bytes} {q : List Nat} {pos' : Nat} {b : Bytes}
    (h : afterPadding pos' q (unfolded rest) = .ok b) (pos : Nat) :
    afterPadding pos q rest = .ok b := by
  rcases dropWhile_cases rest with ⟨hdrop, hnil⟩ | ⟨c, more, hc, -, hcons⟩
  · rw [hnil] at h
    rw [afterPadding, if_pos hdrop]
    exact h
  · rw [hcons, afterPadding, List.dropWhile_cons_of_neg (by simp [hc])] at h
    cases h

theorem secondPadding_of_unfolded {rest : Bytes} {q : List Nat} {pos' : Nat} {b : Bytes}
    (h : secondPadding pos' q (unfolded rest) = .ok b) (pos : Nat) :
    secondPadding pos q rest = .ok b := by
  rcases dropWhile_cases rest with ⟨-, hnil⟩ | ⟨c, more, hc, hdrop, hcons⟩
  · rw [hnil] at h
    cases h
  · rw [hcons, secondPadding, List.dropWhile_cons_of_neg (by simp [hc])] at h
    rw [secondPadding, hdrop]
    dsimp only at h ⊢
    split_ifs at h ⊢ with hpad
    exact afterPadding_of_unfolded h _

theorem not_isLineEnd_of_value {c : UInt8} {v : Nat} (h : base64Value c = some v) :
    isLineEnd c = false := by
  by_contra hend
  rw [Bool.not_eq_false, isLineEnd, Bool.or_eq_true, beq_iff_eq, beq_iff_eq] at hend
  rcases hend with rfl | rfl
  · cases h
  · cases h

/-- Text that decodes without its line ends decodes with them. -/
theorem decodeFrom_of_unfolded {s : Bytes} {q : List Nat} {pos' : Nat} {b : Bytes}
    (h : decodeFrom pos' q (unfolded s) = .ok b) (pos : Nat) : decodeFrom pos q s = .ok b := by
  induction s generalizing q pos' pos b with
  | nil =>
      rw [unfolded, List.filter_nil, decodeFrom] at h
      rw [decodeFrom]
      split_ifs at h ⊢
      exact h
  | cons c s ih =>
      rw [decodeFrom]
      cases hv : base64Value c with
      | some v =>
          rw [unfolded_cons (not_isLineEnd_of_value hv), decodeFrom, hv] at h
          dsimp only at h ⊢
          split_ifs at h ⊢ with hq
          · cases hrest : decodeFrom (pos' + 1) [] (unfolded s) with
            | error e =>
                rw [hrest] at h
                cases h
            | ok x =>
                rw [ih hrest]
                rw [hrest] at h
                exact h
          · exact ih h _
      | none =>
          dsimp only
          by_cases hend : isLineEnd c = true
          · rw [unfolded_cons_of_lineEnd hend] at h
            rw [if_pos hend]
            exact ih h _
          · rw [unfolded_cons (Bool.not_eq_true _ ▸ hend), decodeFrom, hv] at h
            dsimp only at h
            rw [if_neg hend] at h ⊢
            split_ifs at h ⊢ with hbad htwo
            · exact secondPadding_of_unfolded h _
            · exact afterPadding_of_unfolded h _

/-- However the encoded text is broken into lines. -/
theorem decodeString_unfolded {s b : Bytes} (h : unfolded s = encodeToString b) :
    decodeString s = .ok b := by
  have hplain : decodeFrom 0 [] (unfolded s) = .ok b := h ▸ decodeFrom_encodeToString b 0
  exact decodeFrom_of_unfolded hplain 0

/-! ## Through JSON -/

theorem forall_mem_encodeToString (b : Bytes) : ∀ c ∈ encodeToString b, c < 0x80 := by
  induction b using encodeToString.induct with
  | case1 a b c rest ih =>
      have ha := a.toNat_lt
      have hb := b.toNat_lt
      have hc := c.toNat_lt
      rw [encodeToString]
      simp only [List.forall_mem_cons]
      exact ⟨base64Digit_lt (by omega), base64Digit_lt (by omega), base64Digit_lt (by omega),
        base64Digit_lt (by omega), ih⟩
  | case2 a b =>
      have ha := a.toNat_lt
      have hb := b.toNat_lt
      rw [encodeToString]
      simp only [List.forall_mem_cons]
      exact ⟨base64Digit_lt (by omega), base64Digit_lt (by omega), base64Digit_lt (by omega),
        by decide, fun _ h => absurd h List.not_mem_nil⟩
  | case3 a =>
      have ha := a.toNat_lt
      rw [encodeToString]
      simp only [List.forall_mem_cons]
      exact ⟨base64Digit_lt (by omega), base64Digit_lt (by omega), by decide, by decide,
        fun _ h => absurd h List.not_mem_nil⟩
  | case4 => exact fun _ h => absurd h List.not_mem_nil

/-- A string of a result, as the other end of the JSON document reads it. -/
def carried (s : Bytes) : Bytes := encode (chars s)

theorem carried_of_ascii {s : Bytes} (h : ∀ c ∈ s, c < 0x80) : carried s = s := by
  refine encode_chars_iff.mpr (validUtf8_iff.mpr ⟨s.map fun c => Char.ofNat c.toNat, ?_⟩)
  induction s with
  | nil => rfl
  | cons c s ih =>
      rw [List.map_cons, encode, List.flatMap_cons, utf8EncodeChar_single (h c List.mem_cons_self)]
      exact congrArg (c :: ·) (ih fun x hx => h x (List.mem_cons_of_mem c hx))

/-! ## The two tools -/

/-- What a call returns. -/
inductive FileResult where
  | content (out : ReadFileOut)
  | written (n : Int)
  /-- The text of `fail2`, with the number behind `illegal base64 data at input byte`. -/
  | invalid (pos : Nat)
  | failed (e : Err)
  deriving DecidableEq, Repr

/-- A call for one path. -/
inductive FileTool where
  | read
  | write (base64 text : Bytes) (mode : Int)

/-- The data of a `writeFileIn`. -/
def writeData (base64 text : Bytes) : Except Nat Bytes :=
  if base64 ≠ [] then decodeString base64 else .ok text

/-- The handler of `qconn_write_file`. -/
def writeFile {σ : Type} (P : Peer σ) (path base64 text : Bytes) (mode : Int) :
    Qconn.Act σ FileResult :=
  match writeData base64 text with
  | .error pos => pure (.invalid pos)
  | .ok data => do
      match ← Client.writeFile P path data mode with
      | (_, some e) => pure (.failed e)
      | (n, none) => pure (.written n)

namespace FileTool

def exec {σ : Type} (P : Peer σ) (fuel : Nat) (path : Bytes) :
    FileTool → Qconn.Act σ (Option FileResult)
  | read => do
      match ← readFile P fuel path with
      | none => pure none
      | some (.error e) => pure (some (.failed e))
      | some (.ok out) => pure (some (.content out))
  | write base64 text mode => some <$> writeFile P path base64 text mode

/-- What it is to return and to leave, on the file alone. -/
def spec (path : Bytes) : FileTool → StateM Bytes FileResult
  | read => fun buf => (.content (readFileOut path buf), buf)
  | write base64 text _ => fun buf =>
      match writeData base64 text with
      | .error pos => (.invalid pos, buf)
      | .ok data => (.written data.length, data)

/-- The target has room for the data, and the mode is one. -/
def Fits (cap : Nat) : FileTool → Prop
  | read => True
  | write base64 text mode => 0 ≤ mode ∧ ∀ data, writeData base64 text = .ok data → data.length ≤ cap

end FileTool

section Runs

variable {σ : Type} {P : Peer σ} {T : Trail} {path : Bytes} {cap fuel : Nat}

/-- The client is ready, and the file on the target is `buf`. -/
structure Stores (F : FileServer P T path cap) (c : Client σ) (buf : Bytes) : Prop where
  ready : F.Ready (some buf) c
  fits : buf.length ≤ cap

variable {F : FileServer P T path cap}

theorem exec_read (hpath : PlainPath path) {buf : Bytes} (hlen : buf.length < 2 ^ 63)
    (hfuel : buf.length < fuel) :
    Holds (F.Ready (some buf)) (FileTool.read.exec P fuel path)
      (fun r c => r = some (.content (readFileOut path buf)) ∧ F.Ready (some buf) c) := by
  have hread : Holds (F.Ready (some buf)) (readFile P fuel path)
      (fun r c => r = some (.ok (readFileOut path buf)) ∧ F.Ready (some buf) c) :=
    (FileServer.readFile_returns hpath hlen hfuel).bind_value (.pure fun _ hc => ⟨rfl, .inl hc⟩)
  exact hread.bind_value (.pure fun _ hc => ⟨rfl, hc⟩)

theorem writeFile_written (hpath : PlainPath path) {base64 text data : Bytes}
    (hdata : writeData base64 text = .ok data) (hcap : data.length ≤ cap)
    (hlen : data.length < 2 ^ 63) {mode : Int} (hmode : 0 ≤ mode) (content : Option Bytes) :
    Holds (F.Ready content) (writeFile P path base64 text mode)
      (fun r c => r = .written data.length ∧ F.Ready (some data) c) := by
  rw [writeFile, hdata]
  exact (FileServer.writeFile_stores hpath hcap hlen hmode content).bind_value
    (.pure fun _ hc => ⟨rfl, .inl hc⟩)

/-- A call does to the target what it is to do to the file. -/
theorem fileTool_sim (hpath : PlainPath path) (hcap : cap < 2 ^ 63) (hfuel : cap < fuel)
    {t : FileTool} (ht : t.Fits cap) :
    Sim (Stores F) (t.exec P fuel path) (some <$> t.spec path) := by
  rintro c buf ⟨hready, hfits⟩
  cases t with
  | read =>
      obtain ⟨hval, hend⟩ := exec_read hpath (hfits.trans_lt hcap) (hfits.trans_lt hfuel) c hready
      exact ⟨hval, hend, hfits⟩
  | write base64 text mode =>
      obtain ⟨hmode, hroom⟩ := ht
      cases hdata : writeData base64 text with
      | error pos =>
          -- the target is not asked
          have hexec : (FileTool.write base64 text mode).exec P fuel path =
              pure (some (.invalid pos)) := by
            rw [FileTool.exec, writeFile, hdata]
            rfl
          have hspec : (FileTool.write base64 text mode).spec path = pure (.invalid pos) := by
            rw [FileTool.spec, hdata]
            rfl
          rw [hexec, hspec]
          exact ⟨rfl, hready, hfits⟩
      | ok data =>
          have hlen := hroom data hdata
          have hspec : (FileTool.write base64 text mode).spec path =
              fun _ => (.written data.length, data) := by
            rw [FileTool.spec, hdata]
          obtain ⟨hval, hend⟩ :=
            writeFile_written hpath hdata hlen (hlen.trans_lt hcap) hmode (some buf) c hready
          rw [hspec]
          exact ⟨congrArg some hval, hend, hlen⟩

/-- The data of a write that is given what a read reported. -/
theorem writeData_reported {path' base64 text b : Bytes}
    (hbase64 : unfolded base64 = carried (readFileOut path' b).base64)
    (htext : text = carried (readFileOut path' b).text) : writeData base64 text = .ok b := by
  have hplain : unfolded base64 = encodeToString b :=
    hbase64.trans (carried_of_ascii (forall_mem_encodeToString b))
  rw [writeData]
  split_ifs with hne
  · exact decodeString_unfolded hplain
  · -- only the empty file is encoded as nothing, and its text is empty
    rw [not_ne_iff.mp hne] at hplain
    obtain rfl : b = [] := eq_nil_of_encodeToString hplain.symm
    rw [htext, readFileOut, ite_self]
    rfl

/-- **Saving and restoring.** A file is read through `qconn_read_file`, and later the
document that came back is given to `qconn_write_file`, with line ends put anywhere into
the base64 text. Whatever was read and written in between: every call returns what the
file alone says, a call with malformed base64 text changes nothing, and in the end the
file is what it was. -/
theorem read_then_write_restores (F : FileServer P T path cap) (hpath : PlainPath path)
    (hcap : cap < 2 ^ 63) (hfuel : cap < fuel) {b : Bytes} (hb : b.length ≤ cap)
    {ts : List FileTool} (hts : ∀ t ∈ ts, t.Fits cap) {base64 text : Bytes} {mode : Int}
    (hmode : 0 ≤ mode) (hbase64 : unfolded base64 = carried (readFileOut path b).base64)
    (htext : text = carried (readFileOut path b).text) {c : Client σ}
    (hc : F.Ready (some b) c) :
    let calls := FileTool.read :: ts ++ [.write base64 text mode]
    let out := (sequentially (FileTool.exec P fuel path) calls).run c
    out.1 = ((sequentially (fun t => some <$> t.spec path) calls).run b).1 ∧
      out.1.head? = some (some (.content (readFileOut path b))) ∧
      out.1.getLast? = some (some (.written b.length)) ∧ F.Ready (some b) out.2 := by
  intro calls out
  have hdata : writeData base64 text = .ok b := writeData_reported hbase64 htext
  have hlast : (FileTool.write base64 text mode).Fits cap := by
    refine ⟨hmode, ?_⟩
    intro data h
    obtain rfl := Except.ok.inj (hdata.symm.trans h)
    exact hb
  have hcalls : ∀ t ∈ calls, t.Fits cap := by
    intro t ht
    rcases List.mem_append.mp ht with ht | ht
    · rcases List.mem_cons.mp ht with rfl | ht
      · exact trivial
      · exact hts t ht
    · obtain rfl := List.mem_singleton.mp ht
      exact hlast
  obtain ⟨hvals, hend⟩ := Sim.sequentially (fun t ht => fileTool_sim (F := F) hpath hcap hfuel (hcalls t ht))
    c b ⟨hc, hb⟩
  -- the run on the file alone ends with the last write
  have hspec : (FileTool.write base64 text mode).spec path = fun _ => (.written b.length, b) := by
    rw [FileTool.spec, hdata]
  have hrun := run_sequentially_concat (fun t => some <$> FileTool.spec path t) (FileTool.read :: ts)
    (.write base64 text mode) b
  rw [hspec] at hrun
  refine ⟨hvals, ?_, ?_, ?_⟩
  · rw [hvals]
    rfl
  · rw [hvals, hrun, List.getLast?_concat]
    rfl
  · rw [hrun] at hend
    exact hend.ready

end Runs

/-- A connected client, and a target on which every file is the one byte 0x80. -/
def overByte : Client (Served Mock.Session) :=
  { connected with peer := ⟨{ Mock.Session.start with files := fun _ => [0x80] }, []⟩ }

def between : List FileTool := [.write [] [] 0, .write (ascii "A") [] 0]

theorem between_fits : ∀ t ∈ between, t.Fits Mock.smallHost.maxAlloc := by
  intro t ht
  obtain rfl | rfl := List.mem_pair.mp ht
  · refine ⟨le_rfl, ?_⟩
    intro data h
    obtain rfl := Except.ok.inj h
    exact Nat.zero_le _
  · refine ⟨le_rfl, ?_⟩
    intro data h
    cases h

/-- The byte is no text, and the base64 text comes back with a line end in it. In between
the file is emptied, and text that is no base64 is refused. -/
theorem read_then_write_restores_folded :
    let path := ascii "/tmp/x"
    let out := (sequentially (FileTool.exec (truncating Mock.smallHost) (2 ^ 20 + 1) path)
      (.read :: between ++ [.write (ascii "gA\n==") [0xEF, 0xBF, 0xBD] 0])).run overByte
    out.1 = [some (.content ⟨path, 1, ascii "gA==", [0x80]⟩), some (.written 0),
      some (.invalid 0), some (.written 1)] ∧
      out.2.peer.state.files path = [0x80] := by
  intro path
  have hpath : PlainPath path := ⟨by decide, by decide, by decide, by decide, by decide, by decide⟩
  have hready : (truncatingServer Mock.smallHost hpath (by decide)).Ready (some [0x80]) overByte :=
    .inr (fresh_of_noise hpath (by decide) overByte rfl rfl ⟨rfl, rfl, rfl, by decide⟩)
  have htext : [0xEF, 0xBF, 0xBD] = carried (readFileOut path [0x80]).text := by decide +kernel
  have hspec : ((sequentially (fun t => some <$> FileTool.spec path t)
      (.read :: between ++ [.write (ascii "gA\n==") [0xEF, 0xBF, 0xBD] 0])).run [0x80]).1 =
      [some (.content ⟨path, 1, ascii "gA==", [0x80]⟩), some (.written 0), some (.invalid 0),
        some (.written 1)] := rfl
  have hrestored := read_then_write_restores _ hpath (by decide)
    (by decide : Mock.smallHost.maxAlloc < 2 ^ 20 + 1) (by decide) between_fits le_rfl
    (rfl : unfolded (ascii "gA\n==") = _) htext hready
  dsimp only at hrestored ⊢
  rw [hspec] at hrestored
  generalize (sequentially _ _).run overByte = out at hrestored ⊢
  obtain ⟨hvals, -, -, hend⟩ := hrestored
  exact ⟨hvals, Option.some.inj hend.content⟩

end QconnMcp.Tools
