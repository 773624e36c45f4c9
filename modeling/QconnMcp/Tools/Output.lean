import QconnMcp.Qnxdbg.Layout
import QconnMcp.Tools.Debug

/-!
# What the debug tools print

The handlers of `internal/mcpserver/tools_debug.go` show a block from the target in
hexadecimal and, beside it, what they make of it: the registers by name
(`decodeAArch64`), the segments of a memory map (`ParseMapInfo` of
`internal/qnxdbg/commands.go`), the printable strings in it (`printableStrings`). The
map keeps the records that look like segments, in order, whatever stands between them
(`parseMapInfo_records`).
-/

namespace QconnMcp.Qnxdbg

open Kit

/-! ## Memory maps -/

structure MapSegment where
  vaddr : Nat
  size : Nat
  deriving DecidableEq, Repr

/-- The record at an offset, if it looks like a segment: an aligned address other than
zero, and a size up to the bound of 1 TiB. -/
def segmentAt (b : Bytes) (off : Nat) : Option MapSegment :=
  let v := leNat ((b.drop (off + 8)).take 8)
  let s := leNat ((b.drop (off + 16)).take 8)
  if v ≠ 0 ∧ v &&& 0xfff = 0 ∧ s ≠ 0 ∧ s < 1 <<< 40 then some ⟨v, s⟩ else none

/-- `ParseMapInfo`: records of 24 bytes. -/
def parseMapInfo (b : Bytes) : List MapSegment :=
  (List.range (b.length / 24)).filterMap fun i => segmentAt b (24 * i)

/-- A record of a map, in the integer types of its fields. -/
structure MapRecord where
  pid : UInt32
  id : UInt32
  vaddr : UInt64
  size : UInt64

namespace MapRecord

def bytes (r : MapRecord) : Bytes :=
  leBytes 4 r.pid.toNat ++ leBytes 4 r.id.toNat ++ le64 r.vaddr ++ le64 r.size

theorem bytes_length (r : MapRecord) : r.bytes.length = 24 := by
  simp [bytes, le64]

/-- What the record says, if it is a segment. -/
def segment (r : MapRecord) : Option MapSegment :=
  if r.vaddr.toNat ≠ 0 ∧ 4096 ∣ r.vaddr.toNat ∧ r.size.toNat ≠ 0 ∧ r.size.toNat < 2 ^ 40 then
    some ⟨r.vaddr.toNat, r.size.toNat⟩
  else none

theorem segmentAt_bytes (r : MapRecord) (rest : Bytes) : segmentAt (r.bytes ++ rest) 0 = r.segment := by
  have haddr : (r.bytes ++ rest).drop (0 + 8) = le64 r.vaddr ++ (le64 r.size ++ rest) := by
    rw [bytes, List.append_assoc, List.append_assoc]
    exact List.drop_left' (by simp)
  have hsize : (r.bytes ++ rest).drop (0 + 16) = le64 r.size ++ rest := by
    rw [show 0 + 16 = 0 + 8 + 8 from rfl, ← List.drop_drop, haddr]
    exact drop_leBytes 8 _ _
  have halign : r.vaddr.toNat &&& 0xfff = r.vaddr.toNat % 4096 :=
    Nat.and_two_pow_sub_one_eq_mod r.vaddr.toNat 12
  rw [segmentAt, haddr, hsize, leNat_le64, leNat_le64, halign, segment]
  simp only [Nat.dvd_iff_mod_eq_zero]
  rfl

end MapRecord

/-- The records behind the first one. -/
theorem parseMapInfo_cons (r : MapRecord) (rest : Bytes) :
    parseMapInfo (r.bytes ++ rest) = r.segment.toList ++ parseMapInfo rest := by
  have hcount : (r.bytes ++ rest).length / 24 = rest.length / 24 + 1 := by
    rw [List.length_append, r.bytes_length]
    omega
  have hlater : ∀ i, segmentAt (r.bytes ++ rest) (24 * (i + 1)) = segmentAt rest (24 * i) := by
    intro i
    have hdrop : ∀ k, (r.bytes ++ rest).drop (24 * (i + 1) + k) = rest.drop (24 * i + k) := by
      intro k
      rw [show 24 * (i + 1) + k = 24 + (24 * i + k) by omega, ← List.drop_drop,
        List.drop_left' r.bytes_length]
    rw [segmentAt, segmentAt, hdrop, hdrop]
  rw [parseMapInfo, hcount, List.range_succ_eq_map, List.filterMap_cons, List.filterMap_map]
  rw [show segmentAt (r.bytes ++ rest) (24 * 0) = r.segment from r.segmentAt_bytes rest,
    show (fun i => segmentAt (r.bytes ++ rest) (24 * i)) ∘ Nat.succ = fun i => segmentAt rest (24 * i)
      from funext hlater]
  cases r.segment <;> rfl

/-- The segments of a map are those among its records; a piece of a record at the end is
dropped. -/
theorem parseMapInfo_records (rs : List MapRecord) {rest : Bytes} (hrest : rest.length < 24) :
    parseMapInfo (rs.flatMap MapRecord.bytes ++ rest) = rs.filterMap MapRecord.segment := by
  induction rs with
  | nil =>
      rw [List.flatMap_nil, List.nil_append, parseMapInfo, Nat.div_eq_of_lt hrest]
      rfl
  | cons r rs ih =>
      rw [List.flatMap_cons, List.append_assoc, parseMapInfo_cons, ih, List.filterMap_cons]
      cases r.segment <;> rfl

end QconnMcp.Qnxdbg

namespace QconnMcp.Tools

open Kit Qnxdbg

/-! ## Registers -/

/-- The eight bytes at an offset, if the block has them. -/
def rd (b : Bytes) (off : Nat) : Option Nat :=
  if b.length < off + 8 then none else some (leNat ((b.drop off).take 8))

/-- Where the registers stand in the block. -/
def aarch64 : List (Bytes × Nat) :=
  (List.range 31).map (fun i => (ascii "x" ++ fmtNat 10 i, i * 8)) ++
    [(ascii "sp", 31 * 8), (ascii "pc", 0x100), (ascii "pstate", 0x108)]

/-- `decodeAArch64`. The keys of the map are different, so their order does not matter. -/
def decodeAArch64 (b : Bytes) : List (Bytes × Bytes) :=
  aarch64.filterMap fun reg => (rd b reg.2).map fun v => (reg.1, hexed v)

/-- A block of 64-bit registers, one behind the other. -/
def registerBlock (vs : List UInt64) : Bytes := vs.flatMap le64

theorem registerBlock_length (vs : List UInt64) : (registerBlock vs).length = 8 * vs.length := by
  induction vs with
  | nil => rfl
  | cons v vs ih =>
      rw [registerBlock, List.flatMap_cons, List.length_append, ← registerBlock, ih, le64,
        leBytes_length, List.length_cons]
      omega

theorem rd_registerBlock {vs : List UInt64} {i : Nat} (h : i < vs.length) :
    rd (registerBlock vs) (8 * i) = some vs[i].toNat := by
  induction vs generalizing i with
  | nil => exact absurd h (Nat.not_lt_zero i)
  | cons v vs ih =>
      have hlen : ¬ (registerBlock (v :: vs)).length < 8 * i + 8 := by
        rw [registerBlock_length]
        omega
      rw [rd, if_neg hlen]
      cases i with
      | zero => exact congrArg some (leNat_le64 v _)
      | succ i =>
          have hi : i < vs.length := Nat.lt_of_succ_lt_succ h
          have hrest : (registerBlock (v :: vs)).drop (8 * (i + 1)) = (registerBlock vs).drop (8 * i) := by
            rw [registerBlock, List.flatMap_cons, show 8 * (i + 1) = 8 + 8 * i by omega, ← List.drop_drop]
            exact congrArg (List.drop (8 * i)) (drop_leBytes 8 _ _)
          have hlater := ih hi
          rw [rd, if_neg (by rw [registerBlock_length]; omega)] at hlater
          rw [hrest]
          exact hlater

/-- Registers that are all there. -/
theorem filterMap_rd {b : Bytes} {regs : List (Bytes × Nat)} {vs : List UInt64}
    (hlen : regs.length = vs.length)
    (h : ∀ i (hi : i < regs.length), rd b regs[i].2 = some (vs[i].toNat)) :
    regs.filterMap (fun reg => (rd b reg.2).map fun v => (reg.1, hexed v)) =
      List.zipWith (fun reg v => (reg.1, hexed v.toNat)) regs vs := by
  induction regs generalizing vs with
  | nil => rfl
  | cons reg regs ih =>
      cases vs with
      | nil => cases hlen
      | cons v vs =>
          have hfirst : rd b reg.2 = some v.toNat := h 0 (Nat.zero_lt_succ _)
          have hlater := ih (Nat.succ.inj hlen) fun i hi => h (i + 1) (Nat.succ_lt_succ hi)
          rw [List.filterMap_cons_some (by rw [hfirst, Option.map_some]), hlater]
          rfl

/-- A whole block has every register under its name. -/
theorem decodeAArch64_registerBlock {vs : List UInt64} (hlen : vs.length = 34) :
    decodeAArch64 (registerBlock vs) =
      List.zipWith (fun reg v => (reg.1, hexed v.toNat)) aarch64 vs := by
  have hcount : aarch64.length = vs.length := (show aarch64.length = 34 from rfl).trans hlen.symm
  have hoffsets : aarch64.map Prod.snd = (List.range 34).map (8 * ·) := rfl
  refine filterMap_rd hcount ?_
  intro i hi
  have hget : (aarch64.map Prod.snd)[i]? = some (8 * i) := by
    rw [hoffsets, List.getElem?_map, List.getElem?_range (hlen ▸ hcount ▸ hi), Option.map_some]
  rw [List.getElem?_map, List.getElem?_eq_getElem hi, Option.map_some, Option.some.injEq] at hget
  rw [hget]
  exact rd_registerBlock (hcount ▸ hi)

/-! ## Strings -/

/-- A run of printable bytes that ends here. -/
def flush (cur : Bytes) : List Bytes := if 2 ≤ cur.length then [cur] else []

/-- The loop of `printableStrings`, inside the run `cur`. -/
def printableFrom (cur : Bytes) : Bytes → List Bytes
  | [] => flush cur
  | c :: b => if 0x20 ≤ c ∧ c < 0x7f then printableFrom (cur ++ [c]) b else flush cur ++ printableFrom [] b

def printableStrings (b : Bytes) : List Bytes := printableFrom [] b

def longestString (ss : List Bytes) : Bytes :=
  ss.foldl (fun best s => if best.length < s.length then s else best) []

/-! ## Outputs -/

/-- The output of a tool, field by field. -/
inductive Output where
  | regs (hex : Bytes) (registers : List (Bytes × Bytes))
  | memory (hex : Bytes)
  | ok
  | stop (code : UInt8) (pid tid : Int) (raw : Bytes)
  | mapInfo (segments : List MapSegment) (hex : Bytes)
  | rawInfo (hex : Bytes) (strings : List Bytes)
  | threads (pid : Int) (name : Bytes) (threadNames : List Bytes) (procInfoHex threadNamesHex : Bytes)
  deriving DecidableEq, Repr

/-- What a tool shows of what it got from the client. -/
def Tool.render : Tool → ToolOut → Output
  | .readRegisters, .block b => .regs (hexBytes b) (decodeAArch64 b)
  | .mapinfo, .block b => .mapInfo (parseMapInfo b) (hexBytes b)
  | .targetInfo, .block b => .rawInfo (hexBytes b) (printableStrings b)
  | _, .block b => .memory (hexBytes b)
  | _, .stop st => .stop st.code st.pid st.tid (hexBytes st.raw)
  | _, .threads pid info names =>
      .threads pid (longestString (printableStrings (info.getD []))) (printableStrings (names.getD []))
        (hexBytes (info.getD [])) (hexBytes (names.getD []))
  | _, _ => .ok

/-- The handler of a tool, with its output. -/
def Tool.handler {σ : Type} (P : Peer σ) (t : Tool) : Act σ (Except ToolErr Output) := do
  match ← t.exec P with
  | (_, some e) => pure (.error e)
  | (out, none) => pure (.ok (t.render out))

theorem Tool.handler_run {σ : Type} (P : Peer σ) (t : Tool) (q : QnxSession σ) :
    (t.handler P).run q =
      (((t.exec P).run q).1.2.elim (.ok (t.render ((t.exec P).run q).1.1)) .error,
        ((t.exec P).run q).2) := by
  rw [Tool.handler, run_bind]
  generalize (t.exec P).run q = r
  obtain ⟨⟨out, e⟩, q'⟩ := r
  cases e <;> rfl

end QconnMcp.Tools
