import QconnMcp.Mock.Session
import QconnMcp.Qconn.Rounds

/-!
# Process memory through the file service

`ReadMemory` and `WriteMemory` of `internal/qconn/proc.go`: the address space of a
process is a file, and an address is an offset in it. The address is converted to a
signed 64-bit integer on its way, and a negative offset is printed with a sign,
which no offset field may have; so what goes out for the upper half of the address
space is not an offset (`memory_offsets_iff`).
-/

namespace QconnMcp.Qconn

open Kit

/-- The conversion `int64(v)`. -/
def int64 (v : UInt64) : Int := wrap64 v.toNat

/-- `/proc/%d/as`. -/
def procAs (pid : Int) : Bytes := ascii "/proc/" ++ fmtInt 10 pid ++ ascii "/as"

namespace Client

variable {σ : Type} (P : Peer σ)

/-- `ReadMemory`. -/
def readMemory (pid : Int) (vaddr : UInt64) (n : Int) : Act σ (Bytes × Option Err) :=
  readFileRange P (procAs pid) (int64 vaddr) n

/-- `WriteMemory`. -/
def writeMemory (pid : Int) (vaddr : UInt64) (data : Bytes) : Act σ (Int × Option Err) :=
  writeFileAt P (procAs pid) (int64 vaddr) data

end Client

/-! ## Offset fields -/

/-- The second of the three fields of a read or write request. -/
def offsetField (cmd : Bytes) : Option Bytes :=
  match cut 58 cmd with
  | none => none
  | some (_, rest) =>
      match cut 58 rest with
      | none => none
      | some (_, rest) => (cut 58 rest).map Prod.fst

/-- The offset field matches `[0-9a-fA-F]+` and stands for `a`. -/
def OffsetIs (cmd : Bytes) (a : Nat) : Prop :=
  ∃ f, offsetField cmd = some f ∧ f ≠ [] ∧ f.all isHexDigit = true ∧ parseUint 16 f = (a, none)

theorem offsetField_fields {kind : UInt8} (hkind : kind ≠ 58) (fd off : Int) (rest : Bytes) :
    offsetField (kind :: 58 :: (fmtInt 16 fd ++ 58 :: (fmtInt 16 off ++ 58 :: rest))) =
      some (fmtInt 16 off) := by
  have hletter : cut 58 ([kind] ++ 58 :: (fmtInt 16 fd ++ 58 :: (fmtInt 16 off ++ 58 :: rest))) =
      some ([kind], fmtInt 16 fd ++ 58 :: (fmtInt 16 off ++ 58 :: rest)) :=
    cut_append (by simpa using hkind.symm) _
  rw [offsetField, show kind :: 58 :: (fmtInt 16 fd ++ 58 :: (fmtInt 16 off ++ 58 :: rest)) =
    [kind] ++ 58 :: (fmtInt 16 fd ++ 58 :: (fmtInt 16 off ++ 58 :: rest)) from rfl, hletter]
  dsimp only
  rw [cut_append (colon_not_mem_hex fd)]
  dsimp only
  rw [cut_append (colon_not_mem_hex off)]
  rfl

theorem offsetField_readCmd (fd off n : Int) :
    offsetField (readCmd fd off n) = some (fmtInt 16 off) := by
  have hkind : (114 : UInt8) ≠ 58 := by decide
  have h := offsetField_fields hkind fd off (fmtInt 16 n)
  simpa [readCmd, ascii] using h

theorem offsetField_writeCmd (fd off : Int) (n : Nat) :
    offsetField (writeCmd fd off n) = some (fmtInt 16 off) := by
  have hkind : (119 : UInt8) ≠ 58 := by decide
  have h := offsetField_fields hkind fd off (fmtInt 16 n)
  simpa [writeCmd, ascii] using h

theorem wrap64_int64_add (vaddr : UInt64) (t : Int) :
    wrap64 (int64 vaddr + t) = wrap64 (vaddr.toNat + t) := by
  rw [int64, wrap64, wrap64, Int.bmod_add_bmod, wrap64]

/-- In the upper half of the address space the offset is negative. -/
theorem wrap64_upper {a : Int} (hlo : 2 ^ 63 ≤ a) (hhi : a < 2 ^ 64) : wrap64 a < 0 := by
  rw [wrap64, Int.bmod_def]
  omega

/-- A printed offset is the address exactly in the lower half. -/
theorem offsetIs_iff {cmd : Bytes} {a : Nat} (ha : a < 2 ^ 64)
    (hcmd : offsetField cmd = some (fmtInt 16 (wrap64 a))) : OffsetIs cmd a ↔ a < 2 ^ 63 := by
  refine ⟨?_, ?_⟩
  · rintro ⟨f, hf, -, hdigits, -⟩
    by_contra hge
    rw [hcmd, Option.some.injEq] at hf
    rw [← hf, fmtInt, if_pos (wrap64_upper (by omega) (by omega)), List.all_cons] at hdigits
    exact absurd hdigits (by simp [isHexDigit])
  · intro hlt
    have hfield : fmtInt 16 (wrap64 a) = fmtNat 16 a := by
      rw [wrap64_of_bounds (by omega) (by omega), fmtInt_of_nonneg (by omega), Int.toNat_natCast]
    rw [hfield] at hcmd
    refine ⟨_, hcmd, fmtNat_ne_nil 16 a, ?_, parseUint_fmtNat (by decide) (by decide) ha⟩
    exact List.all_eq_true.mpr (forall_mem_fmtNat (by decide) (by decide))

/-! ## Offsets of the requests -/

/-- A read or write request. -/
def isTransfer (l : Bytes) : Bool := (ascii "r:").isPrefixOf l || (ascii "w:").isPrefixOf l

theorem isTransfer_text {l : Bytes} (h : TextCmd l) : isTransfer l = false := by
  rw [isTransfer, h.notRead, h.notWrite]
  rfl

theorem isTransfer_readCmd (fd off n : Int) : isTransfer (readCmd fd off n) = true := by
  simp only [isTransfer, readCmd, List.append_assoc]
  rfl

theorem isTransfer_writeCmd (fd off : Int) (n : Nat) : isTransfer (writeCmd fd off n) = true := by
  simp only [isTransfer, writeCmd, List.append_assoc]
  rfl

theorem lf_not_mem_procAs (pid : Int) : (10 : UInt8) ∉ procAs pid := by
  simp [procAs, ascii]

namespace Client

variable {σ : Type} (P : Peer σ)

/-- The requests of `ReadMemory`, each with the number of bytes read before it. -/
def memoryReads (pid : Int) (vaddr : UInt64) (n : Int) (c : Client σ) : List (Nat × Bytes) :=
  match (opened P (procAs pid) oRdonly 0).run c with
  | (.error _, _) => []
  | (.ok h, c') => readRequests P h.fd (int64 vaddr) n n.toNat [] c'

/-- The requests of `WriteMemory`, each with the number of bytes written before it. -/
def memoryWrites (pid : Int) (vaddr : UInt64) (data : Bytes) (c : Client σ) : List (Nat × Bytes) :=
  match (opened P (procAs pid) oRdwr 0).run c with
  | (.error _, _) => []
  | (.ok h, c') => writeRequests P h.fd (int64 vaddr) data (data.length + 1) 0 c'

/-- The requests are the lines that the functions send. -/
theorem readMemory_lines (pid : Int) (vaddr : UInt64) (n : Int) (c : Client σ) :
    (newLines (readMemory P pid vaddr n) c).filter isTransfer =
      (memoryReads P pid vaddr n c).map Prod.snd := by
  rw [readMemory, readFileRange, memoryReads]
  rcases hopen : (opened P (procAs pid) oRdonly 0).run c with ⟨e | h, c'⟩
  · exact withFile_lines_error (lf_not_mem_procAs pid) (fun _ => isTransfer_text) hopen
  · rw [withFile_lines_ok (lf_not_mem_procAs pid) (fun _ => isTransfer_text)
      (fun h => rangeLoop_sends h.fd _ n _ _) hopen, rangeLoop_lines]
    refine List.filter_eq_self.mpr ?_
    intro l hl
    obtain ⟨r, hr, rfl⟩ := List.mem_map.mp hl
    obtain ⟨-, k, hk⟩ := mem_readRequests hr
    rw [hk, isTransfer_readCmd]

theorem writeMemory_lines (pid : Int) (vaddr : UInt64) (data : Bytes) (c : Client σ) :
    (newLines (writeMemory P pid vaddr data) c).filter isTransfer =
      (memoryWrites P pid vaddr data c).map Prod.snd := by
  rw [writeMemory, writeFileAt, memoryWrites]
  rcases hopen : (opened P (procAs pid) oRdwr 0).run c with ⟨e | h, c'⟩
  · exact withFile_lines_error (lf_not_mem_procAs pid) (fun _ => isTransfer_text) hopen
  · rw [withFile_lines_ok (lf_not_mem_procAs pid) (fun _ => isTransfer_text)
      (fun h => writeLoop_sends h.fd _ data _ _) hopen, writeLoop_lines]
    refine List.filter_eq_self.mpr ?_
    intro l hl
    obtain ⟨r, hr, rfl⟩ := List.mem_map.mp hl
    obtain ⟨-, k, hk⟩ := mem_writeRequests hr
    rw [hk, isTransfer_writeCmd]

theorem mem_memoryReads {pid : Int} {vaddr : UInt64} {n : Int} {c : Client σ} {r : Nat × Bytes}
    (h : r ∈ memoryReads P pid vaddr n c) :
    (r.1 : Int) < n ∧ offsetField r.2 = some (fmtInt 16 (wrap64 (vaddr.toNat + r.1 : Nat))) := by
  rw [memoryReads] at h
  split at h
  · simp at h
  · obtain ⟨hlt, k, hk⟩ := mem_readRequests h
    rw [hk, offsetField_readCmd, wrap64_int64_add]
    exact ⟨hlt, by push_cast; rfl⟩

theorem mem_memoryWrites {pid : Int} {vaddr : UInt64} {data : Bytes} {c : Client σ} {r : Nat × Bytes}
    (h : r ∈ memoryWrites P pid vaddr data c) :
    r.1 < data.length ∧ offsetField r.2 = some (fmtInt 16 (wrap64 (vaddr.toNat + r.1 : Nat))) := by
  rw [memoryWrites] at h
  split at h
  · simp at h
  · obtain ⟨hlt, k, hk⟩ := mem_writeRequests h
    rw [hk, offsetField_writeCmd, wrap64_int64_add]
    exact ⟨hlt, by push_cast; rfl⟩

/-- **Offsets in the lower half.** The read and write requests among the lines that
`ReadMemory` and `WriteMemory` send each carry the address plus the bytes transferred
before them, in the unsigned grammar of the file service, exactly when each is for an
address below `2 ^ 63`. -/
theorem memory_offsets_iff (pid : Int) (vaddr : UInt64) (c : Client σ) :
    (∀ n : Int, vaddr.toNat + n ≤ 2 ^ 64 →
      (newLines (readMemory P pid vaddr n) c).filter isTransfer =
          (memoryReads P pid vaddr n c).map Prod.snd ∧
        ((∀ r ∈ memoryReads P pid vaddr n c, OffsetIs r.2 (vaddr.toNat + r.1)) ↔
          ∀ r ∈ memoryReads P pid vaddr n c, vaddr.toNat + r.1 < 2 ^ 63)) ∧
      ∀ data : Bytes, vaddr.toNat + data.length ≤ 2 ^ 64 →
        (newLines (writeMemory P pid vaddr data) c).filter isTransfer =
            (memoryWrites P pid vaddr data c).map Prod.snd ∧
          ((∀ r ∈ memoryWrites P pid vaddr data c, OffsetIs r.2 (vaddr.toNat + r.1)) ↔
            ∀ r ∈ memoryWrites P pid vaddr data c, vaddr.toNat + r.1 < 2 ^ 63) := by
  refine ⟨fun n hn => ⟨readMemory_lines P pid vaddr n c, ?_⟩,
    fun data hdata => ⟨writeMemory_lines P pid vaddr data c, ?_⟩⟩
  · refine forall_congr' fun r => forall_congr' fun hr => ?_
    obtain ⟨hlt, hfield⟩ := mem_memoryReads P hr
    exact offsetIs_iff (by omega) hfield
  · refine forall_congr' fun r => forall_congr' fun hr => ?_
    obtain ⟨hlt, hfield⟩ := mem_memoryWrites P hr
    exact offsetIs_iff (by omega) hfield

/-- A read at `0xffff800000000000` sends an offset with a sign, which the mock's
grammar does not match. -/
theorem upper_half_signed :
    let c : Client Bool := ⟨⟨[], .timeout, [], [], 1⟩, false, .file, none, []⟩
    newLines (readMemory (stubTarget []) 7 0xffff800000000000 1) c =
        [ascii "o:\"/proc/7/as\":0:0", ascii "r:3:-800000000000:1", ascii "c:3"] ∧
      Mock.rwRe.exec (ascii "r:3:-800000000000:1") = none ∧
      ¬ ∀ r ∈ memoryReads (stubTarget []) 7 0xffff800000000000 1 c,
        OffsetIs r.2 (0xffff800000000000 + r.1) := by
  intro c
  refine ⟨by decide +kernel, by decide +kernel, ?_⟩
  intro hall
  have hrequest : (0, ascii "r:3:-800000000000:1") ∈
      memoryReads (stubTarget []) 7 0xffff800000000000 1 c := by
    decide +kernel
  obtain ⟨f, hf, -, hdigits, -⟩ := hall _ hrequest
  have hfield : offsetField (ascii "r:3:-800000000000:1") = some (ascii "-800000000000") := by
    decide +kernel
  rw [hfield, Option.some.injEq] at hf
  rw [← hf] at hdigits
  exact absurd hdigits (by decide)

end Client

end QconnMcp.Qconn
