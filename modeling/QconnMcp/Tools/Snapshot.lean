import QconnMcp.Qnxdbg.Memory
import QconnMcp.Qnxdbg.MemoryWrite
import QconnMcp.Qnxdbg.Layout
import QconnMcp.Tools.Debug

/-!
# Saving and restoring memory through the tools

`qconn_debug_read_memory` and `qconn_debug_write_memory` on one session, against a target
in whose address space some addresses are mapped and others are not. Neither tool sees the
chunks of 1 KiB that the requests are made of, or the replies that come short: a read
returns the mapped bytes from its address on, up to the first one that is not mapped, and a
write that fails has stored whole chunks up to there. A block of memory that was read can
be written back, whatever was written in between (`memory_restored`).
-/

namespace QconnMcp.Tools

open Kit Qnxdbg

/-! ## Mapped memory -/

/-- How many of the `n` addresses from `a` on are mapped before the first one that is
not. -/
def mappedLen (mapped : UInt64 → Bool) : UInt64 → Nat → Nat
  | _, 0 => 0
  | a, n + 1 => if mapped a then mappedLen mapped (a + 1) n + 1 else 0

/-- The `n` bytes from `a` on. -/
def peek (m : UInt64 → UInt8) (a : UInt64) (n : Nat) : Bytes :=
  (List.range n).map fun i => m (a + UInt64.ofNat i)

section Mapped

variable {mapped : UInt64 → Bool}

theorem mappedLen_le (mapped : UInt64 → Bool) (a : UInt64) (n : Nat) : mappedLen mapped a n ≤ n := by
  induction n generalizing a with
  | zero => exact le_rfl
  | succ n ih =>
      rw [mappedLen]
      split
      · exact Nat.succ_le_succ (ih _)
      · exact Nat.zero_le _

theorem mappedLen_add (a : UInt64) (k n : Nat) :
    mappedLen mapped a (k + n) =
      if mappedLen mapped a k = k then k + mappedLen mapped (a + UInt64.ofNat k) n
      else mappedLen mapped a k := by
  induction k generalizing a with
  | zero =>
      rw [show a + UInt64.ofNat 0 = a from UInt64.add_zero a]
      simp [mappedLen]
  | succ k ih =>
      have hnext : a + 1 + UInt64.ofNat k = a + UInt64.ofNat (k + 1) := by
        rw [Nat.add_comm k 1, UInt64.ofNat_add, UInt64.add_assoc]
        rfl
      rw [Nat.succ_add, mappedLen, mappedLen, ih, hnext]
      by_cases hm : mapped a = true
      · rw [if_pos hm, if_pos hm]
        by_cases hall : mappedLen mapped (a + 1) k = k
        · rw [if_pos hall, if_pos (congrArg Nat.succ hall)]
          omega
        · rw [if_neg hall, if_neg (mt Nat.succ.inj hall)]
      · rw [if_neg hm, if_neg hm, if_neg (Nat.zero_ne_add_one k)]

theorem mappedLen_mappedLen (a : UInt64) (n : Nat) :
    mappedLen mapped a (mappedLen mapped a n) = mappedLen mapped a n := by
  induction n generalizing a with
  | zero => rfl
  | succ n ih =>
      rw [mappedLen]
      split
      · rename_i ha
        rw [mappedLen, if_pos ha, ih]
      · rfl

theorem mappedLen_full {a : UInt64} {k n : Nat} (hk : mappedLen mapped a k = k)
    (hn : mappedLen mapped (a + UInt64.ofNat k) n = n) : mappedLen mapped a (k + n) = k + n := by
  rw [mappedLen_add, if_pos hk, hn]

/-- The first address that is not mapped decides, however many there are behind it. -/
theorem mappedLen_short {a : UInt64} {k n l : Nat} (hk : mappedLen mapped a k = k)
    (hn : mappedLen mapped (a + UInt64.ofNat k) n ≠ n) (hle : k + n ≤ l) :
    mappedLen mapped a l = k + mappedLen mapped (a + UInt64.ofNat k) n := by
  have hall : mappedLen mapped a (k + n) = k + mappedLen mapped (a + UInt64.ofNat k) n := by
    rw [mappedLen_add, if_pos hk]
  obtain ⟨r, rfl⟩ := Nat.exists_eq_add_of_le hle
  rw [mappedLen_add, hall, if_neg (by omega)]

theorem length_peek (m : UInt64 → UInt8) (a : UInt64) (n : Nat) : (peek m a n).length = n := by
  rw [peek, List.length_map, List.length_range]

theorem peek_add (m : UInt64 → UInt8) (a : UInt64) (k n : Nat) :
    peek m a (k + n) = peek m a k ++ peek m (a + UInt64.ofNat k) n := by
  rw [peek, peek, peek, List.range_add, List.map_append, List.map_map]
  refine congrArg _ (List.map_congr_left fun i _ => ?_)
  rw [Function.comp_apply, UInt64.ofNat_add, UInt64.add_assoc]

theorem getElem?_peek {m : UInt64 → UInt8} {a : UInt64} {n i : Nat} (h : i < n) :
    (peek m a n)[i]? = some (m (a + UInt64.ofNat i)) := by
  simp [peek, h]

end Mapped

/-! ## Targets -/

/-- The target has a memory with these mapped addresses. A read of a chunk returns what is
mapped of it, or an error for nothing; a chunk is stored as a whole or refused. -/
structure MemoryTarget {σ : Type} (P : Peer σ) (I : σ → Prop) (mapped : UInt64 → Bool)
    (mem : σ → UInt64 → UInt8) : Prop where
  read : ∀ {s} mid a {size}, I s → 0 < size → size ≤ maxChunk →
    ∃ t fs reply, P.recv s (frame (message cmdMemrd 0 mid (memrdBody a size))) =
        some (t, fs.flatMap frame) ∧ debugFrames fs = [reply] ∧ I t ∧ mem t = mem s ∧
      if mappedLen mapped a size = 0 then respCode reply = respErr
      else respCode reply ≠ respErr ∧
        respBody reply = peek (mem s) a (mappedLen mapped a size)
  write : ∀ {s} mid a {chunk}, I s → chunk.length ≤ maxChunk →
    ∃ t fs reply, P.recv s (frame (message cmdMemwr 0 mid (memwrBody a chunk))) =
        some (t, fs.flatMap frame) ∧ debugFrames fs = [reply] ∧ I t ∧
      if mappedLen mapped a chunk.length = chunk.length then
        respCode reply ≠ respErr ∧ mem t = stored (mem s) a chunk
      else respCode reply = respErr ∧ mem t = mem s

section Client

variable {σ : Type} {P : Peer σ} {I : σ → Prop} {mapped : UInt64 → Bool}
  {mem : σ → UInt64 → UInt8} {m : UInt64 → UInt8}

/-- Between two requests, with `m` in the target's memory. -/
structure Over (I : σ → Prop) (mem : σ → UInt64 → UInt8) (m : UInt64 → UInt8) (c : Client σ) :
    Prop where
  idle : Idle I c
  memory : mem c.peer = m

theorem memrd_over (hT : MemoryTarget P I mapped mem) {a : UInt64} {size : Nat} (hpos : 0 < size)
    (hsize : size ≤ maxChunk) {c : Client σ} (hc : Over I mem m c) :
    ∃ reply c', (Client.transact P cmdMemrd (memrdBody a size)).run c = (.ok reply, c') ∧
      Over I mem m c' ∧
      if mappedLen mapped a size = 0 then respCode reply = respErr
      else respCode reply ≠ respErr ∧ respBody reply = peek m a (mappedLen mapped a size) := by
  obtain ⟨us, hus, hinp⟩ := hc.idle.unread
  obtain ⟨t, fs, reply, hrecv, hfs, hI, hmem, hreply⟩ :=
    hT.read (c.mid + 1) a hc.idle.idle hpos hsize
  obtain ⟨gs, out, hrun, hgs⟩ := Client.transactSub_answered hinp hus hrecv hfs
  rw [hc.memory] at hmem hreply
  exact ⟨reply, _, hrun, ⟨⟨⟨gs, hgs, rfl⟩, hI⟩, hmem⟩, hreply⟩

theorem memwr_over (hT : MemoryTarget P I mapped mem) {a : UInt64} {chunk : Bytes}
    (hlen : chunk.length ≤ maxChunk) {c : Client σ} (hc : Over I mem m c) :
    ∃ reply c', (Client.transact P cmdMemwr (memwrBody a chunk)).run c = (.ok reply, c') ∧
      if mappedLen mapped a chunk.length = chunk.length then
        respCode reply ≠ respErr ∧ Over I mem (stored m a chunk) c'
      else respCode reply = respErr ∧ Over I mem m c' := by
  obtain ⟨us, hus, hinp⟩ := hc.idle.unread
  obtain ⟨t, fs, reply, hrecv, hfs, hI, hreply⟩ :=
    hT.write (c.mid + 1) a hc.idle.idle hlen
  obtain ⟨gs, out, hrun, hgs⟩ := Client.transactSub_answered hinp hus hrecv hfs
  rw [hc.memory] at hreply
  refine ⟨reply, _, hrun, ?_⟩
  split_ifs at hreply ⊢
  · exact ⟨hreply.1, ⟨⟨gs, hgs, rfl⟩, hI⟩, hreply.2⟩
  · exact ⟨hreply.1, ⟨⟨gs, hgs, rfl⟩, hI⟩, hreply.2⟩

/-- What a read returns. -/
def peeked (mapped : UInt64 → Bool) (m : UInt64 → UInt8) (addr : UInt64) (n : Int) :
    Bytes × Option Err :=
  let k := mappedLen mapped addr n.toNat
  (peek m addr k, if k = 0 ∧ 0 < n then some (.readMemory addr) else none)

theorem peeked_of_mapped {addr : UInt64} {n : Int} {k : Nat} (hk : mappedLen mapped addr k = k)
    (hle : k ≤ n.toNat) (hn : n ≤ k) : peeked mapped m addr n = (peek m addr k, none) := by
  obtain rfl : k = n.toNat := by omega
  simp only [peeked, hk]
  rw [if_neg (by omega)]

/-- The loop of a read, with the first `k` bytes read. -/
theorem readMemoryLoop_over (hT : MemoryTarget P I mapped mem) (addr : UInt64) (n : Int) (fuel : Nat) :
    ∀ k : Nat, k ≤ n.toNat → n ≤ k + fuel → mappedLen mapped addr k = k →
      Holds (Over I mem m) (Client.readMemoryLoop P addr n fuel (peek m addr k))
        (fun r c => r = peeked mapped m addr n ∧ Over I mem m c) := by
  induction fuel with
  | zero =>
      intro k hle hn hk c hc
      exact ⟨(peeked_of_mapped hk hle (by omega)).symm, hc⟩
  | succ fuel ih =>
      intro k hle hn hk c hc
      have hlen := length_peek m addr k
      rcases lt_or_ge (k : Int) n with hlt | hge
      · have hout : ((peek m addr k).length : Int) < n := by omega
        have hchunk : 0 < maxChunk := by decide
        obtain ⟨size, hsize⟩ : ∃ size, Client.wanted n (peek m addr k) = size := ⟨_, rfl⟩
        have hmin : size = min (n - k).toNat maxChunk := by rw [← hsize, Client.wanted, hlen]
        obtain ⟨reply, c', hreq, hc', hreply⟩ :=
          memrd_over hT (a := addr + UInt64.ofNat k) (show 0 < size by omega) (by omega) hc
        have hrun : (Client.memrd P addr n (peek m addr k)).run c = (.ok reply, c') := by
          rw [Client.memrd, hlen, hsize]
          exact hreq
        have hend : mappedLen mapped (addr + UInt64.ofNat k) size ≠ size →
            mappedLen mapped addr n.toNat = k + mappedLen mapped (addr + UInt64.ofNat k) size :=
          fun hne => mappedLen_short hk hne (by omega)
        by_cases hnone : mappedLen mapped (addr + UInt64.ofNat k) size = 0
        · -- nothing more is mapped; an error if nothing was
          rw [if_pos hnone] at hreply
          rw [Client.readMemoryLoop_refused hout hrun hreply, peeked, hend (by omega), hnone]
          refine ⟨Prod.ext rfl ?_, hc'⟩
          rcases Nat.eq_zero_or_pos k with rfl | hpos
          · have hempty : ¬ peek m addr 0 ≠ [] := not_not.mpr rfl
            rw [if_neg hempty, if_pos (show 0 + 0 = 0 ∧ 0 < n from ⟨rfl, hlt⟩)]
          · rw [if_pos (List.length_pos_iff.mp (by omega)), if_neg (by omega)]
        · rw [if_neg hnone] at hreply
          obtain ⟨hcode, hbody⟩ := hreply
          have hgrown : (respBody reply).length = mappedLen mapped (addr + UInt64.ofNat k) size := by
            rw [hbody, length_peek]
          have hjle := mappedLen_le mapped (addr + UInt64.ofNat k) size
          rcases Nat.lt_or_ge (mappedLen mapped (addr + UInt64.ofNat k) size) size with hshort | hfull
          · rw [Client.readMemoryLoop_short hout hrun hcode (by omega), peeked, hend (by omega), hbody,
              peek_add, if_neg (by omega)]
            exact ⟨rfl, hc'⟩
          · rw [Client.readMemoryLoop_next hout hrun hcode (by omega)]
            have hall : mappedLen mapped (addr + UInt64.ofNat k) size = size := by omega
            have htake : peek m addr k ++ (respBody reply).take (Client.wanted n (peek m addr k)) =
                peek m addr (k + size) := by
              rw [hsize, List.take_of_length_le (by omega), hbody, hall, peek_add]
            rw [htake]
            exact ih (k + size) (by omega) (by push_cast; omega) (mappedLen_full hk hall) c' hc'
      · rw [Client.readMemoryLoop_done (by omega)]
        exact ⟨(peeked_of_mapped hk hle hge).symm, hc⟩

theorem readMemory_over (hT : MemoryTarget P I mapped mem) (addr : UInt64) (n : Int) :
    Holds (Over I mem m) (Client.readMemory P addr n)
      (fun r c => r = peeked mapped m addr n ∧ Over I mem m c) :=
  readMemoryLoop_over hT addr n n.toNat 0 (Nat.zero_le _) (by omega) rfl

/-- How much of the data a write stores: all of it, or the whole chunks in front of the
first address that is not mapped. -/
def pokeLen (mapped : UInt64 → Bool) (addr : UInt64) (n : Nat) : Nat :=
  let k := mappedLen mapped addr n
  if k = n then n else k / maxChunk * maxChunk

/-- What a write returns. -/
def poked (mapped : UInt64 → Bool) (addr : UInt64) (n : Nat) : Nat × Option Err :=
  let k := pokeLen mapped addr n
  (k, if k = n then none else some (.writeMemory addr))

theorem pokeLen_of_mapped {addr : UInt64} {n : Nat} (h : mappedLen mapped addr n = n) :
    pokeLen mapped addr n = n := by
  rw [pokeLen, h, if_pos rfl]

theorem writeMemoryLoop_refused {addr : UInt64} {data reply : Bytes} {total : Nat} {c c' : Client σ}
    (h : total < data.length) (hcode : respCode reply = respErr)
    (hreq : (Client.transact P cmdMemwr
      (memwrBody (addr + UInt64.ofNat total) (Client.nextChunk data total))).run c = (.ok reply, c'))
    (fuel : Nat) :
    (Client.writeMemoryLoop P addr data (fuel + 1) total).run c =
      ((total, some (.writeMemory addr)), c') := by
  rw [Client.writeMemoryLoop, if_pos h]
  show (Client.transact P cmdMemwr (memwrBody _ (Client.nextChunk data total)) >>= _).run c = _
  rw [run_bind, hreq]
  simp only [if_pos hcode]
  rfl

theorem take_nextChunk (data : Bytes) (total : Nat) :
    data.take (total + (Client.nextChunk data total).length) =
      data.take total ++ Client.nextChunk data total := by
  rw [List.take_add]
  exact congrArg _ (List.prefix_iff_eq_take.mp (List.take_prefix _ _)).symm

/-- The loop of a write, with the first `total` bytes stored. -/
theorem writeMemoryLoop_over (hT : MemoryTarget P I mapped mem) (addr : UInt64) {data : Bytes}
    (hlen : data.length < 2 ^ 64) (fuel : Nat) :
    ∀ total : Nat, data.length ≤ total + fuel → mappedLen mapped addr total = total →
      (total % maxChunk = 0 ∨ total = data.length) → total ≤ data.length →
      Holds (Over I mem (stored m addr (data.take total)))
        (Client.writeMemoryLoop P addr data fuel total)
        (fun r c => r = poked mapped addr data.length ∧
          Over I mem (stored m addr (data.take (pokeLen mapped addr data.length))) c) := by
  have hdone : ∀ total, mappedLen mapped addr total = total → total = data.length → ∀ c,
      Over I mem (stored m addr (data.take total)) c →
      (total, none) = poked mapped addr data.length ∧
        Over I mem (stored m addr (data.take (pokeLen mapped addr data.length))) c := by
    rintro _ htotal rfl c hc
    rw [poked, pokeLen_of_mapped htotal, if_pos rfl]
    exact ⟨rfl, hc⟩
  induction fuel with
  | zero =>
      intro total hfuel htotal _ hle c hc
      exact hdone total htotal (by omega) c hc
  | succ fuel ih =>
      intro total hfuel htotal hwhole hle c hc
      rcases Nat.lt_or_ge total data.length with hlt | hge
      · have hsize := Client.nextChunk_length data total
        have hkib : maxChunk = 1024 := rfl
        obtain ⟨reply, c', hreq, hreply⟩ := memwr_over hT (a := addr + UInt64.ofNat total)
          (show (Client.nextChunk data total).length ≤ maxChunk by omega) hc
        by_cases hmapped : mappedLen mapped (addr + UInt64.ofNat total)
            (Client.nextChunk data total).length = (Client.nextChunk data total).length
        · rw [if_pos hmapped] at hreply
          have hjoin : stored (stored m addr (data.take total)) (addr + UInt64.ofNat total)
              (Client.nextChunk data total) =
              stored m addr (data.take (total + (Client.nextChunk data total).length)) := by
            have htotal' : (data.take total).length = total := List.length_take_of_le hle
            rw [take_nextChunk, ← stored_append, htotal']
            rw [List.length_append]
            omega
          rw [hjoin] at hreply
          rw [Client.writeMemoryLoop_next hlt hreply.1 hreq]
          refine ih _ (by omega) (mappedLen_full htotal hmapped) ?_ (by omega) c' hreply.2
          rw [hkib] at hwhole hsize ⊢
          omega
        · -- the chunks before this one stay
          rw [if_neg hmapped] at hreply
          have hend := mappedLen_short htotal hmapped (show _ ≤ data.length by omega)
          have hjle := mappedLen_le mapped (addr + UInt64.ofNat total)
            (Client.nextChunk data total).length
          have hlast : pokeLen mapped addr data.length = total := by
            rw [pokeLen, hend, if_neg (by omega)]
            rw [hkib] at hwhole hsize ⊢
            omega
          rw [writeMemoryLoop_refused hlt hreply.1 hreq, poked, hlast, if_neg (by omega)]
          exact ⟨rfl, hreply.2⟩
      · rw [Client.writeMemoryLoop_done hge]
        exact hdone total htotal (by omega) c hc

theorem writeMemory_over (hT : MemoryTarget P I mapped mem) (addr : UInt64) {data : Bytes}
    (hlen : data.length < 2 ^ 64) :
    Holds (Over I mem m) (Client.writeMemory P addr data)
      (fun r c => r = poked mapped addr data.length ∧
        Over I mem (stored m addr (data.take (pokeLen mapped addr data.length))) c) := by
  have hloop := writeMemoryLoop_over (m := m) hT addr hlen data.length 0 (by omega) rfl (.inl rfl)
    (Nat.zero_le _)
  exact hloop

end Client

/-! ## The two tools -/

inductive MemoryTool where
  | read (addr : UInt64) (n : Int)
  | write (addr : UInt64) (hexData : Bytes)

namespace MemoryTool

def tool : MemoryTool → Tool
  | read addr n => .readMemory addr n
  | write addr hexData => .writeMemory addr hexData

/-- What a call is to return and to leave, on the memory alone. -/
def spec (mapped : UInt64 → Bool) :
    MemoryTool → StateM (UInt64 → UInt8) (ToolOut × Option ToolErr)
  | read addr n => fun m =>
      let (b, err) := peeked mapped m addr n
      (err.elim (.block b, none) fun e => (.zero, some (.client e)), m)
  | write addr hexData => fun m =>
      match hexDecode hexData with
      | none => ((.zero, some .invalidHex), m)
      | some data =>
          ((poked mapped addr data.length).2.elim (.ok, none) fun e => (.zero, some (.client e)),
            stored m addr (data.take (pokeLen mapped addr data.length)))

/-- The data fit into the address space. -/
def Fits : MemoryTool → Prop
  | read _ _ => True
  | write _ hexData => hexData.length < 2 ^ 64

end MemoryTool

theorem length_hexDecode_le (s : Bytes) : ∀ {data}, hexDecode s = some data → data.length ≤ s.length := by
  induction s using hexDecode.induct with
  | case1 =>
      intro data h
      obtain rfl := Option.some.inj h
      exact le_rfl
  | case2 =>
      intro data h
      cases h
  | case3 a b rest hdigits ih =>
      intro data h
      rw [hexDecode, if_pos hdigits] at h
      obtain ⟨tail, htail, rfl⟩ := Option.map_eq_some_iff.mp h
      have hle := ih htail
      simp only [List.length_cons]
      omega
  | case4 a b rest hdigits =>
      intro data h
      rw [hexDecode, if_neg hdigits] at h
      cases h

theorem length_hexBytes (b : Bytes) : (hexBytes b).length = 2 * b.length := by
  induction b with
  | nil => rfl
  | cons x b ih =>
      show (hexBytes b).length + 1 + 1 = 2 * (b.length + 1)
      omega

theorem hexDecode_hexBytes (b : Bytes) : hexDecode (hexBytes b) = some b := by
  induction b with
  | nil => rfl
  | cons x b ih =>
      have hx := x.toNat_lt
      have hhi : x.toNat / 16 < 16 := by omega
      have hlo : x.toNat % 16 < 16 := by omega
      rw [show hexBytes (x :: b) =
        digitByte (x.toNat / 16) :: digitByte (x.toNat % 16) :: hexBytes b from rfl, hexDecode,
        if_pos ⟨isHexDigit_digitByte hhi, isHexDigit_digitByte hlo⟩, ih, digitVal_digitByte hhi,
        digitVal_digitByte hlo]
      refine congrArg (fun y => some (y :: b)) (UInt8.toNat_inj.mp ?_)
      show (UInt8.ofNat (x.toNat / 16 * 16 + x.toNat % 16)).toNat = x.toNat
      rw [UInt8.toNat_ofNat']
      omega

section Runs

variable {σ : Type} {P : Peer σ} {I : σ → Prop} {mapped : UInt64 → Bool}
  {mem : σ → UInt64 → UInt8}

/-- The session is between two calls, and the target's memory is `m`. -/
def Shows (I : σ → Prop) (mem : σ → UInt64 → UInt8) (q : QnxSession σ) (m : UInt64 → UInt8) : Prop :=
  Over I mem m q.client

theorem fetch_run (act : Qnxdbg.Act σ (Bytes × Option Err)) (q : QnxSession σ) :
    (fetch act).run q =
      ((act.run q.client).1.2.elim (.block (act.run q.client).1.1, none)
          fun e => (.zero, some (.client e)),
        { q with client := (act.run q.client).2 }) := by
  have hclient : (QnxSession.onClient act).run q =
      ((act.run q.client).1, { q with client := (act.run q.client).2 }) := rfl
  rw [fetch, run_bind, hclient]
  rcases (act.run q.client).1 with ⟨b, _ | e⟩
  · rfl
  · rfl

/-- A call does to the target what it is to do to the memory. -/
theorem memoryTool_sim (hT : MemoryTarget P I mapped mem) {t : MemoryTool} (ht : t.Fits) :
    Sim (Shows I mem) (t.tool.exec P) (t.spec mapped) := by
  intro q m hq
  cases t with
  | read addr n =>
      obtain ⟨hval, hend⟩ := readMemory_over hT addr n q.client hq
      have hexec := fetch_run (Client.readMemory P addr n) q
      rw [hval] at hexec
      rw [MemoryTool.tool, Tool.exec, hexec]
      exact ⟨rfl, hend⟩
  | write addr hexData =>
      rw [MemoryTool.tool, Tool.exec, withHex]
      cases hdata : hexDecode hexData with
      | none =>
          have hspec : (MemoryTool.write addr hexData).spec mapped =
              pure (.zero, some .invalidHex) := by
            rw [MemoryTool.spec, hdata]
            rfl
          rw [hspec]
          exact ⟨rfl, hq⟩
      | some data =>
          have hlen : data.length < 2 ^ 64 := (length_hexDecode_le hexData hdata).trans_lt ht
          obtain ⟨hval, hend⟩ := writeMemory_over hT addr hlen q.client hq
          have hspec : (MemoryTool.write addr hexData).spec mapped = fun m =>
              ((poked mapped addr data.length).2.elim (.ok, none) fun e => (.zero, some (.client e)),
                stored m addr (data.take (pokeLen mapped addr data.length))) := by
            rw [MemoryTool.spec, hdata]
          rw [hspec, acknowledge_run]
          refine ⟨?_, hend⟩
          show ((Client.writeMemory P addr data).run q.client).1.2.elim _ _ = _
          rw [hval]
          rfl

/-- **Saving and restoring.** A block of memory is read through `qconn_debug_read_memory`,
and later the hexadecimal text that came back is given to `qconn_debug_write_memory`. Each
call on the way, whatever was read and written, returns what the memory alone says. The
last one succeeds, and the bytes that were read are back; every other byte is as the calls
in between have left it. -/
theorem memory_restored (hT : MemoryTarget P I mapped mem) (addr : UInt64) {n : Int}
    (hn : n < 2 ^ 63) {ts : List MemoryTool} (hts : ∀ t ∈ ts, t.Fits) {q : QnxSession σ}
    (hq : Idle I q.client) :
    let m := mem q.client.peer
    let saved := (peeked mapped m addr n).1
    let calls := MemoryTool.read addr n :: ts ++ [.write addr (hexBytes saved)]
    let out := (sequentially (fun t => t.tool.exec P) calls).run q
    out.1 = ((sequentially (MemoryTool.spec mapped) calls).run m).1 ∧
      out.1.getLast? = some (.ok, none) ∧
      (∀ i < saved.length,
        mem out.2.client.peer (addr + UInt64.ofNat i) = m (addr + UInt64.ofNat i)) ∧
      ∀ a, (∀ i < saved.length, a ≠ addr + UInt64.ofNat i) →
        mem out.2.client.peer a = ((sequentially (MemoryTool.spec mapped) ts).run m).2 a := by
  intro m saved calls out
  have hsaved : saved.length = mappedLen mapped addr n.toNat := length_peek _ _ _
  have hle := mappedLen_le mapped addr n.toNat
  have hcalls : ∀ t ∈ calls, t.Fits := by
    intro t ht
    rcases List.mem_append.mp ht with ht | ht
    · rcases List.mem_cons.mp ht with rfl | ht
      · exact trivial
      · exact hts t ht
    · obtain rfl := List.mem_singleton.mp ht
      show (hexBytes saved).length < 2 ^ 64
      rw [length_hexBytes]
      omega
  obtain ⟨hvals, hend⟩ := Sim.sequentially (fun t ht => memoryTool_sim hT (hcalls t ht)) q m ⟨hq, rfl⟩
  -- the last call stores all of it
  have hstored : pokeLen mapped addr saved.length = saved.length := by
    apply pokeLen_of_mapped
    rw [hsaved, mappedLen_mappedLen]
  have hlast : (MemoryTool.write addr (hexBytes saved)).spec mapped =
      fun m' => ((.ok, none), stored m' addr saved) := by
    rw [MemoryTool.spec, hexDecode_hexBytes]
    simp only [poked, hstored, if_true, Option.elim_none, List.take_length]
  have hrun := run_sequentially_concat (MemoryTool.spec mapped) (.read addr n :: ts)
    (.write addr (hexBytes saved)) m
  rw [hlast] at hrun
  have hmem : mem out.2.client.peer =
      stored ((sequentially (MemoryTool.spec mapped) ts).run m).2 addr saved := by
    have hfinal := hend.memory
    rw [hrun] at hfinal
    exact hfinal
  refine ⟨hvals, ?_, ?_, ?_⟩
  · rw [hvals, hrun, List.getLast?_concat]
    rfl
  · intro i hi
    rw [hmem]
    exact stored_hit _ _ (by omega) (getElem?_peek (hsaved ▸ hi))
  · intro a ha
    rw [hmem]
    exact stored_miss _ _ ha

end Runs

/-! ## A target -/

/-- The answer of a target with this memory to a memory request. -/
def pagedReply (mapped : UInt64 → Bool) (m : UInt64 → UInt8) (p : Bytes) :
    (UInt64 → UInt8) × Bytes :=
  let a := UInt64.ofNat (leNat (((respBody p).drop 4).take 8))
  if respCode p = cmdMemrd then
    let k := mappedLen mapped a (leNat (((respBody p).drop 12).take 2))
    (m, if k = 0 then message respErr 0 0 [] else message 0x23 0 0 (peek m a k))
  else
    let data := (respBody p).drop 12
    if mappedLen mapped a data.length = data.length then (stored m a data, message 0x21 0 0 [])
    else (m, message respErr 0 0 [])

/-- A target that is nothing but a memory. -/
def pagedTarget (mapped : UInt64 → Bool) : Peer (UInt64 → UInt8) where
  recv m b :=
    match (stuffing.next b).map fun r => decode r.1 with
    | some (.ok p) => some ((pagedReply mapped m p).1, frame (pagedReply mapped m p).2)
    | _ => none
  fin _ := .timeout

theorem pagedTarget_recv (mapped : UInt64 → Bool) (m : UInt64 → UInt8) (p : Bytes) :
    (pagedTarget mapped).recv m (frame p) =
      some ((pagedReply mapped m p).1, frame (pagedReply mapped m p).2) := by
  have hread : (stuffing.next (frame p)).map (fun r => decode r.1) = some (.ok p) := by
    have hnext := next_frame p []
    rw [List.append_nil] at hnext
    rw [hnext]
    exact congrArg some (decode_escape _)
  simp only [pagedTarget, hread]

theorem memoryTarget_pagedTarget (mapped : UInt64 → Bool) :
    MemoryTarget (pagedTarget mapped) (fun _ => True) mapped id where
  read := by
    intro m mid a size _ _ hsize
    have hkib : maxChunk = 1024 := rfl
    obtain ⟨haddr, hwant, -⟩ := memrdBody_fields a (show size < 2 ^ 16 by omega)
    have hreply : pagedReply mapped m (message cmdMemrd 0 mid (memrdBody a size)) =
        (m, if mappedLen mapped a size = 0 then message respErr 0 0 []
          else message 0x23 0 0 (peek m a (mappedLen mapped a size))) := by
      have hbody : respBody (message cmdMemrd 0 mid (memrdBody a size)) = memrdBody a size := rfl
      have hcode : respCode (message cmdMemrd 0 mid (memrdBody a size)) = cmdMemrd := rfl
      rw [pagedReply, if_pos hcode, hbody, haddr, hwant, UInt64.ofNat_toNat]
    refine ⟨m, [(pagedReply mapped m (message cmdMemrd 0 mid (memrdBody a size))).2],
      (pagedReply mapped m (message cmdMemrd 0 mid (memrdBody a size))).2, ?_, ?_, trivial, rfl, ?_⟩
    · rw [pagedTarget_recv, List.flatMap_singleton, hreply]
    · rw [hreply]
      split
      · exact debugFrames_message _ _ _ _
      · exact debugFrames_message _ _ _ _
    · rw [hreply]
      split
      · rfl
      · exact ⟨show 0x23 ≠ respErr by decide, rfl⟩
  write := by
    intro m mid a chunk _ _
    obtain ⟨haddr, hdata, -⟩ := memwrBody_fields a chunk
    have hreply : pagedReply mapped m (message cmdMemwr 0 mid (memwrBody a chunk)) =
        if mappedLen mapped a chunk.length = chunk.length then
          (stored m a chunk, message 0x21 0 0 [])
        else (m, message respErr 0 0 []) := by
      have hbody : respBody (message cmdMemwr 0 mid (memwrBody a chunk)) = memwrBody a chunk := rfl
      have hcode : respCode (message cmdMemwr 0 mid (memwrBody a chunk)) ≠ cmdMemrd := by
        show cmdMemwr ≠ cmdMemrd
        decide
      rw [pagedReply, if_neg hcode, hbody, haddr, hdata, UInt64.ofNat_toNat]
    refine ⟨(pagedReply mapped m (message cmdMemwr 0 mid (memwrBody a chunk))).1,
      [(pagedReply mapped m (message cmdMemwr 0 mid (memwrBody a chunk))).2],
      (pagedReply mapped m (message cmdMemwr 0 mid (memwrBody a chunk))).2, ?_, ?_, trivial, ?_⟩
    · rw [pagedTarget_recv, List.flatMap_singleton]
    · rw [hreply]
      split
      · exact debugFrames_message _ _ _ _
      · exact debugFrames_message _ _ _ _
    · rw [hreply]
      split
      · exact ⟨show 0x21 ≠ respErr by decide, rfl⟩
      · exact ⟨rfl, rfl⟩

/-- A session on a target whose first page is mapped and full of sevens. -/
def sevens : QnxSession (UInt64 → UInt8) := ⟨⟨[], .timeout, fun _ => 7, 1, [], []⟩, 1, none⟩

/-- Two bytes are asked for from the end of the page. One comes back, is overwritten and
restored. -/
theorem memory_restored_edge :
    let out := (sequentially (fun t => t.tool.exec (pagedTarget (· < 0x1000)))
      (MemoryTool.read 0xfff 2 :: [.write 0xfff (ascii "00")] ++ [.write 0xfff (ascii "07")])).run
        sevens
    out.1 = [(.block [7], none), (.ok, none), (.ok, none)] ∧ out.2.client.peer 0xfff = 7 := by
  have hsaved : hexBytes (peeked (· < 0x1000) (id sevens.client.peer) 0xfff 2).1 = ascii "07" := rfl
  have hspec : ((sequentially (MemoryTool.spec (· < 0x1000))
      (MemoryTool.read 0xfff 2 :: [.write 0xfff (ascii "00")] ++ [.write 0xfff (ascii "07")])).run
        (id sevens.client.peer)).1 = [(.block [7], none), (.ok, none), (.ok, none)] := rfl
  have hfits : ∀ t ∈ [MemoryTool.write 0xfff (ascii "00")], t.Fits := by
    intro t ht
    obtain rfl := List.mem_singleton.mp ht
    show 2 < 2 ^ 64
    decide
  have hrestored := memory_restored (memoryTarget_pagedTarget (· < 0x1000)) 0xfff
    (show (2 : Int) < 2 ^ 63 by decide) hfits (q := sevens) ⟨⟨[], rfl, rfl⟩, trivial⟩
  dsimp only at hrestored ⊢
  rw [hsaved, hspec] at hrestored
  generalize (sequentially _ _).run sevens = out at hrestored ⊢
  obtain ⟨hvals, -, hback, -⟩ := hrestored
  exact ⟨hvals, hback 0 (by decide)⟩

end QconnMcp.Tools
