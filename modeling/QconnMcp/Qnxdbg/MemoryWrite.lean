import Mathlib.Data.UInt
import QconnMcp.Qnxdbg.Exchange

/-!
# Writing target memory

`WriteMemory` sends the data in chunks of at most 1 KiB and counts a chunk once the
target has taken it. Against a target that stores a chunk entirely or refuses it,
the count is what has changed in its memory, byte for byte and with 64-bit
wrap-around, and no byte goes out twice (`writeMemory_exact`).
-/

namespace QconnMcp.Qnxdbg

open Kit

/-! ## Memory with data stored in it -/

/-- The memory with `data` from `addr` on. -/
def stored (mem : UInt64 → UInt8) (addr : UInt64) (data : Bytes) : UInt64 → UInt8 := fun a =>
  (data[(a - addr).toNat]?).getD (mem a)

theorem stored_hit (mem : UInt64 → UInt8) (addr : UInt64) {data : Bytes} (hlen : data.length < 2 ^ 64)
    {i : Nat} {b : UInt8} (hi : data[i]? = some b) :
    stored mem addr data (addr + UInt64.ofNat i) = b := by
  have hlt : i < data.length := (List.getElem?_eq_some_iff.mp hi).1
  have hoff : (addr + UInt64.ofNat i - addr).toNat = i := by
    rw [UInt64.add_comm, UInt64.add_sub_cancel, UInt64.toNat_ofNat_of_lt' (Nat.lt_trans hlt hlen)]
  rw [stored, hoff, hi]
  rfl

theorem stored_miss (mem : UInt64 → UInt8) (addr : UInt64) {data : Bytes} {a : UInt64}
    (ha : ∀ i < data.length, a ≠ addr + UInt64.ofNat i) : stored mem addr data a = mem a := by
  rw [stored]
  rcases Nat.lt_or_ge (a - addr).toNat data.length with hlt | hge
  · refine absurd ?_ (ha _ hlt)
    rw [UInt64.ofNat_toNat, UInt64.add_comm, UInt64.sub_add_cancel]
  · rw [List.getElem?_eq_none hge]
    rfl

/-- Storing what follows behind what came first stores both; the offset behind the
first part wraps around for the addresses before it. -/
theorem stored_append (mem : UInt64 → UInt8) (addr : UInt64) {d d' : Bytes}
    (hlen : (d ++ d').length < 2 ^ 64) :
    stored (stored mem addr d) (addr + UInt64.ofNat d.length) d' = stored mem addr (d ++ d') := by
  funext a
  rw [List.length_append] at hlen
  have hk := (a - addr).toNat_lt
  have hoff : (a - (addr + UInt64.ofNat d.length)).toNat =
      (2 ^ 64 - d.length + (a - addr).toNat) % 2 ^ 64 := by
    have hsplit : a - (addr + UInt64.ofNat d.length) = a - addr - UInt64.ofNat d.length := by
      rw [UInt64.sub_eq_add_neg, UInt64.neg_add, UInt64.sub_eq_add_neg (-addr), ← UInt64.add_assoc,
        ← UInt64.sub_eq_add_neg, ← UInt64.sub_eq_add_neg]
    have hd : d.length < UInt64.size := Nat.lt_of_le_of_lt (Nat.le_add_right _ _) hlen
    rw [hsplit, UInt64.toNat_sub, UInt64.toNat_ofNat_of_lt' hd]
  simp only [stored]
  rcases Nat.lt_or_ge (a - addr).toNat d.length with hlt | hge
  · have hnone : d'[(a - (addr + UInt64.ofNat d.length)).toNat]? = none := by
      apply List.getElem?_eq_none
      rw [hoff, Nat.mod_eq_of_lt (by omega)]
      omega
    rw [hnone, List.getElem?_append_left hlt]
    rfl
  · have hsub : (a - (addr + UInt64.ofNat d.length)).toNat = (a - addr).toNat - d.length := by
      rw [hoff]
      omega
    rw [hsub, List.getElem?_append_right hge, List.getElem?_eq_none hge]
    rfl

/-! ## Targets and requests -/

/-- The request that writes a chunk. -/
def memwr (mid : UInt8) (a : UInt64) (chunk : Bytes) : Bytes :=
  frame (message cmdMemwr 0 mid (memwrBody a chunk))

/-- From every state with `I` the target stores a chunk and says so, or refuses
it: with an error reply, or because the request does not reach it or ends the
connection. -/
def StoresOrRefuses {σ : Type} (P : Peer σ) (I : σ → Prop) (mem : σ → UInt64 → UInt8) : Prop :=
  ∀ s mid a chunk, I s → chunk.length ≤ maxChunk →
    P.recv s (memwr mid a chunk) = none ∨
      ∃ t fs, P.recv s (memwr mid a chunk) = some (t, fs.flatMap frame) ∧
        (debugFrames fs = [] ∧ mem t = mem s ∨
          I t ∧ ∃ reply, debugFrames fs = [reply] ∧
            (respCode reply ≠ respErr ∧ mem t = stored (mem s) a chunk ∨
              respCode reply = respErr ∧ mem t = mem s))

/-- The requests for chunks that follow each other in memory. -/
def memwrs : UInt8 → UInt64 → List Bytes → Bytes
  | _, _, [] => []
  | mid, a, chunk :: chunks =>
      memwr mid a chunk ++ memwrs (mid + 1) (a + UInt64.ofNat chunk.length) chunks

namespace Client

variable {σ : Type} {P : Peer σ} {I : σ → Prop} {mem : σ → UInt64 → UInt8}

/-- What a write request comes to: nothing is stored and the loop will stop, or the
chunk is. -/
theorem transact_memwr (hP : StoresOrRefuses P I mem) (a : UInt64) {chunk : Bytes}
    (hchunk : chunk.length ≤ maxChunk) {c : Client (σ × Bytes)} (hc : Idle (fun s => I s.1) c) :
    (∃ r c', (transact P.taped cmdMemwr (memwrBody a chunk)).run c = (r, c') ∧
        (∀ p, r = .ok p → respCode p = respErr) ∧ mem c'.peer.1 = mem c.peer.1 ∧
        (c'.peer.2 = c.peer.2 ∨ c'.peer.2 = c.peer.2 ++ memwr (c.mid + 1) a chunk)) ∨
      ∃ reply c', (transact P.taped cmdMemwr (memwrBody a chunk)).run c = (.ok reply, c') ∧
        respCode reply ≠ respErr ∧ Idle (fun s => I s.1) c' ∧ c'.mid = c.mid + 1 ∧
        mem c'.peer.1 = stored (mem c.peer.1) a chunk ∧
        c'.peer.2 = c.peer.2 ++ memwr (c.mid + 1) a chunk := by
  obtain ⟨us, hus, hinp⟩ := hc.unread
  have htape : ∀ {t out}, P.recv c.peer.1 (memwr (c.mid + 1) a chunk) = some (t, out) →
      P.taped.recv c.peer (frame (message cmdMemwr 0 (c.mid + 1) (memwrBody a chunk))) =
        some ((t, c.peer.2 ++ memwr (c.mid + 1) a chunk), out) := by
    intro t out h
    rw [memwr] at h
    simp only [Peer.taped, h, Option.map_some]
    rfl
  rcases hP c.peer.1 (c.mid + 1) a chunk hc.idle hchunk with
    hnone | ⟨t, fs, hrecv, ⟨hfs, hmem⟩ | ⟨hI, reply, hfs, ⟨hcode, hmem⟩ | ⟨hcode, hmem⟩⟩⟩
  · have htaped : P.taped.recv c.peer
        (frame (message cmdMemwr 0 (c.mid + 1) (memwrBody a chunk))) = none := by
      rw [memwr] at hnone
      simp only [Peer.taped, hnone, Option.map_none]
    refine .inl ⟨_, _, transactSub_refused htaped, ?_, rfl, .inl rfl⟩
    rintro p ⟨⟩
  · obtain ⟨out, hrun⟩ := transactSub_unanswered hinp hus (htape hrecv) hfs
    refine .inl ⟨_, _, hrun, ?_, hmem, .inr rfl⟩
    rintro p ⟨⟩
  · obtain ⟨gs, out, hrun, hgs⟩ := transactSub_answered hinp hus (htape hrecv) hfs
    exact .inr ⟨reply, _, hrun, hcode, ⟨⟨gs, hgs, rfl⟩, hI⟩, rfl, hmem, rfl⟩
  · obtain ⟨gs, out, hrun, hgs⟩ := transactSub_answered hinp hus (htape hrecv) hfs
    refine .inl ⟨_, _, hrun, ?_, hmem, .inr rfl⟩
    rintro p ⟨⟩
    exact hcode

/-! ## The rounds of the loop -/

section Rounds

variable {addr : UInt64} {data : Bytes} {total : Nat} {c c' : Client σ}

/-- The chunk of the round. -/
def nextChunk (data : Bytes) (total : Nat) : Bytes := (data.drop total).take maxChunk

theorem nextChunk_length (data : Bytes) (total : Nat) :
    (nextChunk data total).length = min maxChunk (data.length - total) := by
  rw [nextChunk, List.length_take, List.length_drop]

theorem writeMemoryLoop_done (h : data.length ≤ total) (fuel : Nat) :
    (writeMemoryLoop P addr data fuel total).run c = ((total, none), c) := by
  cases fuel with
  | zero => rfl
  | succ fuel =>
      rw [writeMemoryLoop, if_neg (by omega)]
      rfl

variable (h : total < data.length)

include h

theorem writeMemoryLoop_stopped {r : Except Err Bytes} (hr : ∀ p, r = .ok p → respCode p = respErr)
    (hreq : (transact P cmdMemwr (memwrBody (addr + UInt64.ofNat total) (nextChunk data total))).run c =
      (r, c')) (fuel : Nat) :
    ∃ e, (writeMemoryLoop P addr data (fuel + 1) total).run c = ((total, some e), c') := by
  rw [writeMemoryLoop, if_pos h]
  show ∃ e, (transact P cmdMemwr (memwrBody _ (nextChunk data total)) >>= _).run c = _
  rw [run_bind, hreq]
  cases r with
  | error e => exact ⟨e, rfl⟩
  | ok p =>
      simp only [if_pos (hr p rfl)]
      exact ⟨_, rfl⟩

theorem writeMemoryLoop_next {reply : Bytes} (hcode : respCode reply ≠ respErr)
    (hreq : (transact P cmdMemwr (memwrBody (addr + UInt64.ofNat total) (nextChunk data total))).run c =
      (.ok reply, c')) (fuel : Nat) :
    (writeMemoryLoop P addr data (fuel + 1) total).run c =
      (writeMemoryLoop P addr data fuel (total + (nextChunk data total).length)).run c' := by
  have htotal : min (total + maxChunk) data.length = total + (nextChunk data total).length := by
    rw [nextChunk_length]
    omega
  rw [writeMemoryLoop, if_pos h]
  show (transact P cmdMemwr (memwrBody _ (nextChunk data total)) >>= _).run c = _
  rw [run_bind, hreq]
  simp only [if_neg hcode, htotal]

end Rounds

/-! ## The whole write -/

/-- What writing `data` at `addr` has come to when `n` bytes have been taken. -/
structure Wrote (mem : σ → UInt64 → UInt8) (addr : UInt64) (data : Bytes)
    (c c' : Client (σ × Bytes)) (n : Nat) (err : Option Err) : Prop where
  le : n ≤ data.length
  complete : err = none ↔ n = data.length
  memory : mem c'.peer.1 = stored (mem c.peer.1) addr (data.take n)
  sent : ∃ chunks : List Bytes, c'.peer.2 = c.peer.2 ++ memwrs (c.mid + 1) addr chunks ∧
    chunks.flatten <+: data ∧ n ≤ chunks.flatten.length

namespace Wrote

variable {addr : UInt64} {data : Bytes} {c c₁ c' : Client (σ × Bytes)}

/-- The loop stops at a chunk that is not stored. -/
theorem of_stopped {chunk : Bytes} (hdata : data ≠ []) (hchunk : chunk <+: data)
    (hmem : mem c'.peer.1 = mem c.peer.1)
    (htape : c'.peer.2 = c.peer.2 ∨ c'.peer.2 = c.peer.2 ++ memwr (c.mid + 1) addr chunk) (e : Err) :
    Wrote mem addr data c c' 0 (some e) := by
  refine ⟨Nat.zero_le _, ?_, hmem, ?_⟩
  · have hpos := List.length_pos_iff.mpr hdata
    simp only [reduceCtorEq, false_iff]
    omega
  · rcases htape with htape | htape
    · exact ⟨[], by simpa [memwrs] using htape, List.nil_prefix, Nat.zero_le _⟩
    · exact ⟨[chunk], by simpa [memwrs] using htape, by simpa using hchunk, Nat.zero_le _⟩

/-- A chunk that is stored, before the others. -/
theorem cons {chunk rest : Bytes} (hlen : (chunk ++ rest).length < 2 ^ 64) {n : Nat}
    {err : Option Err} (hmid : c₁.mid = c.mid + 1)
    (hmem : mem c₁.peer.1 = stored (mem c.peer.1) addr chunk)
    (htape : c₁.peer.2 = c.peer.2 ++ memwr (c.mid + 1) addr chunk)
    (h : Wrote mem (addr + UInt64.ofNat chunk.length) rest c₁ c' n err) :
    Wrote mem addr (chunk ++ rest) c c' (chunk.length + n) err := by
  obtain ⟨hle, hcomplete, hmemory, chunks, hsent, hprefix, hn⟩ := h
  have htake : (chunk ++ rest).take (chunk.length + n) = chunk ++ rest.take n :=
    List.take_length_add_append n
  refine ⟨?_, ?_, ?_, chunk :: chunks, ?_, ?_, ?_⟩
  · rw [List.length_append]
    omega
  · rw [hcomplete, List.length_append]
    omega
  · rw [hmemory, hmem, htake]
    apply stored_append
    rw [List.length_append, List.length_take]
    rw [List.length_append] at hlen
    omega
  · rw [hsent, htape, hmid, memwrs, List.append_assoc]
  · rw [List.flatten_cons]
    exact (List.prefix_append_right_inj chunk).mpr hprefix
  · rw [List.flatten_cons, List.length_append]
    omega

end Wrote

theorem writeMemoryLoop_wrote (hP : StoresOrRefuses P I mem) (addr : UInt64) {data : Bytes}
    (hlen : data.length < 2 ^ 64) {fuel total : Nat} {c : Client (σ × Bytes)}
    (hfuel : data.length ≤ total + fuel) (hc : Idle (fun s => I s.1) c) :
    ∃ n err c', (writeMemoryLoop P.taped addr data fuel total).run c = ((total + n, err), c') ∧
      Wrote mem (addr + UInt64.ofNat total) (data.drop total) c c' n err := by
  -- each round starts right behind the bytes that have been taken
  induction fuel generalizing total c with
  | zero =>
      refine ⟨0, none, c, rfl, ?_⟩
      rw [List.drop_eq_nil_of_le (by omega)]
      exact ⟨le_rfl, by simp, rfl, [], by simp [memwrs], List.prefix_rfl, le_rfl⟩
  | succ fuel ih =>
      rcases Nat.lt_or_ge total data.length with hlt | hge
      · have hchunk : (nextChunk data total).length ≤ maxChunk := by
          rw [nextChunk_length]
          omega
        rcases transact_memwr hP (addr + UInt64.ofNat total) hchunk hc with
          ⟨r, c', hreq, hr, hmem, htape⟩ | ⟨reply, c₁, hreq, hcode, hc₁, hmid, hmem, htape⟩
        · obtain ⟨e, hrun⟩ := writeMemoryLoop_stopped hlt hr hreq fuel
          refine ⟨0, some e, c', hrun, .of_stopped ?_ (List.take_prefix _ _) hmem htape e⟩
          exact fun hnil => absurd (List.drop_eq_nil_iff.mp hnil) (by omega)
        · have hpos : 0 < (nextChunk data total).length := by
            rw [nextChunk_length, maxChunk]
            omega
          obtain ⟨n, err, c', hrun, hwrote⟩ :=
            @ih (total + (nextChunk data total).length) c₁ (by omega) hc₁
          refine ⟨(nextChunk data total).length + n, err, c', ?_, ?_⟩
          · rw [writeMemoryLoop_next hlt hcode hreq, hrun, Nat.add_assoc]
          · have hsplit : data.drop total = nextChunk data total ++
                data.drop (total + (nextChunk data total).length) := by
              rw [← List.drop_drop]
              exact (List.prefix_iff_eq_append.mp (List.take_prefix _ _)).symm
            rw [UInt64.ofNat_add, ← UInt64.add_assoc] at hwrote
            rw [hsplit]
            refine Wrote.cons ?_ hmid hmem htape hwrote
            rw [← hsplit, List.length_drop]
            omega
      · refine ⟨0, none, c, writeMemoryLoop_done hge _, ?_⟩
        rw [List.drop_eq_nil_of_le hge]
        exact ⟨le_rfl, by simp, rfl, [], by simp [memwrs], List.prefix_rfl, le_rfl⟩

/-- **The count is what was written.** Against a target that stores a chunk
entirely or refuses it, `WriteMemory` returns a count and an error such that the
memory of the target differs from what it was exactly by the first `total` bytes of
the data, the byte number `i` at `addr + i` modulo `2 ^ 64`; the error is nil exactly
when all bytes are written; and the requests it has sent are for chunks that follow
each other in memory and are, one after the other, a beginning of the data. -/
theorem writeMemory_exact (hP : StoresOrRefuses P I mem) (addr : UInt64) (data : Bytes)
    (hlen : data.length < 2 ^ 64) {c : Client (σ × Bytes)} (hc : Idle (fun s => I s.1) c) :
    ∃ total err c', (writeMemory P.taped addr data).run c = ((total, err), c') ∧
      total ≤ data.length ∧
      (∀ i b, i < total → data[i]? = some b → mem c'.peer.1 (addr + UInt64.ofNat i) = b) ∧
      (∀ a, (∀ i < total, a ≠ addr + UInt64.ofNat i) → mem c'.peer.1 a = mem c.peer.1 a) ∧
      (err = none ↔ total = data.length) ∧
      ∃ chunks, c'.peer.2 = c.peer.2 ++ memwrs (c.mid + 1) addr chunks ∧
        chunks.flatten <+: data ∧ total ≤ chunks.flatten.length := by
  have hfuel : data.length ≤ 0 + data.length := by omega
  obtain ⟨n, err, c', hrun, hle, hcomplete, hmem, hsent⟩ :=
    writeMemoryLoop_wrote hP addr hlen hfuel hc
  rw [Nat.zero_add] at hrun
  rw [List.drop_zero] at hle hcomplete hmem hsent
  rw [show addr + UInt64.ofNat 0 = addr from UInt64.add_zero addr] at hmem hsent
  have htake : (data.take n).length = n := by
    rw [List.length_take]
    omega
  refine ⟨n, err, c', hrun, hle, ?_, ?_, hcomplete, hsent⟩
  · intro i b hi hb
    rw [hmem]
    refine stored_hit _ _ (by omega) ?_
    rw [List.getElem?_take_of_lt hi]
    exact hb
  · intro a ha
    rw [hmem]
    apply stored_miss
    rw [htake]
    exact ha

/-- A target with a memory that refuses to write at odd addresses. -/
def evenTarget : Peer (UInt64 → UInt8) where
  recv m b :=
    match (stuffing.next b).map fun r => decode r.1 with
    | some (.ok p) =>
        let a := UInt64.ofNat (leNat (((respBody p).drop 4).take 8))
        if a % 2 = 0 then
          some (stored m a ((respBody p).drop 12), frame (message 0x21 0 0 []))
        else some (m, frame (message respErr 0 0 []))
    | _ => none
  fin _ := .timeout

theorem evenTarget_recv (m : UInt64 → UInt8) (mid : UInt8) (a : UInt64) (chunk : Bytes) :
    evenTarget.recv m (memwr mid a chunk) =
      if a % 2 = 0 then some (stored m a chunk, frame (message 0x21 0 0 []))
      else some (m, frame (message respErr 0 0 [])) := by
  have hread : (stuffing.next (memwr mid a chunk)).map (fun r => decode r.1) =
      some (.ok (message cmdMemwr 0 mid (memwrBody a chunk))) := by
    have hnext := next_frame (message cmdMemwr 0 mid (memwrBody a chunk)) []
    rw [List.append_nil] at hnext
    rw [memwr, hnext]
    exact congrArg some (decode_escape _)
  have hbody : respBody (message cmdMemwr 0 mid (memwrBody a chunk)) = memwrBody a chunk := rfl
  obtain ⟨haddr, hdata, -⟩ := memwrBody_fields a chunk
  simp only [evenTarget, hread, hbody, haddr, hdata, UInt64.ofNat_toNat]

theorem storesOrRefuses_evenTarget : StoresOrRefuses evenTarget (fun _ => True) id := by
  intro m mid a chunk _ _
  rw [evenTarget_recv]
  by_cases ha : a % 2 = 0
  · rw [if_pos ha]
    refine .inr ⟨_, [message 0x21 0 0 []], by rw [List.flatMap_singleton], ?_⟩
    exact .inr ⟨trivial, _, debugFrames_message _ _ _ _, .inl ⟨by decide, rfl⟩⟩
  · rw [if_neg ha]
    refine .inr ⟨_, [message respErr 0 0 []], by rw [List.flatMap_singleton], ?_⟩
    exact .inr ⟨trivial, _, debugFrames_message _ _ _ _, .inr ⟨rfl, rfl⟩⟩

theorem transact_evenTarget {a : UInt64} (ha : a % 2 = 0) (chunk : Bytes)
    {c : Client ((UInt64 → UInt8) × Bytes)} (hc : Idle (fun _ => True) c) :
    ∃ c', (transact evenTarget.taped cmdMemwr (memwrBody a chunk)).run c =
      (.ok (message 0x21 0 0 []), c') ∧ Idle (fun _ => True) c' := by
  obtain ⟨us, hus, hinp⟩ := hc.unread
  have hrecv : evenTarget.taped.recv c.peer
      (frame (message cmdMemwr 0 (c.mid + 1) (memwrBody a chunk))) =
        some ((stored c.peer.1 a chunk, c.peer.2 ++ memwr (c.mid + 1) a chunk),
          [message 0x21 0 0 []].flatMap frame) := by
    have heven := evenTarget_recv c.peer.1 (c.mid + 1) a chunk
    rw [if_pos ha, memwr] at heven
    simp only [Peer.taped, heven, Option.map_some, List.flatMap_singleton, memwr]
  obtain ⟨gs, out, hrun, hgs⟩ :=
    transactSub_answered hinp hus hrecv (debugFrames_message 0x21 0 0 [])
  exact ⟨_, hrun, ⟨gs, hgs, rfl⟩, trivial⟩

/-- A write of two chunks across the end of the address space: all of it is
stored. -/
theorem writeMemory_exact_wrapping :
    let c : Client ((UInt64 → UInt8) × Bytes) := ⟨[], .timeout, (fun _ => 0, []), 1, [], []⟩
    let data : Bytes := List.replicate 1500 7
    StoresOrRefuses evenTarget (fun _ => True) id ∧ Idle (fun _ => True) c ∧
      ∃ c', (writeMemory evenTarget.taped (0xFFFFFFFFFFFFFFFE) data).run c = ((1500, none), c') ∧
        (∀ i < 1500, c'.peer.1 (0xFFFFFFFFFFFFFFFE + UInt64.ofNat i) = 7) ∧ c'.peer.1 1498 = 0 := by
  intro c data
  have hc : Idle (fun _ => True) c := ⟨⟨[], rfl, rfl⟩, trivial⟩
  have hlen : data.length = 1500 := List.length_replicate
  have hseven : ∀ i < 1500, data[i]? = some 7 := fun _ => List.getElem?_replicate_of_lt
  clear_value data
  -- both chunks start at an even address
  obtain ⟨c₁, hfirst, hc₁⟩ :=
    transact_evenTarget (a := 0xFFFFFFFFFFFFFFFE + UInt64.ofNat 0) (by decide) (nextChunk data 0) hc
  obtain ⟨c₂, hsecond, -⟩ :=
    transact_evenTarget (a := 0xFFFFFFFFFFFFFFFE + UInt64.ofNat 1024) (by decide) (nextChunk data 1024) hc₁
  have htwo : (writeMemory evenTarget.taped (0xFFFFFFFFFFFFFFFE) data).run c = ((1500, none), c₂) := by
    have hround := writeMemoryLoop_next (hlen ▸ by decide) (by decide) hfirst 1499
    have hround' := writeMemoryLoop_next (hlen ▸ by decide) (by decide) hsecond 1498
    rw [nextChunk_length, hlen] at hround hround'
    rw [writeMemory, hlen]
    exact hround.trans (hround'.trans (writeMemoryLoop_done hlen.le _))
  obtain ⟨total, err, c', hrun, -, hmem, hkept, -, -⟩ :=
    writeMemory_exact storesOrRefuses_evenTarget (0xFFFFFFFFFFFFFFFE) data (by rw [hlen]; decide) hc
  rw [htwo] at hrun
  obtain ⟨⟨rfl, rfl⟩, rfl⟩ := Prod.mk.inj hrun |>.imp_left Prod.mk.inj
  refine ⟨storesOrRefuses_evenTarget, hc, c₂, htwo, ?_, ?_⟩
  · intro i hi
    exact hmem i 7 hi (hseven i hi)
  · refine hkept 1498 ?_
    intro i hi heq
    have hsize : i < UInt64.size := Nat.lt_trans hi (by decide)
    have hwrap := congrArg UInt64.toNat heq
    rw [UInt64.toNat_add, UInt64.toNat_ofNat_of_lt' hsize] at hwrap
    change 1498 = (18446744073709551614 + i) % 18446744073709551616 at hwrap
    omega

end Client

end QconnMcp.Qnxdbg
