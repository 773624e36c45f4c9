import Mathlib.Data.UInt
import QconnMcp.Qnxdbg.Exchange

/-!
# Reading target memory

`ReadMemory` asks for chunks of at most 1 KiB, each right behind the bytes it has
so far. A target may refuse a chunk, answer it short, empty or longer than asked,
or let the connection fail. Whatever it does at which chunk, the bytes returned
are a contiguous image of its memory from the address on, with 64-bit
wrap-around (`readMemory_image`).
-/

namespace QconnMcp.Qnxdbg

open Kit

/-! ## Memory and its images -/

/-- The bytes are those of the memory from `addr` on. -/
def IsImage (mem : UInt64 → UInt8) (addr : UInt64) (out : Bytes) : Prop :=
  ∀ i b, out[i]? = some b → b = mem (addr + UInt64.ofNat i)

theorem isImage_nil (mem : UInt64 → UInt8) (addr : UInt64) : IsImage mem addr [] := by
  intro i b h
  simp at h

/-- Images that follow each other join; the second starts where the first ends,
modulo `2 ^ 64`. -/
theorem IsImage.append {mem : UInt64 → UInt8} {addr : UInt64} {out data : Bytes}
    (h : IsImage mem addr out) (hdata : IsImage mem (addr + UInt64.ofNat out.length) data) :
    IsImage mem addr (out ++ data) := by
  intro i b hi
  by_cases hlt : i < out.length
  · rw [List.getElem?_append_left hlt] at hi
    exact h i b hi
  · rw [List.getElem?_append_right (by omega)] at hi
    have haddr : addr + UInt64.ofNat out.length + UInt64.ofNat (i - out.length) =
        addr + UInt64.ofNat i := by
      rw [UInt64.add_assoc, ← UInt64.ofNat_add, Nat.add_sub_cancel' (by omega)]
    rw [← haddr]
    exact hdata _ b hi

theorem IsImage.take {mem : UInt64 → UInt8} {addr : UInt64} {size : Nat} {data : Bytes}
    (h : ∀ i b, i < size → data[i]? = some b → b = mem (addr + UInt64.ofNat i)) :
    IsImage mem addr (data.take size) := by
  intro i b hi
  rw [List.getElem?_take] at hi
  split at hi
  · exact h i b ‹_› hi
  · simp at hi

/-! ## Targets that serve memory -/

/-- An answer to `Memrd(a, size)`: an error, or a data reply that agrees with the
memory as far as both the reply and the request go. -/
def MemoryReply (mem : UInt64 → UInt8) (a : UInt64) (size : Nat) (reply : Bytes) : Prop :=
  respCode reply ≠ respErr →
    ∀ i b, i < size → (respBody reply)[i]? = some b → b = mem (a + UInt64.ofNat i)

/-- From every state with `I` the target answers a memory request, or the
connection fails: the request is not taken, or no reply comes back. -/
def ServesMemory {σ : Type} (P : Peer σ) (I : σ → Prop) (mem : UInt64 → UInt8) : Prop :=
  ∀ s mid a size, I s → size < 2 ^ 16 →
    P.recv s (frame (message cmdMemrd 0 mid (memrdBody a size))) = none ∨
      ∃ t fs, P.recv s (frame (message cmdMemrd 0 mid (memrdBody a size))) =
          some (t, fs.flatMap frame) ∧
        (debugFrames fs = [] ∨
          I t ∧ ∃ reply, debugFrames fs = [reply] ∧ MemoryReply mem a size reply)

section Requests

variable {σ : Type} (P : Peer σ) (I : σ → Prop) (a : UInt64) (size : Nat)

/-- In a state with `I` the target answers a request for `size` bytes at `a` with
this reply. -/
def ServesWith (reply : Bytes) : Prop :=
  ∃ s mid t fs, I s ∧ P.recv s (frame (message cmdMemrd 0 mid (memrdBody a size))) =
    some (t, fs.flatMap frame) ∧ debugFrames fs = [reply]

/-- In a state with `I` a request for `size` bytes at `a` is lost, because it is not
taken or because no reply comes back; `t` is the target afterwards. -/
def Lost (t : σ) : Prop :=
  ∃ s mid, I s ∧ (P.recv s (frame (message cmdMemrd 0 mid (memrdBody a size))) = none ∧ t = s ∨
    ∃ fs, P.recv s (frame (message cmdMemrd 0 mid (memrdBody a size))) =
      some (t, fs.flatMap frame) ∧ debugFrames fs = [])

end Requests

/-- An error of the connection, not of the target. -/
def Err.Transport : Err → Prop
  | .read _ => True
  | .write _ => True
  | _ => False

/-- The size that the request number `k` of a read of `n` bytes asks for. -/
def chunkSize (n : Int) (k : Nat) : Nat := min (n - k * maxChunk).toNat maxChunk

/-- The reply to request number `k` is data and covers what was asked. -/
def InFull (n : Int) (k : Nat) (reply : Bytes) : Prop :=
  respCode reply ≠ respErr ∧ chunkSize n k ≤ (respBody reply).length

namespace Client

variable {σ : Type} {P : Peer σ} {I : σ → Prop} {mem : UInt64 → UInt8}

/-- What a memory request comes to. -/
theorem transact_memrd (hP : ServesMemory P I mem) (a : UInt64) {size : Nat} (hsize : size < 2 ^ 16)
    {c : Client σ} (hc : Idle I c) :
    (∃ e c', (transact P cmdMemrd (memrdBody a size)).run c = (.error e, c') ∧ e.Transport ∧
        c'.replies = c.replies ∧ Lost P I a size c'.peer) ∨
      ∃ reply c', (transact P cmdMemrd (memrdBody a size)).run c = (.ok reply, c') ∧
        MemoryReply mem a size reply ∧ Idle I c' ∧ ServesWith P I a size reply ∧
        c'.replies = c.replies ++ [(c.mid + 1, reply)] := by
  obtain ⟨us, hus, hinp⟩ := hc.unread
  rcases hP c.peer (c.mid + 1) a size hc.idle hsize with
    hnone | ⟨t, fs, hrecv, hfs | ⟨hI, reply, hfs, hreply⟩⟩
  · exact .inl ⟨_, _, transactSub_refused hnone, trivial, rfl, _, _, hc.idle, .inl ⟨hnone, rfl⟩⟩
  · obtain ⟨out, hrun⟩ := transactSub_unanswered hinp hus hrecv hfs
    exact .inl ⟨_, _, hrun, trivial, rfl, _, _, hc.idle, .inr ⟨fs, hrecv, hfs⟩⟩
  · obtain ⟨gs, out, hrun, hgs⟩ := transactSub_answered hinp hus hrecv hfs
    exact .inr ⟨reply, _, hrun, hreply, ⟨⟨gs, hgs, rfl⟩, hI⟩,
      ⟨_, _, t, fs, hc.idle, hrecv, hfs⟩, rfl⟩

/-! ## The rounds of the loop -/

section Rounds

variable {addr : UInt64} {n : Int} {out reply : Bytes} {c c' : Client σ}

/-- What the round with `out` read asks for. -/
def wanted (n : Int) (out : Bytes) : Nat := min (n - out.length).toNat maxChunk

theorem wanted_lt (n : Int) (out : Bytes) : wanted n out < 2 ^ 16 :=
  Nat.lt_of_le_of_lt (Nat.min_le_right _ _) (by decide)

/-- The request of the round. -/
def memrd (P : Peer σ) (addr : UInt64) (n : Int) (out : Bytes) : Act σ (Except Err Bytes) :=
  transact P cmdMemrd (memrdBody (addr + UInt64.ofNat out.length) (wanted n out))

theorem readMemoryLoop_done (h : n ≤ out.length) (fuel : Nat) :
    (readMemoryLoop P addr n fuel out).run c = ((out, none), c) := by
  cases fuel with
  | zero => rfl
  | succ fuel =>
      rw [readMemoryLoop, if_neg (by omega)]
      rfl

section Request

variable (h : (out.length : Int) < n)

include h

theorem readMemoryLoop_failed {e : Err} (hreq : (memrd P addr n out).run c = (.error e, c'))
    (fuel : Nat) :
    (readMemoryLoop P addr n (fuel + 1) out).run c = ((out, some e), c') := by
  rw [readMemoryLoop, if_pos h]
  show (memrd P addr n out >>= _).run c = _
  rw [run_bind, hreq]
  rfl

variable (hreq : (memrd P addr n out).run c = (.ok reply, c'))

include hreq

theorem readMemoryLoop_refused (hcode : respCode reply = respErr) (fuel : Nat) :
    (readMemoryLoop P addr n (fuel + 1) out).run c =
      ((out, if out ≠ [] then none else some (.readMemory addr)), c') := by
  rw [readMemoryLoop, if_pos h]
  show (memrd P addr n out >>= _).run c = _
  rw [run_bind, hreq]
  simp only [if_pos hcode]
  by_cases hout : out ≠ []
  · rw [if_pos hout, if_pos hout]
    rfl
  · rw [if_neg hout, if_neg hout, not_not.mp hout]
    rfl

/-- An empty or short reply ends the read. -/
theorem readMemoryLoop_short (hcode : respCode reply ≠ respErr)
    (hshort : (respBody reply).length < wanted n out) (fuel : Nat) :
    (readMemoryLoop P addr n (fuel + 1) out).run c = ((out ++ respBody reply, none), c') := by
  rw [readMemoryLoop, if_pos h]
  show (memrd P addr n out >>= _).run c = _
  rw [run_bind, hreq]
  simp only [if_neg hcode]
  by_cases hempty : respBody reply = []
  · rw [if_pos hempty, hempty, List.append_nil]
    rfl
  · have htake : (respBody reply).take (wanted n out) = respBody reply :=
      List.take_of_length_le (by omega)
    rw [if_neg hempty]
    simp only [show min (n - out.length).toNat maxChunk = wanted n out from rfl, htake,
      if_pos hshort]
    rfl

theorem readMemoryLoop_next (hcode : respCode reply ≠ respErr)
    (hfull : wanted n out ≤ (respBody reply).length) (fuel : Nat) :
    (readMemoryLoop P addr n (fuel + 1) out).run c =
      (readMemoryLoop P addr n fuel (out ++ (respBody reply).take (wanted n out))).run c' := by
  have hpos : 0 < wanted n out := Nat.lt_min.mpr ⟨by omega, by decide⟩
  rw [readMemoryLoop, if_pos h]
  show (memrd P addr n out >>= _).run c = _
  rw [run_bind, hreq]
  have hempty : respBody reply ≠ [] := by
    intro hnil
    rw [hnil, List.length_nil] at hfull
    omega
  simp only [show min (n - out.length).toNat maxChunk = wanted n out from rfl, if_neg hcode,
    if_neg hempty, List.length_take, Nat.min_eq_left hfull, Nat.lt_irrefl, if_false]

end Request

end Rounds

/-- How often the loop may go round makes no difference beyond the bytes that are
still missing: every round but the last adds one at least. -/
theorem readMemoryLoop_fuel (P : Peer σ) (addr : UInt64) (n : Int) {fuel fuel' : Nat} {out : Bytes}
    (h : n ≤ out.length + fuel) (h' : n ≤ out.length + fuel') (c : Client σ) :
    (readMemoryLoop P addr n fuel out).run c = (readMemoryLoop P addr n fuel' out).run c := by
  induction fuel generalizing fuel' out c with
  | zero => rw [readMemoryLoop_done (by omega), readMemoryLoop_done (by omega)]
  | succ fuel ih =>
      by_cases hlt : (out.length : Int) < n
      · obtain ⟨fuel', rfl⟩ : ∃ k, fuel' = k + 1 := ⟨fuel' - 1, by omega⟩
        rcases hreq : (memrd P addr n out).run c with ⟨e | reply, c'⟩
        · rw [readMemoryLoop_failed hlt hreq, readMemoryLoop_failed hlt hreq]
        · by_cases hcode : respCode reply = respErr
          · rw [readMemoryLoop_refused hlt hreq hcode, readMemoryLoop_refused hlt hreq hcode]
          · rcases Nat.lt_or_ge (respBody reply).length (wanted n out) with hshort | hfull
            · rw [readMemoryLoop_short hlt hreq hcode hshort,
                readMemoryLoop_short hlt hreq hcode hshort]
            · have hpos : 0 < wanted n out := Nat.lt_min.mpr ⟨by omega, by decide⟩
              rw [readMemoryLoop_next hlt hreq hcode hfull, readMemoryLoop_next hlt hreq hcode hfull]
              apply ih
              · rw [List.length_append, List.length_take]
                omega
              · rw [List.length_append, List.length_take]
                omega
      · rw [readMemoryLoop_done (by omega), readMemoryLoop_done (by omega)]

/-! ## The whole read -/

/-- What a read of `n` bytes leaves, when the replies noted on the way are `rs`, the
first of them answers request number `k`, and `lost` says that a request was lost. -/
structure ReadsImage (mem : UInt64 → UInt8) (addr : UInt64) (n : Int) (k : Nat)
    (rs : List (UInt8 × Bytes)) (out : Bytes) (err : Option Err) (lost : Prop) : Prop where
  image : IsImage mem addr out
  length_le : (out.length : Int) ≤ max n 0
  complete : (∀ j r, rs[j]? = some r → InFull n (k + j) r.2) →
    err = none ∧ n ≤ out.length ∨ ∃ e, err = some e ∧ e.Transport ∧ lost
  refused : ∀ e, err = some e → e.Transport ∧ lost ∨
    k = 0 ∧ e = .readMemory addr ∧ ∃ r, rs = [r] ∧ respCode r.2 = respErr

namespace ReadsImage

variable {addr : UInt64} {n : Int} {k : Nat} {out : Bytes} {r : UInt8 × Bytes} {lost : Prop}

section Last

variable (himage : IsImage mem addr out) (hlen : (out.length : Int) ≤ max n 0)

include himage hlen

theorem of_done (h : n ≤ out.length) : ReadsImage mem addr n k [] out none lost :=
  ⟨himage, hlen, fun _ => .inl ⟨rfl, h⟩, nofun⟩

/-- The connection failed: what has been read is returned beside the error. -/
theorem of_failed {e : Err} (he : e.Transport) (hlost : lost) :
    ReadsImage mem addr n k [] out (some e) lost := by
  refine ⟨himage, hlen, fun _ => .inr ⟨e, rfl, he, hlost⟩, ?_⟩
  rintro _ ⟨⟩
  exact .inl ⟨he, hlost⟩

/-- The target refused: an error when nothing has been read before. -/
theorem of_refused (hchunk : out.length = k * maxChunk) (hcode : respCode r.2 = respErr) :
    ReadsImage mem addr n k [r] out (if out ≠ [] then none else some (.readMemory addr)) lost := by
  refine ⟨himage, hlen, ?_, ?_⟩
  · intro hfull
    exact absurd hcode (hfull 0 _ rfl).1
  · intro e he
    by_cases hout : out ≠ []
    · rw [if_pos hout] at he
      exact absurd he (by simp)
    · rw [if_neg hout, Option.some.injEq] at he
      rw [not_not.mp hout, List.length_nil] at hchunk
      refine .inr ⟨?_, he.symm, _, rfl, hcode⟩
      exact (Nat.mul_eq_zero.mp hchunk.symm).resolve_right (by decide)

theorem of_short (hshort : (respBody r.2).length < chunkSize n k) :
    ReadsImage mem addr n k [r] out none lost := by
  refine ⟨himage, hlen, ?_, nofun⟩
  intro hall
  exact absurd hshort (Nat.not_lt.mpr (hall 0 _ rfl).2)

end Last

/-- The round before the others. -/
theorem cons {rs : List (UInt8 × Bytes)} {err : Option Err}
    (h : ReadsImage mem addr n (k + 1) rs out err lost) (r : UInt8 × Bytes) :
    ReadsImage mem addr n k (r :: rs) out err lost := by
  refine ⟨h.image, h.length_le, ?_, ?_⟩
  · intro hall
    apply h.complete
    intro j r hj
    have hin := hall (j + 1) r hj
    rwa [show k + (j + 1) = k + 1 + j by omega] at hin
  · intro e he
    rcases h.refused e he with htransport | ⟨hk, -⟩
    · exact .inl htransport
    · exact absurd hk (by omega)

end ReadsImage

variable (P I) in
/-- The replies are the target's, to the requests from number `k` on. -/
def RepliesTo (addr : UInt64) (n : Int) (k : Nat) (rs : List (UInt8 × Bytes)) : Prop :=
  ∀ j r, rs[j]? = some r →
    ServesWith P I (addr + UInt64.ofNat ((k + j) * maxChunk)) (chunkSize n (k + j)) r.2

theorem repliesTo_nil {addr : UInt64} {n : Int} {k : Nat} : RepliesTo P I addr n k [] := by
  intro j r hr
  simp at hr

theorem RepliesTo.cons {addr : UInt64} {n : Int} {k : Nat} {r : UInt8 × Bytes}
    {rs : List (UInt8 × Bytes)} (hr : ServesWith P I (addr + UInt64.ofNat (k * maxChunk)) (chunkSize n k) r.2)
    (hrs : RepliesTo P I addr n (k + 1) rs) : RepliesTo P I addr n k (r :: rs) := by
  intro j r' hj
  cases j with
  | zero =>
      obtain rfl := Option.some.inj hj
      exact hr
  | succ j =>
      have hreplied := hrs j r' hj
      rwa [show k + 1 + j = k + (j + 1) by omega] at hreplied

theorem wanted_eq_chunkSize {n : Int} {k : Nat} {out : Bytes} (h : out.length = k * maxChunk) :
    wanted n out = chunkSize n k := by
  rw [wanted, chunkSize, h]
  push_cast
  rfl

theorem readMemoryLoop_image (hP : ServesMemory P I mem) (addr : UInt64) (n : Int) {fuel k : Nat}
    {out : Bytes} {c : Client σ} (hfuel : n ≤ out.length + fuel) (hc : Idle I c)
    (himage : IsImage mem addr out) (hlen : (out.length : Int) ≤ max n 0)
    (hk : out.length = k * maxChunk ∨ n ≤ out.length) :
    ∃ rs out' err c', (readMemoryLoop P addr n fuel out).run c = ((out', err), c') ∧
      c'.replies = c.replies ++ rs ∧ RepliesTo P I addr n k rs ∧
      ReadsImage mem addr n k rs out' err
        (Lost P I (addr + UInt64.ofNat out'.length) (wanted n out') c'.peer) := by
  -- the invariant: idle, an image so far, and whole chunks unless the read is complete
  induction fuel generalizing k out c with
  | zero => exact ⟨[], out, none, c, rfl, by simp, repliesTo_nil, .of_done himage hlen (by omega)⟩
  | succ fuel ih =>
      by_cases hlt : (out.length : Int) < n
      · have hchunk : out.length = k * maxChunk := hk.resolve_right (by omega)
        rcases transact_memrd hP (addr + UInt64.ofNat out.length) (wanted_lt n out) hc with
          ⟨e, c', hreq, htransport, hlog, hlost⟩ | ⟨reply, c', hreq, hreply, hc', hreplied, hlog⟩
        · exact ⟨[], out, some e, c', readMemoryLoop_failed hlt hreq fuel, by simp [hlog],
            repliesTo_nil, .of_failed himage hlen htransport hlost⟩
        · have hfirst : ServesWith P I (addr + UInt64.ofNat (k * maxChunk)) (chunkSize n k) reply := by
            rw [← wanted_eq_chunkSize hchunk, ← hchunk]
            exact hreplied
          by_cases hcode : respCode reply = respErr
          · exact ⟨_, out, _, c', readMemoryLoop_refused hlt hreq hcode fuel, hlog,
              .cons hfirst repliesTo_nil, .of_refused himage hlen hchunk hcode⟩
          · have hdata : IsImage mem (addr + UInt64.ofNat out.length)
                ((respBody reply).take (wanted n out)) := IsImage.take (hreply hcode)
            have hle : wanted n out ≤ (n - out.length).toNat := Nat.min_le_left _ _
            rcases Nat.lt_or_ge (respBody reply).length (wanted n out) with hshort | hfull
            · rw [List.take_of_length_le (by omega)] at hdata
              refine ⟨_, _, none, c', readMemoryLoop_short hlt hreq hcode hshort fuel, hlog,
                .cons hfirst repliesTo_nil, .of_short (himage.append hdata) ?_ ?_⟩
              · rw [List.length_append]
                omega
              · rw [← wanted_eq_chunkSize hchunk]
                exact hshort
            · -- a full chunk: the rest of the loop starts behind it
              have hpos : 0 < wanted n out := Nat.lt_min.mpr ⟨by omega, by decide⟩
              have hgrown : (out ++ (respBody reply).take (wanted n out)).length =
                  out.length + wanted n out := by
                rw [List.length_append, List.length_take, Nat.min_eq_left hfull]
              have hk' : (out ++ (respBody reply).take (wanted n out)).length = (k + 1) * maxChunk ∨
                  n ≤ (out ++ (respBody reply).take (wanted n out)).length := by
                rw [hgrown, hchunk, Nat.add_mul, Nat.one_mul]
                rw [wanted, hchunk] at *
                omega
              obtain ⟨rs, out', err, c'', hrun, hlog', hreplies, hread⟩ :=
                @ih (k + 1) (out ++ (respBody reply).take (wanted n out)) c' (by omega) hc'
                  (himage.append hdata) (by omega) hk'
              refine ⟨(c.mid + 1, reply) :: rs, out', err, c'',
                (readMemoryLoop_next hlt hreq hcode hfull fuel).trans hrun, ?_,
                .cons hfirst hreplies, hread.cons _⟩
              rw [hlog', hlog, List.append_assoc]
              rfl
      · exact ⟨[], out, none, c, readMemoryLoop_done (by omega) _, by simp, repliesTo_nil,
          .of_done himage hlen (by omega)⟩

/-- **The image is contiguous.** Against a target that serves memory, the loop
ends within `n` rounds; the bytes returned are the memory from `addr` on, at most
`n` of them. `rs` are the target's replies to its requests, in order: when each of
them covered what was asked, all `n` bytes are returned and no error, unless the next
request was lost. Beside such a loss, an error is the target's refusal of the first
request. -/
theorem readMemory_image (hP : ServesMemory P I mem) (addr : UInt64) (n : Int) {c : Client σ}
    (hc : Idle I c) :
    ∃ rs out err c', (readMemory P addr n).run c = ((out, err), c') ∧
      (∀ fuel, n.toNat ≤ fuel →
        (readMemoryLoop P addr n fuel []).run c = (readMemory P addr n).run c) ∧
      c'.replies = c.replies ++ rs ∧
      (∀ k r, rs[k]? = some r →
        ServesWith P I (addr + UInt64.ofNat (k * maxChunk)) (chunkSize n k) r.2) ∧
      (out.length : Int) ≤ max n 0 ∧
      (∀ i b, out[i]? = some b → b = mem (addr + UInt64.ofNat i)) ∧
      (0 ≤ n → (∀ k r, rs[k]? = some r → InFull n k r.2) →
        err = none ∧ (out.length : Int) = n ∨
          ∃ e, err = some e ∧ e.Transport ∧
            Lost P I (addr + UInt64.ofNat out.length) (wanted n out) c'.peer) ∧
      (∀ e, err = some e →
        e.Transport ∧ Lost P I (addr + UInt64.ofNat out.length) (wanted n out) c'.peer ∨
        e = .readMemory addr ∧ ∃ r, rs = [r] ∧ respCode r.2 = respErr) := by
  obtain ⟨rs, out, err, c', hrun, hlog, hreplies, hread⟩ :=
    readMemoryLoop_image hP addr n (k := 0) (show n ≤ ([] : Bytes).length + n.toNat by simp) hc
      (isImage_nil mem addr) (by simp) (.inl rfl)
  refine ⟨rs, out, err, c', hrun, ?_, hlog, by simpa [RepliesTo] using hreplies, hread.length_le,
    hread.image, ?_, ?_⟩
  · intro fuel hfuel
    exact readMemoryLoop_fuel P addr n (by simp; omega) (by simp) c
  · intro hn hall
    rcases hread.complete (by simpa using hall) with ⟨herr, hge⟩ | hlost
    · have hle := hread.length_le
      exact .inl ⟨herr, by omega⟩
    · exact .inr hlost
  · intro e he
    rcases hread.refused e he with htransport | ⟨-, heq, hfirst⟩
    · exact .inl htransport
    · exact .inr ⟨heq, hfirst⟩

/-- A target whose memory is zero everywhere and that answers every request with
2 KiB of it. -/
def zeroTarget : Peer Unit where
  recv _ _ := some ((), frame (message 0x23 0 0 (zeros 2048)))
  fin _ := .timeout

theorem servesMemory_zeroTarget : ServesMemory zeroTarget (fun _ => True) fun _ => 0 := by
  intro s mid a size _ _
  refine .inr ⟨(), [message 0x23 0 0 (zeros 2048)], ?_,
    .inr ⟨trivial, _, debugFrames_message _ _ _ _, ?_⟩⟩
  · rw [List.flatMap_cons, List.flatMap_nil, List.append_nil]
    rfl
  · intro _ i b _ hi
    exact List.eq_of_mem_replicate (List.mem_of_getElem? hi)

theorem zeroTarget_frames {fs : List Bytes} {t : Unit} {s : Unit} {b : Bytes}
    (h : zeroTarget.recv s b = some (t, fs.flatMap frame)) :
    debugFrames fs = [message 0x23 0 0 (zeros 2048)] := by
  have hframes : [message 0x23 0 0 (zeros 2048)].flatMap frame = fs.flatMap frame := by
    rw [List.flatMap_cons, List.flatMap_nil, List.append_nil]
    exact (Prod.mk.inj (Option.some.inj h)).2
  rw [← flatMap_frame_injective hframes]
  exact debugFrames_message _ _ _ _

/-- A read of two chunks across the end of the address space: both are answered with
more than was asked, and all of it is returned. -/
theorem readMemory_image_wrapping :
    let c : Client Unit := ⟨[], .timeout, (), 1, [], []⟩
    ServesMemory zeroTarget (fun _ => True) (fun _ => 0) ∧ Idle (fun _ => True) c ∧
      ∃ out c', (readMemory zeroTarget (2 ^ 64 - 4) 2000).run c = ((out, none), c') ∧
        out = zeros 2000 := by
  intro c
  have hc : Idle (fun _ => True) c := ⟨⟨[], rfl, rfl⟩, trivial⟩
  refine ⟨servesMemory_zeroTarget, hc, ?_⟩
  obtain ⟨rs, out, err, c', hrun, -, -, hreplied, -, himage, hcomplete, -⟩ :=
    readMemory_image servesMemory_zeroTarget (2 ^ 64 - 4) 2000 hc
  have hfull : ∀ k r, rs[k]? = some r → InFull 2000 k r.2 := by
    intro k r hr
    obtain ⟨_, _, _, fs, -, hrecv, hfs⟩ := hreplied k r hr
    have hreply : message 0x23 0 0 (zeros 2048) = r.2 :=
      List.singleton_inj.mp ((zeroTarget_frames hrecv).symm.trans hfs)
    rw [InFull, ← hreply]
    refine ⟨by decide, (Nat.min_le_right _ _).trans ?_⟩
    show maxChunk ≤ (zeros 2048).length
    rw [zeros, List.length_replicate]
    decide
  rcases hcomplete (by decide) hfull with ⟨rfl, hlen⟩ | ⟨_, -, -, _, _, -, hlost⟩
  · refine ⟨out, c', hrun, List.eq_replicate_iff.mpr ⟨by omega, ?_⟩⟩
    intro b hb
    obtain ⟨i, hi⟩ := List.mem_iff_getElem?.mp hb
    exact himage i b hi
  · -- this target loses nothing
    rcases hlost with ⟨hnone, -⟩ | ⟨fs, hrecv, hfs⟩
    · exact absurd hnone (Option.some_ne_none _)
    · rw [zeroTarget_frames hrecv] at hfs
      exact absurd hfs (List.cons_ne_nil _ _)

end Client

end QconnMcp.Qnxdbg
