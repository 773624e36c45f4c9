import QconnMcp.Mock.Pdebug

/-!
# The number fields of a request

Process, thread, register offset and size are `int`s in the client and fields of
16 or 32 bits in a request. The conversions drop the high bits: a number that does
not fit its field goes out as another number. `exact_iff` says that this is the
only way in which a request differs from what was asked for.
-/

namespace QconnMcp.Qnxdbg

open Kit

/-! ## Fields -/

/-- The first `k` little-endian fields of `w` bytes. -/
def fieldsOf (w : Nat) : Nat → Bytes → List Nat
  | 0, _ => []
  | k + 1, body => leNat (body.take w) :: fieldsOf w k (body.drop w)

/-- The numbers in fields of `w` bytes, as a conversion to that width leaves
them. -/
def encodeFields (w : Nat) (vs : List Int) : Bytes :=
  vs.flatMap fun v => leBytes w (v % 256 ^ w).toNat

theorem fieldsOf_encodeFields (w : Nat) (vs : List Int) (rest : Bytes) :
    fieldsOf w vs.length (encodeFields w vs ++ rest) = vs.map fun v => (v % 256 ^ w).toNat := by
  induction vs with
  | nil => rfl
  | cons v vs ih =>
      have hfield : (leBytes w (v % 256 ^ w).toNat).length = w := leBytes_length w _
      have hlt : (v % 256 ^ w).toNat < 256 ^ w := by
        have hpos : (0 : Int) < 256 ^ w := Int.pow_pos (by decide)
        have hmod := Int.emod_lt_of_pos v hpos
        have hnonneg := Int.emod_nonneg v (Int.ne_of_gt hpos)
        zify
        rwa [Int.toNat_of_nonneg hnonneg]
      rw [encodeFields, List.flatMap_cons, List.append_assoc, List.length_cons, fieldsOf,
        List.take_left' hfield, List.drop_left' hfield, leNat_leBytes, Nat.mod_eq_of_lt hlt]
      exact congrArg _ ih

/-- A number comes back exactly when it fits. -/
theorem cast_emod_eq_iff (w : Nat) (v : Int) :
    (((v % 256 ^ w).toNat : Nat) : Int) = v ↔ 0 ≤ v ∧ v < 256 ^ w := by
  have hpos : (0 : Int) < 256 ^ w := Int.pow_pos (by decide)
  rw [Int.toNat_of_nonneg (Int.emod_nonneg v (Int.ne_of_gt hpos))]
  refine ⟨?_, ?_⟩
  · intro h
    rw [← h]
    exact ⟨Int.emod_nonneg v (Int.ne_of_gt hpos), Int.emod_lt_of_pos v hpos⟩
  · rintro ⟨hge, hlt⟩
    exact Int.emod_eq_of_lt hge hlt

/-! ## The requests -/

/-- A request whose body starts with numbers. -/
inductive Numbered where
  | attach (pid : Int)
  | detach (pid : Int)
  | kill (pid : Int)
  | select (pid tid : Int)
  | readRegisters (offset size : Int)
  | writeRegisters (offset : Int) (data : Bytes)

namespace Numbered

def op : Numbered → Op
  | .attach pid => .attach pid
  | .detach pid => .detach pid
  | .kill pid => .kill pid
  | .select pid tid => .select pid tid
  | .readRegisters offset size => .readRegisters offset size
  | .writeRegisters offset data => .writeRegisters offset data

def cmd : Numbered → UInt8
  | .attach _ => cmdAttach
  | .detach _ => cmdDetach
  | .kill _ => cmdKill
  | .select .. => cmdSelect
  | .readRegisters .. => cmdRegrd
  | .writeRegisters .. => cmdRegwr

/-- The numbers that were passed in, in the order of their fields. -/
def numbers : Numbered → List Int
  | .attach pid => [pid]
  | .detach pid => [pid]
  | .kill pid => [pid]
  | .select pid tid => [pid, tid]
  | .readRegisters offset size => [offset, size]
  | .writeRegisters offset _ => [offset]

/-- The bytes of a field. -/
def width : Numbered → Nat
  | .attach _ | .detach _ | .kill _ | .select .. => 4
  | .readRegisters .. | .writeRegisters .. => 2

/-- What follows the fields. -/
def tail : Numbered → Bytes
  | .writeRegisters _ data => data
  | _ => []

/-- The payload of the request. -/
def request (r : Numbered) (mid : UInt8) : Bytes :=
  message r.cmd 0 mid (encodeFields r.width r.numbers ++ r.tail)

/-- Every number fits its field. -/
def Fits (r : Numbered) : Prop := ∀ v ∈ r.numbers, 0 ≤ v ∧ v < 256 ^ r.width

end Numbered

/-! ## Running a request -/

namespace Client

variable {σ : Type} {P : Peer σ} {cmd subcmd : UInt8} {body : Bytes} {refused : Bytes → Err}

theorem command_state (c : Client σ) :
    ((command P cmd subcmd body refused).run c).2 = ((transactSub P cmd subcmd body).run c).2 := by
  rw [command, run_bind]
  cases ((transactSub P cmd subcmd body).run c).1 with
  | error e => rfl
  | ok p =>
      dsimp only
      split <;> rfl

theorem acked_state (c : Client σ) :
    ((acked P cmd subcmd body refused).run c).2 = ((transactSub P cmd subcmd body).run c).2 := by
  have hstate : ((command P cmd subcmd body refused).run c).2 = _ := command_state c
  rw [← hstate, acked, run_bind]
  cases ((command P cmd subcmd body refused).run c).1 <;> rfl

theorem fetched_state (c : Client σ) :
    ((fetched P cmd subcmd body refused).run c).2 = ((transactSub P cmd subcmd body).run c).2 := by
  have hstate : ((command P cmd subcmd body refused).run c).2 = _ := command_state c
  rw [← hstate, fetched, run_bind]
  cases ((command P cmd subcmd body refused).run c).1 <;> rfl

theorem fetched_failed {e : Err} {c c' : Client σ}
    (h : (transactSub P cmd subcmd body).run c = (.error e, c')) :
    (fetched P cmd subcmd body refused).run c = (([], some e), c') := by
  rw [fetched, run_bind, command, run_bind, h]
  rfl

end Client

namespace Numbered

variable {σ : Type} (P : Peer σ) (r : Numbered)

/-- Each of the operations is one transaction with its request. -/
theorem exec_state (c : Client σ) :
    ((r.op.exec P).run c).2 =
      ((Client.transactSub P r.cmd 0 (encodeFields r.width r.numbers ++ r.tail)).run c).2 := by
  cases r with
  | attach pid => exact Client.acked_state c
  | detach pid => exact Client.acked_state c
  | kill pid => exact Client.acked_state c
  | select pid tid => exact Client.acked_state c
  | readRegisters offset size => exact Client.fetched_state c
  | writeRegisters offset data => exact Client.acked_state c

theorem exec_failed {e : Err} {c c' : Client σ}
    (h : (Client.transactSub P r.cmd 0 (encodeFields r.width r.numbers ++ r.tail)).run c =
      (.error e, c')) : ((r.op.exec P).run c).1.2 = some e := by
  cases r with
  | attach pid => exact congrArg Prod.fst (Client.acked_failed h)
  | detach pid => exact congrArg Prod.fst (Client.acked_failed h)
  | kill pid => exact congrArg Prod.fst (Client.acked_failed h)
  | select pid tid => exact congrArg Prod.fst (Client.acked_failed h)
  | readRegisters offset size => exact congrArg (·.1.2) (Client.fetched_failed h)
  | writeRegisters offset data => exact congrArg Prod.fst (Client.acked_failed h)

/-! ## Truncation -/

/-- The operation fails and sends nothing, or what it sends is one message of its
command whose fields are the numbers passed in. -/
def Exact (c : Client (σ × Bytes)) : Prop :=
  (((r.op.exec P.taped).run c).1.2 ≠ none ∧ ((r.op.exec P.taped).run c).2.peer.2 = c.peer.2) ∨
    ∃ mid body, ((r.op.exec P.taped).run c).2.peer.2 = c.peer.2 ++ frame (message r.cmd 0 mid body) ∧
      (fieldsOf r.width r.numbers.length body).map Int.ofNat = r.numbers

/-- The fields of the request are the numbers exactly when those fit. -/
theorem fields_request_iff :
    (fieldsOf r.width r.numbers.length (encodeFields r.width r.numbers ++ r.tail)).map Int.ofNat =
      r.numbers ↔ r.Fits := by
  rw [fieldsOf_encodeFields, List.map_map]
  conv_lhs => rhs; rw [← List.map_id r.numbers]
  rw [List.map_inj_left]
  exact forall_congr' fun v => forall_congr' fun _ => cast_emod_eq_iff r.width v

/-- A request that goes out is exact when its numbers fit. -/
theorem exact_of_sent_iff {c : Client (σ × Bytes)} {s : σ × Bytes}
    (hrecv : P.recv c.peer.1 (frame (r.request (c.mid + 1))) = some s) :
    r.Exact P c ↔ r.Fits := by
  have hsent : ((r.op.exec P.taped).run c).2.peer.2 =
      c.peer.2 ++ frame (r.request (c.mid + 1)) := by
    rw [exec_state, Client.transactSub_taped hrecv]
    rfl
  rw [← fields_request_iff]
  refine ⟨?_, ?_⟩
  · rintro (⟨-, hnone⟩ | ⟨mid, body, htape, hfields⟩)
    · rw [hsent] at hnone
      exact absurd hnone (by simp [frame])
    · -- the message on the tape is the request, so its fields are the encoded ones
      rw [hsent] at htape
      have hflat : [r.request (c.mid + 1)].flatMap frame =
          [message r.cmd 0 mid body].flatMap frame := by
        simpa using List.append_cancel_left htape
      have hmsg : r.request (c.mid + 1) = message r.cmd 0 mid body := by
        simpa using flatMap_frame_injective hflat
      have hbody : encodeFields r.width r.numbers ++ r.tail = body := by
        simpa [request, message] using congrArg (List.drop 4) hmsg
      rwa [hbody]
  · intro hfields
    exact .inr ⟨c.mid + 1, _, hsent, hfields⟩

/-- On a connection that takes no request, the operation fails. -/
theorem exact_of_refused {c : Client (σ × Bytes)}
    (hrecv : P.recv c.peer.1 (frame (r.request (c.mid + 1))) = none) : r.Exact P c := by
  have htaped : P.taped.recv c.peer (frame (r.request (c.mid + 1))) = none := by
    simp only [Peer.taped, hrecv, Option.map_none]
  have hfail := exec_failed P.taped r (Client.transactSub_refused htaped)
  have hsame := congrArg Client.peer (exec_state P.taped r c)
  rw [Client.transactSub_untaped hrecv] at hsame
  refine .inl ⟨?_, congrArg Prod.snd hsame⟩
  rw [hfail]
  simp

/-- **No silent truncation, where the numbers fit.** One of the six operations
fails without sending anything, or sends exactly the numbers passed in, exactly
when each number fits its field or the connection takes no request. -/
theorem exact_iff (c : Client (σ × Bytes)) :
    r.Exact P c ↔ r.Fits ∨ P.recv c.peer.1 (frame (r.request (c.mid + 1))) = none := by
  cases hrecv : P.recv c.peer.1 (frame (r.request (c.mid + 1))) with
  | none =>
      simp only [or_true, iff_true]
      exact exact_of_refused P r hrecv
  | some s =>
      simp only [reduceCtorEq, or_false]
      exact exact_of_sent_iff P r hrecv

end Numbered

/-- On the mock, an Attach to process `2 ^ 32 + 7` succeeds and attaches to
process 7. -/
theorem attach_truncated :
    let c : Client (Served Mock.Pdebug × Bytes) :=
      ⟨[], .timeout, (⟨Mock.Pdebug.start, []⟩, []), 1, [], []⟩
    let r := ((Numbered.attach (2 ^ 32 + 7)).op.exec Mock.serveDSMSG.taped).run c
    r.1.2 = none ∧ r.2.peer.1.state.attachedPID = 7 ∧
      r.2.peer.2 = frame (message cmdAttach 0 2 (le32 7)) ∧
      ¬ (Numbered.attach (2 ^ 32 + 7)).Exact Mock.serveDSMSG c := by
  intro c r
  have hrun : r.1.2 = none ∧ r.2.peer.1.state.attachedPID = 7 ∧
      r.2.peer.2 = frame (message cmdAttach 0 2 (le32 7)) := by
    decide +kernel
  refine ⟨hrun.1, hrun.2.1, hrun.2.2, ?_⟩
  intro hexact
  have hfits := (Numbered.exact_of_sent_iff _ _ (Mock.recv_frame _ _)).mp hexact
  exact absurd (hfits _ List.mem_cons_self).2 (by decide)

end QconnMcp.Qnxdbg
