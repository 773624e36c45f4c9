import QconnMcp.Qnxdbg.Fields
import QconnMcp.Qnxdbg.Memory
import QconnMcp.Qnxdbg.MemoryWrite

/-!
# Message layouts

The bytes of a request are laid out three times: by the encoders of
`internal/qnxdbg/commands.go`, by `decodeBody` of `decode.go`, with which
`dsmsg-proxy` annotates what it forwards, and by the mock agent. `Message` says what
a request means, in the integer types of its fields. Each call sends frames of the
messages it stands for, and both readers get the numbers back (`layouts_agree`).
-/

namespace QconnMcp.Qnxdbg

open Kit

/-! ## The annotator -/

/-- `%#x`. -/
def hexed (n : Nat) : Bytes := ascii "0x" ++ fmtNat 16 n

/-- The conversion `int32(v)` of a `uint32`. -/
def int32 (v : Nat) : Int := if v < 2 ^ 31 then v else v - 2 ^ 32

/-- `decodeBody`. -/
def decodeBody (code : UInt8) (isResp : Bool) (b : Bytes) : Bytes :=
  if isResp then []
  else if code = cmdAttach ∨ code = cmdDetach ∨ code = cmdKill then
    if 4 ≤ b.length then ascii "pid=" ++ fmtNat 10 (leNat (b.take 4)) else []
  else if code = cmdSelect then
    if 8 ≤ b.length then
      ascii "pid=" ++ fmtNat 10 (leNat (b.take 4)) ++ ascii " tid=" ++
        fmtNat 10 (leNat ((b.drop 4).take 4))
    else []
  else if code = cmdMemrd ∨ code = cmdMemwr then
    if 12 ≤ b.length then
      ascii "addr=" ++ hexed (leNat ((b.drop 4).take 8)) ++
        (if code = cmdMemrd ∧ 14 ≤ b.length then
          ascii " size=" ++ fmtNat 10 (leNat ((b.drop 12).take 2)) else []) ++
        (if code = cmdMemwr then ascii " datalen=" ++ fmtNat 10 (b.length - 12) else [])
    else []
  else if code = cmdRegrd then
    if 4 ≤ b.length then
      ascii "off=" ++ hexed (leNat (b.take 2)) ++ ascii " size=" ++
        fmtNat 10 (leNat ((b.drop 2).take 2))
    else []
  else if code = cmdRegwr then
    if 2 ≤ b.length then
      ascii "off=" ++ hexed (leNat (b.take 2)) ++ ascii " datalen=" ++ fmtNat 10 (b.length - 2)
    else []
  else if code = cmdBrk then
    if 12 ≤ b.length then
      let size := int32 (leNat (b.take 4))
      let op := if size < 0 then ascii "remove" else ascii "set"
      ascii "BRK " ++ op ++ ascii " addr=" ++ hexed (leNat ((b.drop 4).take 8)) ++
        ascii " size=" ++ fmtInt 10 size
    else ascii "BRK"
  else []

def cmdNames : List (UInt8 × Bytes) :=
  [(0, ascii "Connect"), (1, ascii "Disconnect"), (2, ascii "Select"), (3, ascii "Mapinfo"),
    (4, ascii "Load"), (5, ascii "Attach"), (6, ascii "Detach"), (7, ascii "Kill"),
    (8, ascii "Stop"), (9, ascii "Memrd"), (10, ascii "Memwr"), (11, ascii "Regrd"),
    (12, ascii "Regwr"), (13, ascii "Run"), (14, ascii "Brk"), (15, ascii "Fileopen"),
    (16, ascii "Filerd"), (17, ascii "Filewr"), (18, ascii "Fileclose"), (19, ascii "Pidlist"),
    (20, ascii "Cwd"), (21, ascii "Env"), (22, ascii "Base"), (23, ascii "Protover"),
    (24, ascii "Handlesig"), (25, ascii "CPUInfo"), (26, ascii "TIDNames")]

def respNames : List (UInt8 × Bytes) :=
  [(0x20, ascii "ERR"), (0x21, ascii "OK"), (0x22, ascii "OKStatus"), (0x23, ascii "OKData"),
    (0x40, ascii "NOTIFY")]

/-- `%x` of bytes. -/
def hexBytes (b : Bytes) : Bytes :=
  b.flatMap fun x => [digitByte (x.toNat / 16), digitByte (x.toNat % 16)]

/-- `CmdName`. -/
def cmdName (b : UInt8) : Bytes := (cmdNames.lookup b).getD (ascii "cmd?0x" ++ hexBytes [b])

/-- `Annotate`. -/
def annotate : Bytes → Bytes
  | code :: sub :: mid :: ch :: body =>
      -- the direction is inferred from the code
      let isResp := decide (0x20 ≤ code)
      let name :=
        if isResp then
          ascii "<-" ++ (respNames.lookup code).getD (ascii "resp?0x" ++ hexBytes [code])
        else ascii "->" ++ cmdName code
      let desc := name ++ ascii " sub=" ++ fmtNat 10 sub.toNat ++ ascii " mid=" ++
        fmtNat 10 mid.toNat ++ ascii " ch=" ++ fmtNat 10 ch.toNat
      let d := decodeBody code isResp body
      desc ++ (if d ≠ [] then ascii "  " ++ d else []) ++
        (if body ≠ [] then ascii "  body=" ++ hexBytes body else [])
  | payload => ascii "control/short " ++ hexBytes payload

/-! ## Messages -/

/-- What a request says. -/
inductive Message where
  | attach (pid : UInt32)
  | detach (pid : UInt32)
  | kill (pid : UInt32)
  | select (pid tid : UInt32)
  | memrd (addr : UInt64) (size : UInt16)
  | memwr (addr : UInt64) (data : Bytes)
  | regrd (offset size : UInt16)
  | regwr (offset : UInt16) (data : Bytes)
  | brk (typ : UInt8) (addr : UInt64) (size : Int32)

namespace Message

def cmd : Message → UInt8
  | .attach _ => cmdAttach
  | .detach _ => cmdDetach
  | .kill _ => cmdKill
  | .select .. => cmdSelect
  | .memrd .. => cmdMemrd
  | .memwr .. => cmdMemwr
  | .regrd .. => cmdRegrd
  | .regwr .. => cmdRegwr
  | .brk .. => cmdBrk

def sub : Message → UInt8
  | .brk typ .. => typ
  | _ => 0

def body : Message → Bytes
  | .attach pid | .detach pid | .kill pid => le32 pid.toNat
  | .select pid tid => le32 pid.toNat ++ le32 tid.toNat
  | .memrd addr size => memrdBody addr size.toNat
  | .memwr addr data => memwrBody addr data
  | .regrd offset size => le16 offset.toNat ++ le16 size.toNat
  | .regwr offset data => le16 offset.toNat ++ data
  | .brk _ addr size => le32 (uint32 size.toInt) ++ le64 addr

def payload (m : Message) (mid : UInt8) : Bytes := message m.cmd m.sub mid m.body

/-- How many bytes of data the message carries. -/
def dataLength : Message → Nat
  | .memwr _ data | .regwr _ data => data.length
  | _ => 0

/-- The message as the annotator tells it. -/
def text : Message → Bytes
  | .attach pid | .detach pid | .kill pid => ascii "pid=" ++ fmtNat 10 pid.toNat
  | .select pid tid =>
      ascii "pid=" ++ fmtNat 10 pid.toNat ++ ascii " tid=" ++ fmtNat 10 tid.toNat
  | .memrd addr size => ascii "addr=" ++ hexed addr.toNat ++ ascii " size=" ++ fmtNat 10 size.toNat
  | .memwr addr data =>
      ascii "addr=" ++ hexed addr.toNat ++ ascii " datalen=" ++ fmtNat 10 data.length
  | .regrd offset size =>
      ascii "off=" ++ hexed offset.toNat ++ ascii " size=" ++ fmtNat 10 size.toNat
  | .regwr offset data =>
      ascii "off=" ++ hexed offset.toNat ++ ascii " datalen=" ++ fmtNat 10 data.length
  | .brk _ addr size =>
      ascii "BRK " ++ (if size.toInt < 0 then ascii "remove" else ascii "set") ++
        ascii " addr=" ++ hexed addr.toNat ++ ascii " size=" ++ fmtInt 10 size.toInt

/-- What the mock agent does with the message, where it looks at the body. -/
def ServedAs (mid : UInt8) (s : Mock.Pdebug) (r : Mock.Pdebug × List Bytes) : Message → Prop
  | .attach pid => r.1 = { s with attachedPID := pid.toNat }
  | .memrd addr size => r = (s, [Mock.reply 0x23 mid (Mock.Pdebug.memory addr.toNat size.toNat)])
  | .brk _ addr size => r.1 = { s with brkAddr := if size.toInt < 0 then 0 else addr.toNat }
  | _ => True

/-! ## Reading the layouts -/

theorem leNat_le32 (v : UInt32) (rest : Bytes) :
    leNat ((le32 v.toNat ++ rest).take 4) = v.toNat :=
  leNat_take (show v.toNat < 256 ^ 4 from v.toNat_lt) rest

theorem leNat_le16 (v : UInt16) (rest : Bytes) :
    leNat ((le16 v.toNat ++ rest).take 2) = v.toNat :=
  leNat_take (show v.toNat < 256 ^ 2 from v.toNat_lt) rest

/-- The size of a breakpoint keeps its sign. -/
theorem int32_uint32 (size : Int32) : int32 (uint32 size.toInt) = size.toInt := by
  have hlo := size.le_toInt
  have hhi := size.toInt_lt
  rw [int32, uint32]
  split <;> omega

theorem leNat_size (size : Int32) (rest : Bytes) :
    leNat ((le32 (uint32 size.toInt) ++ rest).take 4) = uint32 size.toInt := by
  have hmod : uint32 size.toInt < 256 ^ 4 := by
    rw [uint32]
    omega
  exact leNat_take hmod rest

/-- The mock tests the sign on the unsigned number. -/
theorem le_uint32_iff (size : Int32) : 2 ^ 31 ≤ uint32 size.toInt ↔ size.toInt < 0 := by
  have hlo := size.le_toInt
  have hhi := size.toInt_lt
  rw [uint32]
  omega

theorem leNat_le32_self (v : UInt32) : leNat ((le32 v.toNat).take 4) = v.toNat := by
  have h := leNat_le32 v []
  rwa [List.append_nil] at h

/-- A body that holds a process id alone. -/
theorem decodeBody_pid {code : UInt8} (h : code = cmdAttach ∨ code = cmdDetach ∨ code = cmdKill)
    (pid : UInt32) :
    decodeBody code false (le32 pid.toNat) = ascii "pid=" ++ fmtNat 10 pid.toNat := by
  rw [decodeBody, if_neg Bool.false_ne_true, if_pos h, if_pos (by simp [le32]), leNat_le32_self]

/-- The annotator reads every message as it was meant. -/
theorem decodeBody_body (m : Message) : decodeBody m.cmd false m.body = m.text := by
  cases m with
  | attach pid => exact decodeBody_pid (.inl rfl) pid
  | detach pid => exact decodeBody_pid (.inr (.inl rfl)) pid
  | kill pid => exact decodeBody_pid (.inr (.inr rfl)) pid
  | select pid tid =>
      have hdrop : (le32 pid.toNat ++ le32 tid.toNat).drop 4 = le32 tid.toNat := drop_leBytes 4 _ _
      show decodeBody cmdSelect false (le32 pid.toNat ++ le32 tid.toNat) = _
      rw [decodeBody, if_neg Bool.false_ne_true, if_neg (by decide), if_pos rfl,
        if_pos (by simp [le32]), leNat_le32, hdrop, leNat_le32_self]
      rfl
  | memrd addr size =>
      obtain ⟨haddr, hsize, hlen⟩ := memrdBody_fields addr size.toNat_lt
      show decodeBody cmdMemrd false (memrdBody addr size.toNat) = _
      rw [decodeBody, if_neg Bool.false_ne_true, if_neg (by decide), if_neg (by decide),
        if_pos (.inl rfl), if_pos (by omega), haddr, if_pos ⟨rfl, by omega⟩, hsize,
        if_neg (by decide), List.append_nil]
      exact List.append_assoc _ _ _ |>.symm
  | memwr addr data =>
      obtain ⟨haddr, -, hlen⟩ := memwrBody_fields addr data
      show decodeBody cmdMemwr false (memwrBody addr data) = _
      rw [decodeBody, if_neg Bool.false_ne_true, if_neg (by decide), if_neg (by decide),
        if_pos (.inr rfl), if_pos (by omega), haddr, if_neg (fun h => absurd h.1 (by decide)),
        List.append_nil, if_pos rfl, hlen, Nat.add_sub_cancel_left]
      exact List.append_assoc _ _ _ |>.symm
  | regrd offset size =>
      have hdrop : (le16 offset.toNat ++ le16 size.toNat).drop 2 = le16 size.toNat :=
        drop_leBytes 2 _ _
      have hsize := leNat_le16 size []
      rw [List.append_nil] at hsize
      show decodeBody cmdRegrd false (le16 offset.toNat ++ le16 size.toNat) = _
      rw [decodeBody, if_neg Bool.false_ne_true, if_neg (by decide), if_neg (by decide),
        if_neg (by decide), if_pos rfl, if_pos (by simp [le16]), leNat_le16, hdrop, hsize]
      rfl
  | regwr offset data =>
      have hlen : (le16 offset.toNat ++ data).length = 2 + data.length := by simp [le16]
      show decodeBody cmdRegwr false (le16 offset.toNat ++ data) = _
      rw [decodeBody, if_neg Bool.false_ne_true, if_neg (by decide), if_neg (by decide),
        if_neg (by decide), if_neg (by decide), if_pos rfl, if_pos (by omega), leNat_le16, hlen,
        Nat.add_sub_cancel_left]
      rfl
  | brk typ addr size =>
      have hdrop : (le32 (uint32 size.toInt) ++ le64 addr).drop 4 = le64 addr := drop_leBytes 4 _ _
      have haddr := leNat_le64 addr []
      rw [List.append_nil] at haddr
      show decodeBody cmdBrk false (le32 (uint32 size.toInt) ++ le64 addr) = _
      rw [decodeBody, if_neg Bool.false_ne_true, if_neg (by decide), if_neg (by decide),
        if_neg (by decide), if_neg (by decide), if_neg (by decide), if_pos rfl,
        if_pos (by simp [le32, le64])]
      simp only [leNat_size, int32_uint32, hdrop, haddr]
      rfl

/-- So does the mock agent, where it looks at the body. -/
theorem servedAs_serve (m : Message) (mid : UInt8) (s : Mock.Pdebug) :
    m.ServedAs mid s (s.serve (m.payload mid)) := by
  cases m with
  | attach pid =>
      show (if 4 ≤ (le32 pid.toNat).length then
        { s with attachedPID := Mock.field (le32 pid.toNat) 0 4 } else s) = _
      rw [if_pos (by simp [le32]), Mock.field, List.drop_zero, leNat_le32_self]
  | memrd addr size =>
      show (s, [Mock.reply 0x23 mid (Mock.Pdebug.memrd (memrdBody addr size.toNat))]) = _
      rw [Mock.Pdebug.memrd_memrdBody addr size.toNat_lt]
  | brk typ addr size =>
      have hlen : 12 ≤ (le32 (uint32 size.toInt) ++ le64 addr).length := by simp [le32, le64]
      have hsize : Mock.field (le32 (uint32 size.toInt) ++ le64 addr) 0 4 = uint32 size.toInt :=
        leNat_size size _
      have haddr : Mock.field (le32 (uint32 size.toInt) ++ le64 addr) 4 8 = addr.toNat := by
        rw [Mock.field, show (le32 (uint32 size.toInt) ++ le64 addr).drop 4 = le64 addr from
          drop_leBytes 4 _ _, ← List.append_nil (le64 addr), leNat_le64]
      have hserve : s.serve ((Message.brk typ addr size).payload mid) =
          (s.brk (le32 (uint32 size.toInt) ++ le64 addr), [Mock.reply 0x21 mid []]) := rfl
      rw [ServedAs, hserve, Mock.Pdebug.brk, if_pos hlen, hsize, haddr]
      by_cases hneg : size.toInt < 0
      · rw [if_pos ((le_uint32_iff size).mpr hneg), if_pos hneg]
      · rw [if_neg (mt (le_uint32_iff size).mp hneg), if_neg hneg]
  | detach _ => trivial
  | kill _ => trivial
  | select _ _ => trivial
  | memwr _ _ => trivial
  | regrd _ _ => trivial
  | regwr _ _ => trivial

/-- The payload of a request for `m` with message id `mid`, as its readers see it: the
header, what the annotator tells, and what the mock agent does. -/
structure ReadAs (m : Message) (mid : UInt8) (p : Bytes) : Prop where
  header : p.take 4 = [m.cmd, m.sub, mid, chanDebug]
  annotator : decodeBody (respCode p) false (respBody p) = m.text
  agent : ∀ s : Mock.Pdebug, m.ServedAs mid s (s.serve p)

theorem readAs_payload (m : Message) (mid : UInt8) : m.ReadAs mid (m.payload mid) :=
  ⟨rfl, m.decodeBody_body, m.servedAs_serve mid⟩

/-! ## Sending messages -/

/-- The payloads of messages that are sent one after another. -/
def payloads : UInt8 → List Message → List Bytes
  | _, [] => []
  | mid, m :: ms => m.payload (mid + 1) :: payloads (mid + 1) ms

theorem getElem_payloads (mid : UInt8) (ms : List Message) (i : Nat) :
    (payloads mid ms)[i]? = (ms[i]?).map fun m => m.payload (mid + UInt8.ofNat (i + 1)) := by
  induction ms generalizing mid i with
  | nil => rfl
  | cons m ms ih =>
      cases i with
      | zero => rfl
      | succ i =>
          rw [payloads, List.getElem?_cons_succ, List.getElem?_cons_succ, ih, UInt8.add_assoc,
            UInt8.add_comm 1, ← UInt8.ofNat_one, ← UInt8.ofNat_add]

theorem length_payloads (mid : UInt8) (ms : List Message) : (payloads mid ms).length = ms.length := by
  induction ms generalizing mid with
  | nil => rfl
  | cons m ms ih => rw [payloads, List.length_cons, List.length_cons, ih]

/-- The last of the `k` requests that went out got no reply, or an error. -/
def Unanswered {σ : Type} (c c' : Client σ) (k : Nat) : Prop :=
  ∃ rs, c'.replies = c.replies ++ rs ∧ 0 < k ∧
    (rs.length < k ∨ ∃ r, rs.getLast? = some r ∧ respCode r.2 = respErr)

/-- What has gone out on a connection for a call that stands for `ms`: a beginning of
these messages. It is all of them unless the call failed, because the target did not
take the next one or the last one was not answered well. -/
def Sent {σ : Type} (P : Peer σ) (c c' : Client (σ × Bytes)) (err : Option Err)
    (ms : List Message) : Prop :=
  ∃ k ≤ ms.length, c'.peer.2 = c.peer.2 ++ ((payloads c.mid ms).take k).flatMap frame ∧
    (k = ms.length ∨ (∃ e, err = some e) ∧
      ((∃ p, (payloads c.mid ms)[k]? = some p ∧ P.recv c'.peer.1 (frame p) = none) ∨
        Unanswered c c' k))

namespace Sent

variable {σ : Type} {P : Peer σ} {c c' : Client (σ × Bytes)}

theorem nothing (c : Client (σ × Bytes)) : Sent P c c none [] :=
  ⟨0, le_rfl, (List.append_nil _).symm, .inl rfl⟩

/-- The first message is not taken. -/
theorem failed {m : Message} (hpeer : c'.peer = c.peer)
    (hrecv : P.recv c.peer.1 (frame (m.payload (c.mid + 1))) = none) (e : Err) (ms : List Message) :
    Sent P c c' (some e) (m :: ms) := by
  refine ⟨0, Nat.zero_le _, ?_, .inr ⟨⟨e, rfl⟩, .inl ⟨_, rfl, ?_⟩⟩⟩
  · rw [hpeer]
    exact (List.append_nil _).symm
  · rw [hpeer]
    exact hrecv

/-- A message that has gone out and was answered, before those of the rest of the
call. -/
theorem cons {c₁ : Client (σ × Bytes)} {m : Message} {ms : List Message} {err : Option Err}
    {r : UInt8 × Bytes} (hmid : c₁.mid = c.mid + 1)
    (htape : c₁.peer.2 = c.peer.2 ++ frame (m.payload (c.mid + 1)))
    (hreply : c₁.replies = c.replies ++ [r]) (h : Sent P c₁ c' err ms) :
    Sent P c c' err (m :: ms) := by
  obtain ⟨k, hk, hrest, hall⟩ := h
  rw [hmid] at hrest hall
  refine ⟨k + 1, Nat.succ_le_succ hk, ?_, ?_⟩
  · rw [hrest, htape, List.append_assoc]
    rfl
  · rcases hall with rfl | ⟨herr, hnext | ⟨rs, hrs, hpos, hlast⟩⟩
    · exact .inl rfl
    · exact .inr ⟨herr, .inl hnext⟩
    · refine .inr ⟨herr, .inr ⟨r :: rs, ?_, Nat.succ_pos k, ?_⟩⟩
      · rw [hrs, hreply, List.append_assoc]
        rfl
      · rcases hlast with hshort | ⟨r', hr', hcode⟩
        · exact .inl (Nat.succ_lt_succ hshort)
        · refine .inr ⟨r', ?_, hcode⟩
          rw [List.getLast?_cons, hr']
          rfl

/-- A call that ends behind its first message, which was not answered well. -/
theorem last {m : Message} {ms : List Message} {rs : List (UInt8 × Bytes)}
    (htape : c'.peer.2 = c.peer.2 ++ frame (m.payload (c.mid + 1)))
    (hrs : c'.replies = c.replies ++ rs)
    (hlast : rs = [] ∨ ∃ r, rs = [r] ∧ respCode r.2 = respErr) (e : Err) :
    Sent P c c' (some e) (m :: ms) := by
  refine ⟨1, by simp, ?_, .inr ⟨⟨e, rfl⟩, .inr ⟨rs, hrs, Nat.one_pos, ?_⟩⟩⟩
  · rw [htape, payloads]
    simp
  · rcases hlast with rfl | ⟨r, rfl, hcode⟩
    · exact .inl Nat.one_pos
    · exact .inr ⟨r, rfl, hcode⟩

theorem single {m : Message} (htape : c'.peer.2 = c.peer.2 ++ frame (m.payload (c.mid + 1)))
    (err : Option Err) : Sent P c c' err [m] := by
  refine ⟨1, le_rfl, ?_, .inl rfl⟩
  rw [htape]
  simp [payloads]

/-- The transaction of a message: the target does not take it, or it goes out and its
reply is noted if one comes. -/
theorem tape_of_run {m : Message} {r : Except Err Bytes}
    (hrun : (Client.transactSub P.taped m.cmd m.sub m.body).run c = (r, c')) :
    ((∃ e, r = .error e) ∧ c'.peer = c.peer ∧
        P.recv c.peer.1 (frame (m.payload (c.mid + 1))) = none) ∨
      c'.peer.2 = c.peer.2 ++ frame (m.payload (c.mid + 1)) ∧
        ((∃ e, r = .error e) ∧ c'.replies = c.replies ∨
          ∃ p, r = .ok p ∧ c'.replies = c.replies ++ [(c.mid + 1, p)]) := by
  cases hrecv : P.recv c.peer.1 (frame (message m.cmd m.sub (c.mid + 1) m.body)) with
  | none =>
      have htaped : P.taped.recv c.peer (frame (message m.cmd m.sub (c.mid + 1) m.body)) = none := by
        simp only [Peer.taped, hrecv, Option.map_none]
      rw [Client.transactSub_refused htaped] at hrun
      cases hrun
      exact .inl ⟨⟨_, rfl⟩, rfl, hrecv⟩
  | some s =>
      have hpeer := Client.transactSub_taped hrecv
      have hnoted := Client.transactSub_noted P.taped m.cmd m.sub m.body c
      rw [hrun] at hpeer hnoted
      exact .inr ⟨congrArg Prod.snd hpeer, hnoted⟩

/-- A call that ends behind the transaction of its first message, and fails when that
does. -/
theorem of_run {m : Message} {r : Except Err Bytes} {err : Option Err}
    (hrun : (Client.transactSub P.taped m.cmd m.sub m.body).run c = (r, c'))
    (herr : ∀ e, r = .error e → ∃ e', err = some e') : Sent P c c' err [m] := by
  rcases tape_of_run hrun with ⟨⟨e, he⟩, hpeer, hrecv⟩ | ⟨htape, -⟩
  · obtain ⟨e', rfl⟩ := herr e he
    exact failed hpeer hrecv e' []
  · exact single htape err

theorem acked (P : Peer σ) (c : Client (σ × Bytes)) (m : Message) {body : Bytes}
    (hbody : body = m.body) (refused : Bytes → Err) :
    Sent P c ((Client.acked P.taped m.cmd m.sub body refused).run c).2
      ((Client.acked P.taped m.cmd m.sub body refused).run c).1 [m] := by
  subst hbody
  rw [Client.acked_state]
  refine of_run rfl ?_
  intro e he
  rw [Client.acked_failed (Prod.ext he rfl)]
  exact ⟨e, rfl⟩

theorem fetched (P : Peer σ) (c : Client (σ × Bytes)) (m : Message) {body : Bytes}
    (hbody : body = m.body) (refused : Bytes → Err) :
    Sent P c ((Client.fetched P.taped m.cmd m.sub body refused).run c).2
      ((Client.fetched P.taped m.cmd m.sub body refused).run c).1.2 [m] := by
  subst hbody
  rw [Client.fetched_state]
  refine of_run rfl ?_
  intro e he
  rw [Client.fetched_failed (Prod.ext he rfl)]
  exact ⟨e, rfl⟩

end Sent

end Message

/-! ## Calls -/

/-- The calls, with arguments in the range of their fields. -/
inductive Call where
  | attach (pid : UInt32)
  | detach (pid : UInt32)
  | kill (pid : UInt32)
  | select (pid tid : UInt32)
  | readMemory (addr : UInt64) (size : Fin (maxChunk + 1))
  | writeMemory (addr : UInt64) (data : Bytes)
  | readRegisters (offset size : UInt16)
  | writeRegisters (offset : UInt16) (data : Bytes)
  | setBreakpoint (addr : UInt64) (size : Int32)
  | clearBreakpoint (addr : UInt64)

/-- The writes of data in chunks that follow each other in memory. -/
def stores (addr : UInt64) : Nat → Bytes → List Message
  | 0, _ => []
  | fuel + 1, data =>
      if data = [] then []
      else .memwr addr (data.take maxChunk) ::
        stores (addr + UInt64.ofNat (data.take maxChunk).length) fuel (data.drop maxChunk)

namespace Call

def op : Call → Op
  | .attach pid => .attach pid.toNat
  | .detach pid => .detach pid.toNat
  | .kill pid => .kill pid.toNat
  | .select pid tid => .select pid.toNat tid.toNat
  | .readMemory addr size => .readMemory addr (size.val : Nat)
  | .writeMemory addr data => .writeMemory addr data
  | .readRegisters offset size => .readRegisters offset.toNat size.toNat
  | .writeRegisters offset data => .writeRegisters offset.toNat data
  | .setBreakpoint addr size => .setBreakpoint addr size.toInt
  | .clearBreakpoint addr => .clearBreakpoint addr

/-- What a call asks for. -/
def messages : Call → List Message
  | .attach pid => [.attach pid]
  | .detach pid => [.detach pid]
  | .kill pid => [.kill pid]
  | .select pid tid => [.select pid tid]
  | .readMemory addr size => if size = 0 then [] else [.memrd addr (UInt16.ofNat size)]
  | .writeMemory addr data => stores addr data.length data
  | .readRegisters offset size => [.regrd offset size]
  | .writeRegisters offset data => [.regwr offset data]
  | .setBreakpoint addr size => [.brk brkTypeExec addr size]
  | .clearBreakpoint addr => [.brk brkTypeExec addr (-1)]

def dataLength : Call → Nat
  | .writeMemory _ data | .writeRegisters _ data => data.length
  | _ => 0

theorem sum_dataLength_stores (addr : UInt64) {fuel : Nat} {data : Bytes} (h : data.length ≤ fuel) :
    ((stores addr fuel data).map Message.dataLength).sum = data.length := by
  induction fuel generalizing addr data with
  | zero =>
      obtain rfl := List.length_eq_zero_iff.mp (Nat.le_zero.mp h)
      rfl
  | succ fuel ih =>
      rw [stores]
      by_cases hdata : data = []
      · rw [if_pos hdata, hdata]
        rfl
      · have hpos := List.length_pos_iff.mpr hdata
        have hrest : (data.drop maxChunk).length ≤ fuel := by
          rw [List.length_drop, maxChunk]
          omega
        rw [if_neg hdata, List.map_cons, List.sum_cons, ih _ hrest, Message.dataLength,
          ← List.length_append, List.take_append_drop]

theorem sum_dataLength (call : Call) :
    (call.messages.map Message.dataLength).sum = call.dataLength := by
  cases call with
  | writeMemory addr data => exact sum_dataLength_stores addr le_rfl
  | readMemory addr size =>
      rw [messages]
      split <;> rfl
  | _ => rfl

/-! ## What a call sends -/

section Sending

open Client

variable {σ : Type} (P : Peer σ)

/-- A read of one chunk ends behind its request. -/
theorem readMemoryLoop_once {addr : UInt64} {n : Int} (hpos : 0 < n) (hle : n ≤ maxChunk)
    {c c' : Client σ} {r : Except Err Bytes} (hreq : (memrd P addr n []).run c = (r, c'))
    (fuel : Nat) :
    ∃ out err, (readMemoryLoop P addr n (fuel + 1) []).run c = ((out, err), c') ∧
      ∀ e, r = .error e → err = some e := by
  have hlt : (([] : Bytes).length : Int) < n := hpos
  cases r with
  | error e =>
      refine ⟨_, _, readMemoryLoop_failed hlt hreq fuel, ?_⟩
      rintro _ ⟨⟩
      rfl
  | ok reply =>
      by_cases hcode : respCode reply = respErr
      · exact ⟨_, _, readMemoryLoop_refused hlt hreq hcode fuel, nofun⟩
      · rcases Nat.lt_or_ge (respBody reply).length (wanted n []) with hshort | hfull
        · exact ⟨_, _, readMemoryLoop_short hlt hreq hcode hshort fuel, nofun⟩
        · have hdone : n ≤ ([] ++ (respBody reply).take (wanted n [])).length := by
            rw [List.nil_append, List.length_take, Nat.min_eq_left hfull, wanted]
            simp only [List.length_nil]
            omega
          refine ⟨_, _, (readMemoryLoop_next hlt hreq hcode hfull fuel).trans
            (readMemoryLoop_done hdone fuel), nofun⟩

theorem readMemory_sent (c : Client (σ × Bytes)) (addr : UInt64) (size : Fin (maxChunk + 1)) :
    Message.Sent P c ((Client.readMemory P.taped addr (size.val : Nat)).run c).2
      ((Client.readMemory P.taped addr (size.val : Nat)).run c).1.2
      (Call.readMemory addr size).messages := by
  have hle : size.val ≤ maxChunk := Nat.le_of_lt_succ size.isLt
  rw [messages]
  by_cases hzero : size = 0
  · rw [if_pos hzero, hzero]
    exact .nothing c
  · have hpos : 0 < size.val := Nat.pos_of_ne_zero fun h => hzero (Fin.ext h)
    obtain ⟨fuel, hfuel⟩ : ∃ fuel, size.val = fuel + 1 := ⟨size.val - 1, by omega⟩
    have hsize : (UInt16.ofNat size.val).toNat = size.val := by
      rw [UInt16.toNat_ofNat', Nat.mod_eq_of_lt (Nat.lt_of_le_of_lt hle (by decide))]
    have hwanted : wanted (size.val : Nat) [] = size.val := by
      rw [wanted, List.length_nil]
      omega
    have hreq : (transactSub P.taped cmdMemrd 0 (memrdBody addr (UInt16.ofNat size.val).toNat)).run c =
        (memrd P.taped addr (size.val : Nat) []).run c := by
      rw [Client.memrd, hwanted, hsize, List.length_nil, show addr + UInt64.ofNat 0 = addr from
        UInt64.add_zero addr]
      rfl
    rw [if_neg hzero]
    cases hrun : (transactSub P.taped cmdMemrd 0
        (memrdBody addr (UInt16.ofNat size.val).toNat)).run c with
    | mk r c' =>
        obtain ⟨out, err, hloop, herr⟩ := readMemoryLoop_once P.taped (n := (size.val : Nat))
          (by omega) (by omega) (hreq.symm.trans hrun) fuel
        have hread : (Client.readMemory P.taped addr (size.val : Nat)).run c = ((out, err), c') := by
          rw [Client.readMemory, Int.toNat_natCast]
          rw [hfuel] at hloop ⊢
          exact hloop
        rw [hread]
        exact Message.Sent.of_run (m := .memrd addr (UInt16.ofNat size.val)) hrun fun e he =>
          ⟨e, herr e he⟩

/-- The chunk behind the next one. -/
theorem drop_nextChunk (data : Bytes) (total : Nat) :
    data.drop (total + (nextChunk data total).length) = (data.drop total).drop maxChunk := by
  rw [List.drop_drop, nextChunk_length]
  rcases Nat.le_total maxChunk (data.length - total) with hle | hle
  · rw [Nat.min_eq_left hle]
  · rw [List.drop_eq_nil_of_le (by omega), List.drop_eq_nil_of_le (by omega)]

theorem writeMemoryLoop_sent (addr : UInt64) (data : Bytes) (fuel total : Nat)
    (c : Client (σ × Bytes)) (hfuel : data.length ≤ total + fuel) :
    Message.Sent P c ((writeMemoryLoop P.taped addr data fuel total).run c).2
      ((writeMemoryLoop P.taped addr data fuel total).run c).1.2
      (stores (addr + UInt64.ofNat total) fuel (data.drop total)) := by
  induction fuel generalizing total c with
  | zero => exact .nothing c
  | succ fuel ih =>
      rw [stores]
      rcases Nat.lt_or_ge total data.length with hlt | hge
      · have hne : data.drop total ≠ [] := fun h => absurd (List.drop_eq_nil_iff.mp h) (by omega)
        rw [if_neg hne]
        cases hrun : (transactSub P.taped cmdMemwr 0
            (memwrBody (addr + UInt64.ofNat total) (nextChunk data total))).run c with
        | mk r c₁ =>
            have htape := Message.Sent.tape_of_run
              (m := .memwr (addr + UInt64.ofNat total) (nextChunk data total)) hrun
            by_cases hr : ∃ reply, r = .ok reply ∧ respCode reply ≠ respErr
            · obtain ⟨reply, rfl, hcode⟩ := hr
              have hmid : c₁.mid = c.mid + 1 := by
                rw [← transactSub_mid P.taped cmdMemwr 0 _ c, hrun]
              have hrest := ih (total + (nextChunk data total).length) c₁ ?_
              · rw [UInt64.ofNat_add, ← UInt64.add_assoc, drop_nextChunk] at hrest
                rw [writeMemoryLoop_next hlt hcode hrun]
                obtain ⟨htape, ⟨⟨e, he⟩, -⟩ | ⟨p, -, hreply⟩⟩ := htape.resolve_left (by simp)
                · exact absurd he (by simp)
                · exact .cons hmid htape hreply hrest
              · rw [nextChunk_length, maxChunk]
                omega
            · have hfail : ∀ p, r = .ok p → respCode p = respErr := by
                intro p hp
                by_contra hcode
                exact hr ⟨p, hp, hcode⟩
              obtain ⟨e, hloop⟩ := writeMemoryLoop_stopped hlt hfail hrun fuel
              rw [hloop]
              rcases htape with ⟨-, hpeer, hrecv⟩ | ⟨htape, ⟨-, hreply⟩ | ⟨p, hp, hreply⟩⟩
              · exact .failed hpeer hrecv e _
              · exact .last htape (hreply.trans (List.append_nil _).symm) (.inl rfl) e
              · exact .last htape hreply (.inr ⟨_, rfl, hfail p hp⟩) e
      · rw [if_pos (List.drop_eq_nil_of_le hge), writeMemoryLoop_done hge]
        exact .nothing c

/-- The conversion of an `int` that holds a `uint32`. -/
theorem uint32_toNat (v : UInt32) : uint32 (v.toNat : Int) = v.toNat := by
  have := v.toNat_lt
  rw [uint32]
  omega

theorem uint16_toNat (v : UInt16) : uint16 (v.toNat : Int) = v.toNat := by
  have := v.toNat_lt
  rw [uint16]
  omega

theorem exec_sent (call : Call) (c : Client (σ × Bytes)) :
    Message.Sent P c ((call.op.exec P.taped).run c).2 ((call.op.exec P.taped).run c).1.2
      call.messages := by
  cases call with
  | attach pid => exact .acked P c (.attach pid) (congrArg le32 (uint32_toNat pid)) _
  | detach pid => exact .acked P c (.detach pid) (congrArg le32 (uint32_toNat pid)) _
  | kill pid => exact .acked P c (.kill pid) (congrArg le32 (uint32_toNat pid)) _
  | select pid tid =>
      refine .acked P c (.select pid tid) ?_ _
      rw [pidTidBody, uint32_toNat, uint32_toNat]
      rfl
  | readMemory addr size => exact readMemory_sent P c addr size
  | writeMemory addr data =>
      have h := writeMemoryLoop_sent P addr data data.length 0 c (by omega)
      rw [List.drop_zero, show addr + UInt64.ofNat 0 = addr from UInt64.add_zero addr] at h
      exact h
  | readRegisters offset size =>
      refine .fetched P c (.regrd offset size) ?_ _
      rw [uint16_toNat, uint16_toNat]
      rfl
  | writeRegisters offset data =>
      refine .acked P c (.regwr offset data) ?_ _
      rw [uint16_toNat]
      rfl
  | setBreakpoint addr size => exact .acked P c (.brk brkTypeExec addr size) rfl _
  | clearBreakpoint addr => exact .acked P c (.brk brkTypeExec addr (-1)) rfl _

end Sending

/-- **One layout.** Whatever is at the other end, what a call puts on the wire are
frames of payloads. Each of them reads, to the annotator and, where it looks at the
body, to the mock agent, as the message that the call stands for, with the numbers that
were passed in. All messages go out unless the call fails, because the target does not
take the next one or has not answered the last one well; and the messages of a write
carry all of its data. -/
theorem layouts_agree {σ : Type} (P : Peer σ) (call : Call) (c : Client (σ × Bytes)) :
    let out := (call.op.exec P.taped).run c
    ∃ ps : List Bytes, out.2.peer.2 = c.peer.2 ++ ps.flatMap frame ∧
      ps.length ≤ call.messages.length ∧
      (∀ (i : Nat) p, ps[i]? = some p → ∃ m, call.messages[i]? = some m ∧
        m.ReadAs (c.mid + UInt8.ofNat (i + 1)) p) ∧
      (ps.length = call.messages.length ∨ (∃ e, out.1.2 = some e) ∧
        ((∃ m p, call.messages[ps.length]? = some m ∧
            m.ReadAs (c.mid + UInt8.ofNat (ps.length + 1)) p ∧
            P.recv out.2.peer.1 (frame p) = none) ∨
          Message.Unanswered c out.2 ps.length)) ∧
      (call.messages.map Message.dataLength).sum = call.dataLength := by
  intro out
  obtain ⟨k, hk, htape, hall⟩ := exec_sent P call c
  have hread : ∀ (i : Nat) p, (Message.payloads c.mid call.messages)[i]? = some p →
      ∃ m, call.messages[i]? = some m ∧ m.ReadAs (c.mid + UInt8.ofNat (i + 1)) p := by
    intro i p hp
    rw [Message.getElem_payloads] at hp
    obtain ⟨m, hm, rfl⟩ := Option.map_eq_some_iff.mp hp
    exact ⟨m, hm, m.readAs_payload _⟩
  have hlen : ((Message.payloads c.mid call.messages).take k).length = k := by
    rw [List.length_take, Message.length_payloads, Nat.min_eq_left hk]
  refine ⟨_, htape, ?_, ?_, ?_, call.sum_dataLength⟩
  · rw [hlen]
    exact hk
  · intro i p hp
    rw [List.getElem?_take] at hp
    split at hp
    · exact hread i p hp
    · exact absurd hp (by simp)
  · rw [hlen]
    refine hall.imp_right (And.imp_right (Or.imp_left ?_))
    rintro ⟨p, hp, hrecv⟩
    obtain ⟨m, hm, hreads⟩ := hread k p hp
    exact ⟨m, p, hm, hreads, hrecv⟩

/-- A breakpoint is removed by its sign, not by its address. -/
example : (Message.brk brkTypeExec 0x1000 (-1)).text =
    ascii "BRK remove addr=0x1000 size=-1" := by
  decide +kernel

end Call

end QconnMcp.Qnxdbg
