import QconnMcp.Debug.Rsp

/-!
# The mock RSP stub

`internal/mockqnx/rsp.go`: the stub that stands in for pdebug, with its own copy
of the packet code. It acknowledges every packet without comparing its check
digits, hands the payload to a handler, and never sends anything twice. Against
the client, every payload arrives and every reply comes back unchanged
(`commands_round_trip`), whatever bytes they are made of.
-/

namespace QconnMcp.Mock

open Kit

/-! ## Codec -/

def rspEscape (p : Bytes) : Bytes :=
  p.flatMap fun b => if b = 36 ∨ b = 35 ∨ b = 125 ∨ b = 42 then [125, b ^^^ 0x20] else [b]

/-- A `}` at the very end stands for itself; run lengths are not expanded. -/
def rspDecode : Bytes → Bytes
  | [] => []
  | [b] => [b]
  | b :: n :: rest => if b = 125 then (n ^^^ 0x20) :: rspDecode rest else b :: rspDecode (n :: rest)

def hexDigit (b : UInt8) : UInt8 := digitByte (b.toNat % 16)

/-- `rspWrite`. -/
def rspWrite (payload : Bytes) : Bytes :=
  let body := rspEscape payload
  let sum := body.foldl (· + ·) 0
  Packet.wire body (hexDigit (sum >>> 4)) (hexDigit (sum &&& 0xf))

/-! ## The loop -/

/-- One connection. `log` is a ghost: the payloads handed to the handler. -/
structure RspStub where
  isOpen : Bool
  log : List Bytes
  deriving DecidableEq, Repr

/-- `handleRSP` with a handler in the place of `rspHandle`; `none` is its
`closeConn`. Over TCP a connection closed at the far end takes the first write, the reset
comes in answer to it. -/
def handleRSP (handler : Bytes → Option Bytes) (lingers : Bytes → Bool := List.isEmpty) :
    PacketDaemon RspStub where
  isOpen := RspStub.isOpen
  handle s raw _ _ :=
    let payload := rspDecode raw
    match handler payload with
    | none => (⟨false, s.log ++ [payload]⟩, [Packet.ack])
    | some resp => (⟨s.isOpen, s.log ++ [payload]⟩, Packet.ack :: rspWrite resp)
  again s := (s, [])
  lingers := lingers

/-! ## The two codecs -/

theorem rspEscape_eq_escape (p : Bytes) : rspEscape p = Debug.escape p := by
  simp only [rspEscape, Debug.escape, Debug.isSpecial_iff]

theorem rspDecode_escaped (n : UInt8) (rest : Bytes) :
    rspDecode (125 :: n :: rest) = (n ^^^ 0x20) :: rspDecode rest := by
  rw [rspDecode, if_pos rfl]

theorem rspDecode_plain {b : UInt8} (hb : b ≠ 125) (rest : Bytes) :
    rspDecode (b :: rest) = b :: rspDecode rest := by
  cases rest with
  | nil => rfl
  | cons n rest => rw [rspDecode, if_neg hb]

/-- The stub decodes what the client escaped. -/
theorem rspDecode_escape (p : Bytes) : rspDecode (Debug.escape p) = p := by
  induction p with
  | nil => rfl
  | cons b p ih =>
      rw [Debug.escape, List.flatMap_cons]
      by_cases hb : Debug.isSpecial b = true
      · rw [if_pos hb, List.cons_append, List.singleton_append, rspDecode_escaped]
        show _ :: rspDecode (Debug.escape p) = _
        rw [ih, UInt8.xor_assoc, UInt8.xor_self, UInt8.xor_zero]
      · have hplain := fun h => hb (Debug.isSpecial_iff.mpr h)
        rw [if_neg hb, List.singleton_append, rspDecode_plain (by tauto)]
        show _ :: rspDecode (Debug.escape p) = _
        rw [ih]

/-- Both ends write the same packet for a payload. -/
theorem rspWrite_eq_frame (p : Bytes) : rspWrite p = Debug.frame p := by
  have hhi : ∀ sum : UInt8, hexDigit (sum >>> 4) = (Debug.hexByte sum).1 := by
    intro sum
    have hlt := sum.toNat_lt
    rw [hexDigit, Debug.hexByte, UInt8.toNat_shiftRight]
    simp only [UInt8.reduceToNat, Nat.reduceMod, Nat.shiftRight_eq_div_pow]
    rw [Nat.mod_eq_of_lt (by omega)]
  have hlo : ∀ sum : UInt8, hexDigit (sum &&& 0xf) = (Debug.hexByte sum).2 := by
    intro sum
    rw [hexDigit, Debug.hexByte, UInt8.toNat_and]
    simp only [UInt8.reduceToNat]
    rw [show 15 = 2 ^ 4 - 1 from rfl, Nat.and_two_pow_sub_one_eq_mod, Nat.mod_mod]
  show Packet.wire (rspEscape p) _ _ = _
  rw [hhi, hlo, rspEscape_eq_escape]
  rfl

/-! ## Commands against the stub -/

section RoundTrip

open Debug

variable (h : Bytes → Bytes)

/-- The stub with a handler that always replies. -/
def replying : Peer (Served RspStub) := (handleRSP fun p => some (h p)).toPeer

/-- The client and the stub between two commands: nothing is unread on either
side, and the payloads `log` have been handled. -/
def between (log : List Bytes) : RSP (Served RspStub) := RSP.new (replying h) ⟨⟨true, log⟩, []⟩

theorem recv_command (log : List Bytes) (p : Bytes) :
    (replying h).recv ⟨⟨true, log⟩, []⟩ (frame p) =
      some (⟨⟨true, log ++ [p]⟩, []⟩, Packet.ack :: frame (h p)) := by
  rw [frame, replying, PacketDaemon.recv_packet rfl (escape_framed p)]
  simp only [handleRSP, rspDecode_escape, rspWrite_eq_frame]

theorem command_between (log : List Bytes) (p : Bytes) :
    (RSP.command (replying h) p).run (between h log) = (.ok (h p), between h (log ++ [p])) := by
  have hsend := RSP.sendPacket_acked (P := replying h) (r := between h log) [] rfl
    (recv_command h log p) nofun rfl
  -- the reply is all there is to read, and its acknowledgement is skipped
  have hnext := next_frame List.not_mem_nil (h p) []
  rw [List.nil_append, List.append_nil] at hnext
  have hread := RSP.readPacket_intact (P := replying h)
    (r := { between h (log ++ [p]) with inp := frame (h p) }) rfl hnext
    (checkDigits_hexByte _).symm (PacketDaemon.recv_ack rfl)
  rw [RSP.command, run_bind, hsend]
  show (RSP.readPacket (replying h)).run { between h (log ++ [p]) with inp := frame (h p) } = _
  rw [hread, decode_escape]
  rfl

theorem commands_between (log ps : List Bytes) :
    (RSP.commands (replying h) ps).run (between h log) =
      (ps.map fun p => .ok (h p), between h (log ++ ps)) := by
  induction ps generalizing log with
  | nil =>
      rw [List.append_nil]
      rfl
  | cons p ps ih =>
      rw [RSP.commands_cons, command_between, ih, List.append_assoc]
      rfl

/-- **Round trip.** Whatever the payloads and whatever the handler: it gets every
request unchanged, in order and once, every `Command` returns its reply, and no
byte is left over on either side. -/
theorem commands_round_trip (ps : List Bytes) :
    (RSP.commands (replying h) ps).run (between h []) =
      (ps.map fun p => .ok (h p), between h ps) :=
  commands_between h [] ps

end RoundTrip

end QconnMcp.Mock
