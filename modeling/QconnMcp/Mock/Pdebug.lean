import QconnMcp.Qnxdbg.Exchange

/-!
# The mock pdebug agent

`ServeDSMSG` of `internal/mockqnx/dsmsg.go`: one debug connection served by the
mock, with its own copy of the framing code. It greets with a reset frame, skips
frames that are too short for a header, and answers every other one with a reply
that carries the message id of the request; a Run request is followed by a stop
notification for the process attached or loaded last.
-/

namespace QconnMcp.Mock

open Kit Qnxdbg

/-! ## Framing -/

def fc : UInt8 := 0x7e

/-- The code of `esc` and of the loop that undoes it. -/
def mockStuffing : Stuffing where
  delim := fc
  esc := 0x7d
  mask := 0x20
  delim_ne_esc := by decide
  delim_masked := by decide
  esc_masked := by decide

def cksum (b : Bytes) : UInt8 := 0xff - b.foldl (· + ·) 0

def esc (b : Bytes) : Bytes := mockStuffing.escape b

def writeFrame (payload : Bytes) : Bytes := fc :: (esc payload ++ esc [cksum payload] ++ [fc])

/-- `readFrame` on a content: the checksum is stripped, not compared. -/
def readFrame (content : Bytes) : Option Bytes :=
  if mockStuffing.unescape content = [] then none
  else some (mockStuffing.unescape content).dropLast

/-! ## Requests -/

/-- What the agent keeps between requests. -/
structure Pdebug where
  attachedPID : Nat
  brkAddr : Nat
  deriving DecidableEq, Repr

def Pdebug.start : Pdebug := ⟨0x1000, 0⟩

/-- `reply`. -/
def reply (code mid : UInt8) (body : Bytes) : Bytes := [code, 0x00, mid, 0x01] ++ body

def appendLE32 (b : Bytes) (v : Nat) : Bytes := b ++ leBytes 4 v

def appendLE64 (b : Bytes) (v : Nat) : Bytes := b ++ leBytes 8 v

/-- A number read from a slice of the body. -/
def field (body : Bytes) (off n : Nat) : Nat := leNat ((body.drop off).take n)

namespace Pdebug

/-- The bytes of the synthetic memory. -/
def memory (addr size : Nat) : Bytes := (List.range size).map fun i => UInt8.ofNat (addr + i)

/-- The register block: zeros, with the program counter at its offset. -/
def regs : Bytes := overwrite (List.replicate 0x110 0) 0x100 (leBytes 8 0x4000)

/-- The data for a Memrd body. -/
def memrd (body : Bytes) : Bytes :=
  if 14 ≤ body.length then memory (field body 4 8) (field body 12 2) else []

/-- A Brk body: a negative size removes the breakpoint. -/
def brk (s : Pdebug) (body : Bytes) : Pdebug :=
  if 12 ≤ body.length then
    if 2 ^ 31 ≤ field body 0 4 then { s with brkAddr := 0 }
    else { s with brkAddr := field body 4 8 }
  else s

/-- The notification behind a Run request. -/
def stopped (s : Pdebug) (mid : UInt8) : Bytes :=
  let ip := if s.brkAddr = 0 then 0x4000 else s.brkAddr
  [0x40, 0x00, mid, 0x01] ++ appendLE64 (appendLE32 (appendLE32 [] s.attachedPID) 1) ip

/-- The switch of the loop: the next state, and the payloads that are sent. -/
def request (s : Pdebug) (cmd mid : UInt8) (body : Bytes) : Pdebug × List Bytes :=
  match cmd with
  | 0 => (s, [reply 0x22 mid [0x20, 0x04, 0x00, 0x00]])
  | 23 => (s, [reply 0x22 mid [0x01, 0x03, 0x00, 0x00]])
  | 27 =>
      let seg := appendLE32 [] s.attachedPID ++ appendLE32 [] 0
      (s, [reply 0x23 mid (appendLE64 (appendLE64 seg 0x400000) 0x1000)])
  | 24 => (s, [reply 0x21 mid []])
  | 21 => (s, [reply 0x21 mid []])
  | 4 =>
      ({ s with attachedPID := 0x2000 },
        [reply 0x23 mid (appendLE32 [] 0x2000 ++ appendLE32 [] 1 ++ ascii "mockproc")])
  | 5 =>
      ((if 4 ≤ body.length then { s with attachedPID := field body 0 4 } else s),
        [reply 0x23 mid (List.replicate 8 0 ++ ascii "mockproc")])
  | 2 => (s, [reply 0x21 mid []])
  | 11 => (s, [reply 0x23 mid regs])
  | 12 => (s, [reply 0x21 mid []])
  | 9 => (s, [reply 0x23 mid (memrd body)])
  | 10 => (s, [reply 0x21 mid []])
  | 14 => (s.brk body, [reply 0x21 mid []])
  | 13 => (s, [reply 0x21 mid [], s.stopped mid])
  | 6 => (s, [reply 0x21 mid []])
  | 8 => (s, [reply 0x21 mid []])
  | _ => (s, [reply 0x20 mid [0x16, 0, 0, 0]])

/-- One round of the loop. -/
def serve (s : Pdebug) (p : Bytes) : Pdebug × List Bytes :=
  match p with
  | cmd :: _ :: mid :: _ :: body => s.request cmd mid body
  | _ => (s, [])

/-- One content from the connection. An empty one would end the session, but a
content has a byte at least. -/
def handle (s : Pdebug) (content : Bytes) : Pdebug × Bytes :=
  match readFrame content with
  | none => (s, [])
  | some p => ((s.serve p).1, (s.serve p).2.flatMap writeFrame)

end Pdebug

/-- `ServeDSMSG` behind its connection, after the reset frame. -/
def serveDSMSG : Peer (Served Pdebug) := mockStuffing.toPeer Pdebug.handle

/-- What `ServeDSMSG` sends before it reads. -/
def reset : Bytes := writeFrame [0x00]

/-! ## The two codecs -/

theorem writeFrame_eq_frame : writeFrame = frame := rfl

/-- What the client frames, the agent reads back. -/
theorem readFrame_escape (p : Bytes) :
    readFrame (mockStuffing.escape (p ++ [checksum p])) = some p := by
  simp [readFrame, mockStuffing.unescape_escape]

theorem recv_frame (s : Pdebug) (p : Bytes) :
    serveDSMSG.recv ⟨s, []⟩ (frame p) =
      some (⟨(s.serve p).1, []⟩, (s.serve p).2.flatMap frame) := by
  have hrecv := mockStuffing.recv_framed Pdebug.handle (mockStuffing.delim_not_mem_escape _)
    (escape_checked_ne_nil p) s
  rw [Pdebug.handle, readFrame_escape, writeFrame_eq_frame] at hrecv
  rw [frame_eq]
  exact hrecv

/-! ## What the agent answers -/

namespace Pdebug

theorem stopped_isNotice (s : Pdebug) (mid : UInt8) : IsNotice (s.stopped mid) :=
  ⟨not_aside_message 0x40 0 mid _, rfl⟩

/-- Every request gets one reply, and a Run request a notification behind it. -/
theorem request_replies (s : Pdebug) (cmd mid : UInt8) (body : Bytes) :
    ∃ code data, code ≠ respNotify ∧
      (s.request cmd mid body).2 =
        reply code mid data :: if cmd = cmdRun then [s.stopped mid] else [] := by
  unfold request
  split
  case h_17 =>
    have hrun : cmd ≠ cmdRun := ‹cmd = 13 → False›
    exact ⟨0x20, _, by decide, by rw [if_neg hrun]⟩
  all_goals
    refine ⟨_, _, ?_, rfl⟩
    decide

/-- The agent reads the address and the size that the client has sent. -/
theorem memrd_memrdBody (addr : UInt64) {want : Nat} (hwant : want < 2 ^ 16) :
    memrd (memrdBody addr want) = memory addr.toNat want := by
  obtain ⟨haddr, hsize, hlen⟩ := memrdBody_fields addr hwant
  rw [memrd, if_pos (by omega), field, field, haddr, hsize]

/-- Only Attach and Load change the process. -/
theorem request_attachedPID (s : Pdebug) {cmd : UInt8} (hattach : cmd ≠ cmdAttach)
    (hload : cmd ≠ cmdLoad) (mid : UInt8) (body : Bytes) :
    (s.request cmd mid body).1.attachedPID = s.attachedPID := by
  unfold request
  split
  case h_6 => exact absurd rfl hload
  case h_7 => exact absurd rfl hattach
  case h_13 =>
    show (s.brk body).attachedPID = _
    unfold brk
    split
    · split <;> rfl
    · rfl
  all_goals rfl

end Pdebug

/-- No frame at all. -/
def NoFrame (_ : Bytes) : Prop := False

/-- The mock answers in order, with nothing beside its replies and
notifications. -/
theorem serveDSMSG_answers {I J : Served Pdebug → Prop} (hI : ∀ s, I s → s.pending = [])
    {cmd subcmd : UInt8} {body : Bytes}
    (hJ : ∀ s mid, I ⟨s, []⟩ → J ⟨(s.request cmd mid body).1, []⟩) :
    Answered serveDSMSG I J (Orderly NoFrame cmd) cmd subcmd body := by
  intro t mid ht
  obtain ⟨s, pending⟩ := t
  obtain rfl : pending = [] := hI _ ht
  obtain ⟨code, data, hcode, hout⟩ := s.request_replies cmd mid body
  have hrecv := recv_frame s (message cmd subcmd mid body)
  rw [show s.serve (message cmd subcmd mid body) = s.request cmd mid body from rfl, hout] at hrecv
  refine .inr ⟨_, [], reply code mid data, _, hrecv, hJ s mid ht,
    isReply_message hcode 0 mid data, nofun, ?_⟩
  split
  · rename_i hrun
    exact .inr ⟨hrun, [], s.stopped mid, [], rfl, nofun, s.stopped_isNotice mid, nofun⟩
  · exact .inl nofun

end QconnMcp.Mock
