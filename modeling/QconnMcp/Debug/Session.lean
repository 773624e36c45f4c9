import Mathlib.Data.List.AList
import QconnMcp.Debug.Acceptance

/-!
# Debug sessions

`Session` of `internal/debug/session.go`: memory reads and the calls that wait for a
stop, over any stub at the other end. What the stub replies is text from the wire.
Hexadecimal text is decoded digit by digit with `fromHex`, so bytes that are no
digits come out as zeros (`hex_text_iff`); a stop reply is sliced behind its third
byte, which a truncated one does not have (`stop_replies_safe_iff`).

An index or a slice out of range is the outcome `panicked`.
-/

namespace QconnMcp.Debug

open Kit

/-! ## Hexadecimal text -/

inductive SessionErr where
  | rsp (e : Err)
  /-- `odd-length hex %q` -/
  | oddHex (s : Bytes)
  /-- `read memory @%#x: %s` -/
  | readMemory (addr : UInt64) (resp : Bytes)
  | panicked
  deriving DecidableEq, Repr

def hexEncode (b : Bytes) : Bytes := b.flatMap fun c => [(hexByte c).1, (hexByte c).2]

/-- The loop of `hexDecode`, one byte for two digits. -/
def hexPairs : Bytes → Bytes
  | hi :: lo :: rest => checkDigits hi lo :: hexPairs rest
  | _ => []

def hexDecode (s : Bytes) : Except SessionErr Bytes :=
  if s.length % 2 ≠ 0 then .error (.oddHex s) else .ok (hexPairs s)

/-! ## Stop replies -/

structure StopReply where
  signal : Int
  thread : Bytes
  values : AList fun _ : Bytes => Bytes
  raw : Bytes

def isError (resp : Bytes) : Bool := resp.length == 3 && resp.head? == some 69

/-- The two digits behind the letter; two bytes cannot exceed 32 bits. -/
def stopSignal (resp : Bytes) : Int :=
  if 3 ≤ resp.length then
    match parseInt 16 ((resp.drop 1).take 2) with
    | (v, none) => v
    | (_, some _) => 0
  else 0

/-- One round of the loop over the pairs of a `T` packet. -/
def addPair (sr : StopReply) (kv : Bytes) : StopReply :=
  if kv = [] then sr
  else
    match cut 58 kv with
    | some (k, v) =>
        { sr with
          thread := if k = ascii "thread" then v else sr.thread
          values := sr.values.insert k v }
    | none => sr

/-- `parseStop`; `none` when a slice is out of range. -/
def parseStop (resp : Bytes) : Option StopReply :=
  match resp with
  | [] => some ⟨0, [], ∅, resp⟩
  | kind :: _ =>
      if kind = 83 ∨ kind = 84 ∨ kind = 88 ∨ kind = 87 then
        let sr : StopReply := ⟨stopSignal resp, [], ∅, resp⟩
        if kind = 84 then
          -- `resp[3:]`, also where the digits were found missing
          if resp.length < 3 then none else some (((resp.drop 3).splitOn 59).foldl addPair sr)
        else some sr
      else some ⟨0, [], ∅, resp⟩

/-- What a caller of `parseStop` returns. -/
def stopResult (resp : Bytes) : Except SessionErr StopReply :=
  match parseStop resp with
  | none => .error .panicked
  | some sr => .ok sr

/-! ## Sessions -/

structure Session (σ : Type) where
  rsp : RSP σ
  pid : Int

abbrev SessionAct (σ α : Type) := StateM (Session σ) α

namespace Session

variable {σ : Type} (P : Peer σ)

/-- `s.rsp.Command`. -/
def command (payload : Bytes) : SessionAct σ (Except Err Bytes) := fun s =>
  (((RSP.command P payload).run s.rsp).1, { s with rsp := ((RSP.command P payload).run s.rsp).2 })

def setPid (pid : Int) : SessionAct σ Unit := fun s => ((), { s with pid := pid })

/-- A command whose reply is a stop packet. -/
def query (payload : Bytes) : SessionAct σ (Except SessionErr StopReply) := do
  match ← command P payload with
  | .error e => pure (.error (.rsp e))
  | .ok resp => pure (stopResult resp)

/-- `Status`. -/
def status : SessionAct σ (Except SessionErr StopReply) := query P (ascii "?")

/-- `Continue`. -/
def cont : SessionAct σ (Except SessionErr StopReply) := query P (ascii "c")

/-- `Step`. -/
def step : SessionAct σ (Except SessionErr StopReply) := query P (ascii "s")

def attachCmd (pid : Int) : Bytes := ascii "vAttach;" ++ fmtInt 16 pid

def selectCmd (pid : Int) : Bytes := ascii "Hg p" ++ fmtInt 16 pid ++ ascii ".0"

/-- `Attach`. -/
def attach (pid : Int) : SessionAct σ (Except SessionErr StopReply) := do
  match ← command P (attachCmd pid) with
  | .error e => pure (.error (.rsp e))
  | .ok resp =>
      if isError resp ∨ resp = [] then
        -- select the process and ask for its status instead
        let _ ← command P (selectCmd pid)
        match ← command P (ascii "?") with
        | .error e => pure (.error (.rsp e))
        | .ok resp =>
            setPid pid
            pure (stopResult resp)
      else
        setPid pid
        pure (stopResult resp)

def readMemoryCmd (addr : UInt64) (length : Int) : Bytes :=
  ascii "m" ++ fmtNat 16 addr.toNat ++ ascii "," ++ fmtInt 16 length

/-- `ReadMemory`. -/
def readMemory (addr : UInt64) (length : Int) : SessionAct σ (Except SessionErr Bytes) := do
  match ← command P (readMemoryCmd addr length) with
  | .error e => pure (.error (.rsp e))
  | .ok resp =>
      if isError resp then pure (.error (.readMemory addr resp)) else pure (hexDecode resp)

end Session

/-! ## Digits and bytes -/

/-- Lower case of an ASCII letter. -/
def lower (b : UInt8) : UInt8 := if 65 ≤ b ∧ b ≤ 90 then b + 32 else b

/-- Hexadecimal text for whole bytes. -/
def IsHex (s : Bytes) : Prop := s.length % 2 = 0 ∧ ∀ b ∈ s, isHexDigit b = true

theorem digitByte_fromHex {b : UInt8} (h : isHexDigit b = true) :
    digitByte (fromHex b) = lower b := by
  have hall : ∀ n < 256, isHexDigit (UInt8.ofNat n) = true →
      digitByte (fromHex (UInt8.ofNat n)) = lower (UInt8.ofNat n) := by
    decide +kernel
  have hb := hall b.toNat b.toNat_lt
  rw [UInt8.ofNat_toNat] at hb
  exact hb h

theorem hexByte_checkDigits (hi lo : UInt8) :
    hexByte (checkDigits hi lo) = (digitByte (fromHex hi), digitByte (fromHex lo)) := by
  have hlo := fromHex_lt lo
  rw [hexByte, toNat_checkDigits, show (16 * fromHex hi + fromHex lo) / 16 = fromHex hi by omega,
    show (16 * fromHex hi + fromHex lo) % 16 = fromHex lo by omega]

theorem hexPairs_hexEncode (b : Bytes) : hexPairs (hexEncode b) = b := by
  induction b with
  | nil => rfl
  | cons c b ih =>
      show checkDigits (hexByte c).1 (hexByte c).2 :: hexPairs (hexEncode b) = _
      rw [checkDigits_hexByte, ih]

theorem length_hexEncode (b : Bytes) : (hexEncode b).length = 2 * b.length := by
  induction b with
  | nil => rfl
  | cons c b ih =>
      show (hexEncode b).length + 1 + 1 = _
      rw [ih, List.length_cons]
      omega

theorem hexDecode_hexEncode (b : Bytes) : hexDecode (hexEncode b) = .ok b := by
  rw [hexDecode, if_neg (by rw [length_hexEncode]; omega), hexPairs_hexEncode]

/-- Digits come back in lower case. -/
theorem hexEncode_hexPairs : ∀ {s : Bytes}, IsHex s → hexEncode (hexPairs s) = s.map lower
  | [], _ => rfl
  | [x], h => absurd h.1 (by simp)
  | hi :: lo :: rest, ⟨heven, hdigits⟩ => by
      have hrest : IsHex rest := by
        rw [List.length_cons, List.length_cons] at heven
        refine ⟨by omega, ?_⟩
        intro b hb
        exact hdigits b (List.mem_cons_of_mem _ (List.mem_cons_of_mem _ hb))
      have hhi := digitByte_fromHex (hdigits hi List.mem_cons_self)
      have hlo := digitByte_fromHex (hdigits lo (List.mem_cons_of_mem _ List.mem_cons_self))
      show (hexByte (checkDigits hi lo)).1 :: (hexByte (checkDigits hi lo)).2 ::
        hexEncode (hexPairs rest) = _
      rw [hexByte_checkDigits, hexEncode_hexPairs hrest, hhi, hlo]
      rfl

theorem hexDecode_ok_iff {s : Bytes} : (∃ b, hexDecode s = .ok b) ↔ s.length % 2 = 0 := by
  rw [hexDecode]
  by_cases heven : s.length % 2 = 0
  · rw [if_neg (not_not.mpr heven)]
    exact iff_of_true ⟨_, rfl⟩ heven
  · rw [if_pos heven]
    refine iff_of_false ?_ heven
    rintro ⟨b, hb⟩
    cases hb

/-- `hexDecode` accepts `s` exactly when it is hexadecimal text, and then keeps it. -/
def HexFaithful (s : Bytes) : Prop :=
  ((∃ b, hexDecode s = .ok b) ↔ IsHex s) ∧ ∀ b, hexDecode s = .ok b → hexEncode b = s.map lower

theorem hexFaithful_iff (s : Bytes) :
    HexFaithful s ↔ (s.length % 2 = 0 → ∀ b ∈ s, isHexDigit b = true) := by
  refine ⟨?_, ?_⟩
  · rintro ⟨haccept, -⟩ heven
    exact (haccept.mp (hexDecode_ok_iff.mpr heven)).2
  · intro hdigits
    refine ⟨?_, ?_⟩
    · rw [hexDecode_ok_iff]
      exact ⟨fun heven => ⟨heven, hdigits heven⟩, And.left⟩
    · intro b hb
      have heven := hexDecode_ok_iff.mp ⟨b, hb⟩
      rw [hexDecode, if_neg (not_not.mpr heven)] at hb
      cases hb
      exact hexEncode_hexPairs ⟨heven, hdigits heven⟩

/-! ## Memory reads -/

namespace Session

variable {σ : Type} (P : Peer σ) (s : Session σ)

/-- The stub's reply to a command. -/
def reply? (payload : Bytes) : Option Bytes := ((command P payload).run s).1.toOption

theorem readMemory_eq (addr : UInt64) (length : Int) :
    ((readMemory P addr length).run s).1 =
      match ((command P (readMemoryCmd addr length)).run s).1 with
      | .error e => .error (.rsp e)
      | .ok resp => if isError resp then .error (.readMemory addr resp) else hexDecode resp := by
  rw [readMemory, run_bind]
  cases ((command P (readMemoryCmd addr length)).run s).1 with
  | error e => rfl
  | ok resp =>
      dsimp only
      split <;> rfl

/-- Memory contents come from a reply of even length, as it is. -/
theorem readMemory_ok_iff (addr : UInt64) (length : Int) (data : Bytes) :
    ((readMemory P addr length).run s).1 = .ok data ↔
      ∃ resp, s.reply? P (readMemoryCmd addr length) = some resp ∧ resp.length % 2 = 0 ∧
        data = hexPairs resp := by
  rw [readMemory_eq, reply?]
  cases ((command P (readMemoryCmd addr length)).run s).1 with
  | error e => simp [Except.toOption]
  | ok resp =>
      simp only [Except.toOption, Option.some.injEq, exists_eq_left']
      by_cases herror : isError resp = true
      · -- an error reply has three bytes
        have hlen : resp.length = 3 := by
          simp only [isError, Bool.and_eq_true, beq_iff_eq] at herror
          exact herror.1
        rw [if_pos herror]
        simp [hlen]
      · rw [if_neg herror, hexDecode]
        by_cases heven : resp.length % 2 = 0
        · rw [if_neg (not_not.mpr heven)]
          simp [heven, eq_comm]
        · rw [if_pos heven]
          simp [heven]

/-- Every reply that is returned as memory contents is hexadecimal text. -/
def ReadsHex (addr : UInt64) (length : Int) : Prop :=
  ∀ data, ((readMemory P addr length).run s).1 = .ok data →
    ∃ resp, s.reply? P (readMemoryCmd addr length) = some resp ∧ IsHex resp

theorem readsHex_iff (addr : UInt64) (length : Int) :
    s.ReadsHex P addr length ↔ ∀ resp, s.reply? P (readMemoryCmd addr length) = some resp →
      resp.length % 2 = 0 → ∀ b ∈ resp, isHexDigit b = true := by
  refine ⟨?_, ?_⟩
  · intro h resp hreply heven
    obtain ⟨resp', hreply', hhex⟩ :=
      h (hexPairs resp) ((readMemory_ok_iff P s addr length _).mpr ⟨resp, hreply, heven, rfl⟩)
    rw [hreply] at hreply'
    cases hreply'
    exact hhex.2
  · intro h data hdata
    obtain ⟨resp, hreply, heven, -⟩ := (readMemory_ok_iff P s addr length data).mp hdata
    exact ⟨resp, hreply, heven, h resp hreply heven⟩

end Session

/-- **Where only hexadecimal text is decoded.** `hexDecode` accepts a string exactly
when it is hexadecimal, and `hexEncode` gives it back in lower case, exactly for
strings that have an odd length or no byte but digits; encoded bytes always come
back; and a memory read takes nothing but hexadecimal text for memory exactly when
the reply to it is such a string. -/
theorem hex_text_iff (text data : Bytes) {σ : Type} (P : Peer σ) (s : Session σ) (addr : UInt64)
    (length : Int) :
    (HexFaithful text ↔ (text.length % 2 = 0 → ∀ b ∈ text, isHexDigit b = true)) ∧
    hexDecode (hexEncode data) = .ok data ∧
    (s.ReadsHex P addr length ↔ ∀ resp, s.reply? P (Session.readMemoryCmd addr length) = some resp →
      resp.length % 2 = 0 → ∀ b ∈ resp, isHexDigit b = true) :=
  ⟨hexFaithful_iff text, hexDecode_hexEncode data, Session.readsHex_iff P s addr length⟩

/-- The reply `OK` to a memory read is a zero byte of memory. -/
theorem hex_text_ok :
    let s : Session Unit := ⟨⟨ascii "+$OK#9a", .eof, (), false⟩, 0⟩
    hexDecode (ascii "OK") = .ok [0] ∧ ¬ HexFaithful (ascii "OK") ∧
      ((Session.readMemory silent 0x1000 1).run s).1 = .ok [0] ∧ ¬ s.ReadsHex silent 0x1000 1 := by
  intro s
  have hreply : s.reply? silent (Session.readMemoryCmd 0x1000 1) = some (ascii "OK") := by
    decide +kernel
  have hletter : ¬ ∀ b ∈ ascii "OK", isHexDigit b = true := by decide
  refine ⟨by decide, ?_, by decide +kernel, ?_⟩
  · rw [hexFaithful_iff]
    exact fun h => hletter (h rfl)
  · rw [Session.readsHex_iff]
    exact fun h => hletter (h _ hreply rfl)

/-! ## Truncated stop replies -/

/-- A `T` packet that ends before its second digit. -/
def Truncated (resp : Bytes) : Prop := resp.head? = some 84 ∧ resp.length < 3

theorem parseStop_eq_none_iff (resp : Bytes) : parseStop resp = none ↔ Truncated resp := by
  cases resp with
  | nil => simp [parseStop, Truncated]
  | cons kind rest =>
      rw [parseStop, Truncated, List.head?_cons, Option.some.injEq]
      by_cases hkind : kind = 84
      · rw [if_pos (.inr (.inl hkind)), if_pos hkind]
        by_cases hlen : (kind :: rest).length < 3
        · rw [if_pos hlen]
          exact iff_of_true rfl ⟨hkind, hlen⟩
        · rw [if_neg hlen]
          exact iff_of_false (by simp) fun h => hlen h.2
      · refine iff_of_false ?_ fun h => hkind h.1
        rw [if_neg hkind]
        split <;> simp

/-- The calls that return a stop reply. -/
inductive StopCall where
  | attach (pid : Int)
  | status
  | cont
  | step

namespace StopCall

variable {σ : Type} (P : Peer σ)

def exec : StopCall → SessionAct σ (Except SessionErr StopReply)
  | .attach pid => Session.attach P pid
  | .status => Session.status P
  | .cont => Session.cont P
  | .step => Session.step P

/-- The reply of the stub that the call parses, if it gets one. -/
def parsed (s : Session σ) : StopCall → Option Bytes
  | .attach pid =>
      let s₁ := ((Session.command P (Session.attachCmd pid)).run s).2
      let s₂ := ((Session.command P (Session.selectCmd pid)).run s₁).2
      (s.reply? P (Session.attachCmd pid)).bind fun resp =>
        if isError resp ∨ resp = [] then s₂.reply? P (ascii "?") else some resp
  | .status => s.reply? P (ascii "?")
  | .cont => s.reply? P (ascii "c")
  | .step => s.reply? P (ascii "s")

theorem query_of_reply {s : Session σ} {payload resp : Bytes}
    (h : s.reply? P payload = some resp) :
    ((Session.query P payload).run s).1 = stopResult resp := by
  rw [Session.query, run_bind]
  rw [Session.reply?] at h
  cases hrun : ((Session.command P payload).run s).1 with
  | error e =>
      rw [hrun] at h
      cases h
  | ok resp' =>
      rw [hrun] at h
      cases h
      rfl

/-- A call that gets its reply returns what `parseStop` makes of it. -/
theorem exec_of_parsed {call : StopCall} {s : Session σ} {resp : Bytes}
    (h : call.parsed P s = some resp) : ((call.exec P).run s).1 = stopResult resp := by
  cases call with
  | status => exact query_of_reply P h
  | cont => exact query_of_reply P h
  | step => exact query_of_reply P h
  | attach pid =>
      obtain ⟨first, hfirst, hrest⟩ := Option.bind_eq_some_iff.mp h
      show ((Session.attach P pid).run s).1 = _
      rw [Session.attach, run_bind]
      rw [Session.reply?] at hfirst
      cases hrun : ((Session.command P (Session.attachCmd pid)).run s).1 with
      | error e =>
          rw [hrun] at hfirst
          cases hfirst
      | ok first' =>
          rw [hrun] at hfirst
          cases hfirst
          by_cases hfall : isError first = true ∨ first = []
          · rw [if_pos hfall, Session.reply?] at hrest
            simp only [if_pos hfall]
            rw [run_bind, run_bind]
            cases hquery : ((Session.command P (ascii "?")).run
                ((Session.command P (Session.selectCmd pid)).run
                  ((Session.command P (Session.attachCmd pid)).run s).2).2).1 with
            | error e =>
                rw [hquery] at hrest
                cases hrest
            | ok last =>
                rw [hquery] at hrest
                cases hrest
                rfl
          · rw [if_neg hfall] at hrest
            cases hrest
            simp only [if_neg hfall]
            rfl

end StopCall

/-! ## Well-formed stop replies -/

/-- A `T` packet as a stub should send it. -/
structure StopPacket where
  hi : UInt8
  lo : UInt8
  pairs : List (Bytes × Bytes)
  hi_digit : isHexDigit hi = true
  lo_digit : isHexDigit lo = true
  /-- Keys are free of `:` and `;`, -/
  keys : ∀ p ∈ pairs, (58 : UInt8) ∉ p.1 ∧ (59 : UInt8) ∉ p.1
  /-- values of `;`. -/
  values : ∀ p ∈ pairs, (59 : UInt8) ∉ p.2

namespace StopPacket

def pairText (p : Bytes × Bytes) : Bytes := p.1 ++ 58 :: p.2

def bytes (t : StopPacket) : Bytes :=
  84 :: t.hi :: t.lo :: t.pairs.flatMap fun p => pairText p ++ [59]

/-- The number of the two digits. -/
def signal (t : StopPacket) : Nat := digitsFrom 16 [t.hi, t.lo] 0

/-- The last value of a key. -/
def lastValue (pairs : List (Bytes × Bytes)) (k : Bytes) : Option Bytes :=
  ((pairs.filter (·.1 == k)).getLast?).map Prod.snd

theorem lastValue_concat (pairs : List (Bytes × Bytes)) (p : Bytes × Bytes) (k : Bytes) :
    lastValue (pairs ++ [p]) k = if p.1 = k then some p.2 else lastValue pairs k := by
  rw [lastValue, List.filter_append]
  by_cases hk : p.1 = k
  · rw [if_pos hk, List.filter_cons_of_pos (by simpa using hk), List.filter_nil,
      List.getLast?_concat]
    rfl
  · rw [if_neg hk, List.filter_cons_of_neg (by simpa using hk), List.filter_nil, List.append_nil]
    rfl

theorem addPair_pairText (sr : StopReply) {p : Bytes × Bytes} (hk : (58 : UInt8) ∉ p.1) :
    addPair sr (pairText p) =
      { sr with
        thread := if p.1 = ascii "thread" then p.2 else sr.thread
        values := sr.values.insert p.1 p.2 } := by
  rw [addPair, if_neg (by simp [pairText]), pairText, cut_append hk]

/-- Behind any pairs, the reply holds the last value of every key. -/
theorem foldl_addPair (sr : StopReply) (hvalues : sr.values = ∅) (hthread : sr.thread = [])
    {pairs : List (Bytes × Bytes)} (hkeys : ∀ p ∈ pairs, (58 : UInt8) ∉ p.1) :
    ((pairs.map pairText).foldl addPair sr).signal = sr.signal ∧
      (∀ k, ((pairs.map pairText).foldl addPair sr).values.lookup k = lastValue pairs k) ∧
      ((pairs.map pairText).foldl addPair sr).thread =
        (lastValue pairs (ascii "thread")).getD [] := by
  induction pairs using List.reverseRecOn with
  | nil => exact ⟨rfl, fun k => by rw [List.map_nil, List.foldl_nil, hvalues]; rfl, hthread⟩
  | append_singleton pairs p ih =>
      obtain ⟨hsignal, hlookup, hlast⟩ := ih fun q hq => hkeys q (List.mem_append_left _ hq)
      have hp := hkeys p (List.mem_append_right _ List.mem_cons_self)
      rw [List.map_append, List.foldl_append, List.map_cons, List.map_nil, List.foldl_cons,
        List.foldl_nil, addPair_pairText _ hp]
      refine ⟨hsignal, ?_, ?_⟩
      · intro k
        rw [lastValue_concat]
        by_cases hk : p.1 = k
        · subst hk
          rw [if_pos rfl, AList.lookup_insert]
        · rw [if_neg hk, AList.lookup_insert_ne (Ne.symm hk), hlookup]
      · show (if p.1 = ascii "thread" then p.2 else _) = _
        rw [lastValue_concat]
        by_cases hk : p.1 = ascii "thread"
        · rw [if_pos hk, if_pos hk]
          rfl
        · rw [if_neg hk, if_neg hk, hlast]

theorem stopSignal_bytes (t : StopPacket) : stopSignal t.bytes = t.signal := by
  obtain ⟨x, hx, hhi⟩ := exists_digitVal t.hi_digit
  obtain ⟨y, hy, hlo⟩ := exists_digitVal t.lo_digit
  have hdigits : ∀ b ∈ [t.hi, t.lo], isHexDigit b = true := by
    simp [t.hi_digit, t.lo_digit]
  have hvalue : digitsFrom 16 [t.hi, t.lo] 0 = x * 16 + y := by
    simp [digitsFrom, hhi, hlo]
  have hparse := parseInt_hex (by simp) hdigits (by omega)
  rw [stopSignal, if_pos (by simp [bytes]),
    show (t.bytes.drop 1).take 2 = [t.hi, t.lo] from rfl, hparse]
  rfl

/-- A well-formed packet is parsed into its digits and the last value of every key. -/
theorem parseStop_bytes (t : StopPacket) :
    ∃ sr, parseStop t.bytes = some sr ∧ sr.signal = t.signal ∧
      (∀ k, sr.values.lookup k = lastValue t.pairs k) ∧
      sr.thread = (lastValue t.pairs (ascii "thread")).getD [] := by
  have hsplit : (t.bytes.drop 3).splitOn 59 = t.pairs.map pairText ++ [[]] := by
    have hfree : ∀ s ∈ t.pairs.map pairText, (59 : UInt8) ∉ s := by
      intro s hs
      obtain ⟨p, hp, rfl⟩ := List.mem_map.mp hs
      rw [pairText, List.mem_append, List.mem_cons]
      rintro (hkey | hcolon | hvalue)
      · exact (t.keys p hp).2 hkey
      · exact absurd hcolon (by decide)
      · exact t.values p hp hvalue
    have hdrop : t.bytes.drop 3 = ((t.pairs.map pairText).flatMap fun s => s ++ [59]) ++ [] := by
      rw [List.append_nil, List.flatMap_map]
      rfl
    rw [hdrop, splitOn_flatMap hfree]
    rfl
  have hparse : parseStop t.bytes =
      some ((t.pairs.map pairText).foldl addPair ⟨stopSignal t.bytes, [], ∅, t.bytes⟩) := by
    have hlen : ¬ t.bytes.length < 3 := by simp [bytes]
    rw [show t.bytes = 84 :: t.bytes.drop 1 from rfl] at hlen hsplit ⊢
    rw [parseStop, if_pos (.inr (.inl rfl)), if_pos rfl, if_neg hlen, hsplit, List.foldl_append]
    rfl
  obtain ⟨hsignal, hlookup, hthread⟩ :=
    foldl_addPair ⟨stopSignal t.bytes, [], ∅, t.bytes⟩ rfl rfl fun p hp => (t.keys p hp).1
  exact ⟨_, hparse, hsignal.trans t.stopSignal_bytes, hlookup, hthread⟩

end StopPacket

/-- Parsing is safe on exactly the replies that are no `T` packet cut before its second
digit, in `parseStop` and in every call that parses a reply; and a well-formed packet
is parsed into what it says. -/
theorem stop_replies_safe_iff (reply : Bytes) (t : StopPacket) {σ : Type} (P : Peer σ)
    (s : Session σ) (call : StopCall) :
    ((∃ sr, parseStop reply = some sr) ↔ ¬ Truncated reply) ∧
    ((∀ resp, call.parsed P s = some resp → ∃ sr, ((call.exec P).run s).1 = .ok sr) ↔
      ∀ resp, call.parsed P s = some resp → ¬ Truncated resp) ∧
    ∃ sr, parseStop t.bytes = some sr ∧ sr.signal = t.signal ∧
      (∀ k, sr.values.lookup k = StopPacket.lastValue t.pairs k) ∧
      sr.thread = (StopPacket.lastValue t.pairs (ascii "thread")).getD [] := by
  refine ⟨?_, ?_, t.parseStop_bytes⟩
  · rw [← parseStop_eq_none_iff, ← Option.isSome_iff_exists, Option.isSome_iff_ne_none]
  · refine forall_congr' fun resp => imp_congr_right fun hparsed => ?_
    rw [StopCall.exec_of_parsed P hparsed, ← parseStop_eq_none_iff, stopResult]
    cases parseStop resp <;> simp

/-- The reply `T0` to a status query stops the process that asked. -/
theorem stop_replies_truncated :
    let s : Session Unit := ⟨⟨ascii "+$T0#84", .eof, (), false⟩, 0⟩
    Truncated (ascii "T0") ∧ parseStop (ascii "T0") = none ∧
      StopCall.status.parsed silent s = some (ascii "T0") ∧
      ((StopCall.status.exec silent).run s).1 = .error .panicked := by
  intro s
  have hparsed : StopCall.status.parsed silent s = some (ascii "T0") := by decide +kernel
  have htruncated : Truncated (ascii "T0") := ⟨rfl, by decide⟩
  have hnone : parseStop (ascii "T0") = none := (parseStop_eq_none_iff _).mpr htruncated
  refine ⟨htruncated, hnone, hparsed, ?_⟩
  rw [StopCall.exec_of_parsed silent hparsed, stopResult, hnone]

end QconnMcp.Debug
