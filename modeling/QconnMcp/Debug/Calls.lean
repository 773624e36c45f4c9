import QconnMcp.Debug.Session
import QconnMcp.Debug.Retransmit

/-!
# Sessions and what they ask

The operations of `internal/debug/session.go` beside those of `Debug.Session`, and
`EnableNoAck`. A session only ever asks the stub and looks at the answers, so what it
does can be told without the packets: `Call.spec` is the session that talks to the
stub's handler directly.

* `Serves` says what a stub has to do with a packet, `Answering` what a command then
  returns, in either acknowledgement mode.
* `Answering.exec`: a session over packets does what the session without them does.
* `session_over_stub`: so no acknowledgement, escape or switch to no-ack mode shows, for
  a stub around any handler.
-/

namespace QconnMcp.Debug

open Kit

/-! ## Operations -/

inductive CallErr where
  | session (e : SessionErr)
  /-- `detach: %s` -/
  | detach (resp : Bytes)
  /-- `read registers: %s` -/
  | readRegisters (resp : Bytes)
  /-- `write memory @%#x: %s` -/
  | writeMemory (addr : UInt64) (resp : Bytes)
  /-- `set breakpoint @%#x: %s` -/
  | setBreakpoint (addr : UInt64) (resp : Bytes)
  /-- `clear breakpoint @%#x: %s` -/
  | clearBreakpoint (addr : UInt64) (resp : Bytes)
  deriving DecidableEq, Repr

def CallErr.rsp (e : Err) : CallErr := .session (.rsp e)

namespace RSP

variable {σ : Type} (P : Peer σ)

def setNoAck : Act σ Unit := fun r => ((), { r with noAck := true })

def noAckCmd : Bytes := ascii "QStartNoAckMode"

/-- `EnableNoAck`. -/
def enableNoAck : Act σ (Option Err) := do
  match ← command P noAckCmd with
  | .error e => pure (some e)
  | .ok resp =>
      if resp = ascii "OK" then setNoAck
      pure none

end RSP

namespace Session

variable {σ : Type} (P : Peer σ)

def supportedCmd : Bytes := ascii "qSupported:multiprocess+;vContSupported+"

/-- `NewSession`; what the features are does not matter. -/
def newSession (r : RSP σ) : Session σ := ⟨((RSP.command P supportedCmd).run r).2, 0⟩

/-- `EnableNoAck` on the connection of a session. -/
def enableNoAck : SessionAct σ (Option CallErr) := fun s =>
  let r := (RSP.enableNoAck P).run s.rsp
  (r.1.map .rsp, { s with rsp := r.2 })

/-- `Detach`. The process is forgotten even if the stub refuses. -/
def detach : SessionAct σ (Option CallErr) := do
  match ← command P (ascii "D") with
  | .error e => pure (some (.rsp e))
  | .ok resp =>
      setPid 0
      if isError resp then pure (some (.detach resp)) else pure none

/-- `KillInferior`. -/
def killInferior : SessionAct σ (Option Err) := fun s =>
  let r := (RSP.sendPacket P (ascii "k")).run s.rsp
  (r.1, { s with rsp := r.2 })

/-- `ReadRegisters`. -/
def readRegisters : SessionAct σ (Except CallErr Bytes) := do
  match ← command P (ascii "g") with
  | .error e => pure (.error (.rsp e))
  | .ok resp => if isError resp then pure (.error (.readRegisters resp)) else pure (.ok resp)

/-- A command whose reply has to be `OK`. -/
def expectOk (payload : Bytes) (err : Bytes → CallErr) : SessionAct σ (Option CallErr) := do
  match ← command P payload with
  | .error e => pure (some (.rsp e))
  | .ok resp => if resp ≠ ascii "OK" then pure (some (err resp)) else pure none

def writeMemoryCmd (addr : UInt64) (data : Bytes) : Bytes :=
  ascii "M" ++ fmtNat 16 addr.toNat ++ ascii "," ++ fmtNat 16 data.length ++ ascii ":" ++ hexEncode data

/-- `WriteMemory`. -/
def writeMemory (addr : UInt64) (data : Bytes) : SessionAct σ (Option CallErr) :=
  expectOk P (writeMemoryCmd addr data) (.writeMemory addr)

/-- The packets for a breakpoint; they differ in the letter. -/
def breakpointCmd (letter : String) (addr : UInt64) (kind kindBytes : Int) : Bytes :=
  ascii letter ++ fmtInt 10 kind ++ ascii "," ++ fmtNat 16 addr.toNat ++ ascii "," ++
    fmtInt 10 kindBytes

/-- `SetBreakpoint`. -/
def setBreakpoint (addr : UInt64) (kind kindBytes : Int) : SessionAct σ (Option CallErr) :=
  expectOk P (breakpointCmd "Z" addr kind kindBytes) (.setBreakpoint addr)

/-- `ClearBreakpoint`. -/
def clearBreakpoint (addr : UInt64) (kind kindBytes : Int) : SessionAct σ (Option CallErr) :=
  expectOk P (breakpointCmd "z" addr kind kindBytes) (.clearBreakpoint addr)

/-- The reply that ends a list of threads. -/
def isLast (resp : Bytes) : Bool := resp == [] || resp == ascii "l" || isError resp

/-- The ids in an `m` reply. -/
def threadIds (resp : Bytes) : List Bytes :=
  if resp.head? = some 109 then ((resp.drop 1).splitOn 44).filter (· ≠ []) else []

/-- The loop of `ListThreads` with the ids collected so far; `none` when it has not
ended after so many replies. -/
def listThreadsLoop : Nat → Bytes → List Bytes → SessionAct σ (Option (List Bytes × Option CallErr))
  | 0, _, _ => pure none
  | fuel + 1, resp, ids =>
      if isLast resp then pure (some (ids, none))
      else do
        match ← command P (ascii "qsThreadInfo") with
        | .error e => pure (some (ids ++ threadIds resp, some (.rsp e)))
        | .ok next => listThreadsLoop fuel next (ids ++ threadIds resp)

/-- `ListThreads`. -/
def listThreads (fuel : Nat) : SessionAct σ (Option (List Bytes × Option CallErr)) := do
  match ← command P (ascii "qfThreadInfo") with
  | .error e => pure (some ([], some (.rsp e)))
  | .ok resp => listThreadsLoop P fuel resp []

end Session

/-! ## Calls -/

/-- What is done with a session, up to its end. -/
inductive Call where
  | attach (pid : Int)
  | status
  | cont
  | step
  | detach
  | readRegisters
  | readMemory (addr : UInt64) (length : Int)
  | writeMemory (addr : UInt64) (data : Bytes)
  | setBreakpoint (addr : UInt64) (kind kindBytes : Int)
  | clearBreakpoint (addr : UInt64) (kind kindBytes : Int)
  | listThreads (fuel : Nat)
  | enableNoAck

inductive Value where
  | stop (r : Except SessionErr StopReply)
  | memory (r : Except SessionErr Bytes)
  | registers (r : Except CallErr Bytes)
  | done (e : Option CallErr)
  | threads (r : Option (List Bytes × Option CallErr))

def Call.exec {σ : Type} (P : Peer σ) : Call → SessionAct σ Value
  | .attach pid => .stop <$> Session.attach P pid
  | .status => .stop <$> Session.status P
  | .cont => .stop <$> Session.cont P
  | .step => .stop <$> Session.step P
  | .detach => .done <$> Session.detach P
  | .readRegisters => .registers <$> Session.readRegisters P
  | .readMemory addr length => .memory <$> Session.readMemory P addr length
  | .writeMemory addr data => .done <$> Session.writeMemory P addr data
  | .setBreakpoint addr kind kindBytes => .done <$> Session.setBreakpoint P addr kind kindBytes
  | .clearBreakpoint addr kind kindBytes => .done <$> Session.clearBreakpoint P addr kind kindBytes
  | .listThreads fuel => .threads <$> Session.listThreads P fuel
  | .enableNoAck => .done <$> Session.enableNoAck P

/-! ## The session without the packets -/

/-- The state of the target that a handler keeps, and the session's own. -/
structure Direct (τ : Type) where
  target : τ
  pid : Int
  deriving DecidableEq

namespace Direct

variable {τ : Type} (handler : τ → Bytes → τ × Bytes)

def ask (payload : Bytes) : StateM (Direct τ) Bytes := fun d =>
  ((handler d.target payload).2, { d with target := (handler d.target payload).1 })

def setPid (pid : Int) : StateM (Direct τ) Unit := fun d => ((), { d with pid := pid })

def askStop (payload : Bytes) : StateM (Direct τ) Value := do
  pure (.stop (stopResult (← ask handler payload)))

def askOk (payload : Bytes) (err : Bytes → CallErr) : StateM (Direct τ) Value := do
  let resp ← ask handler payload
  pure (.done (if resp ≠ ascii "OK" then some (err resp) else none))

open Session in
def threadsLoop : Nat → Bytes → List Bytes → StateM (Direct τ) (Option (List Bytes × Option CallErr))
  | 0, _, _ => pure none
  | fuel + 1, resp, ids =>
      if isLast resp then pure (some (ids, none))
      else do
        let next ← ask handler (ascii "qsThreadInfo")
        threadsLoop fuel next (ids ++ threadIds resp)

end Direct

open Direct Session in
/-- What a call asks, and what it makes of the answers. -/
def Call.spec {τ : Type} (handler : τ → Bytes → τ × Bytes) : Call → StateM (Direct τ) Value
  | .attach process => do
      let resp ← ask handler (attachCmd process)
      if isError resp ∨ resp = [] then
        let _ ← ask handler (selectCmd process)
        let resp ← ask handler (ascii "?")
        Direct.setPid process
        pure (.stop (stopResult resp))
      else
        Direct.setPid process
        pure (.stop (stopResult resp))
  | .status => askStop handler (ascii "?")
  | .cont => askStop handler (ascii "c")
  | .step => askStop handler (ascii "s")
  | .detach => do
      let resp ← ask handler (ascii "D")
      Direct.setPid 0
      pure (.done (if isError resp then some (.detach resp) else none))
  | .readRegisters => do
      let resp ← ask handler (ascii "g")
      pure (.registers (if isError resp then .error (.readRegisters resp) else .ok resp))
  | .readMemory addr length => do
      let resp ← ask handler (readMemoryCmd addr length)
      pure (.memory (if isError resp then .error (.readMemory addr resp) else hexDecode resp))
  | .writeMemory addr data => askOk handler (writeMemoryCmd addr data) (.writeMemory addr)
  | .setBreakpoint addr kind kindBytes =>
      askOk handler (breakpointCmd "Z" addr kind kindBytes) (.setBreakpoint addr)
  | .clearBreakpoint addr kind kindBytes =>
      askOk handler (breakpointCmd "z" addr kind kindBytes) (.clearBreakpoint addr)
  | .listThreads fuel => do
      let resp ← ask handler (ascii "qfThreadInfo")
      .threads <$> threadsLoop handler fuel resp []
  -- whether packets are acknowledged is nothing the target has to do with
  | .enableNoAck => do
      let _ ← ask handler RSP.noAckCmd
      pure (.done none)

/-! ## Commands in either mode -/

namespace RSP

variable {σ : Type} {P : Peer σ} {r : RSP σ}

theorem isNoAck_on (h : r.noAck = true) {α : Type} (f : Bool → Act σ α) :
    (isNoAck >>= f).run r = (f true).run r := by
  show (f r.noAck).run r = _
  rw [h]

/-- Without acknowledgements a packet is sent once and nothing is read. -/
theorem sendPacket_noAck {payload out : Bytes} {s : σ} (hmode : r.noAck = true)
    (hrecv : P.recv r.peer (frame payload) = some (s, out)) :
    (sendPacket P payload).run r = (none, { r with peer := s, inp := r.inp ++ out, fin := P.fin s }) := by
  rw [sendPacket, sendAttempts, run_bind, write_sent hrecv]
  show (isNoAck >>= _).run _ = _
  rw [isNoAck_on (r := { r with peer := s, inp := r.inp ++ out, fin := P.fin s }) hmode]
  rfl

theorem readPacket_noAck {raw rest : Bytes} {hi lo : UInt8} (hmode : r.noAck = true)
    (h : Packet.next r.inp = some (raw, hi, lo, rest)) (hsum : checksum raw = checkDigits hi lo) :
    (readPacket P).run r = (.ok (decode raw), { r with inp := rest }) := by
  rw [readPacket, run_bind, nextPacket_some h]
  simp only [hsum, ne_eq, not_true_eq_false, if_false]
  rw [isNoAck_on (r := { r with inp := rest }) hmode]
  rfl

end RSP

section Serves

variable {ρ τ : Type}

theorem ne_kill {p : Bytes} (h : p.head? ≠ some 107) : p ≠ ascii "k" := by
  rintro rfl
  exact h rfl

/-- A stub around a handler: a packet is acknowledged and answered with the handler's
reply. `k` is left out, a stub may close the connection on it. -/
structure Serves (d : PacketDaemon ρ) (handler : τ → Bytes → τ × Bytes) (A : τ → ρ → Prop) : Prop where
  isOpen : ∀ {t s}, A t s → d.isOpen s = true
  handle : ∀ {t s p}, p ≠ ascii "k" → A t s →
    A (handler t p).1 (d.handle s (escape p) (hexByte (checksum (escape p))).1
        (hexByte (checksum (escape p))).2).1 ∧
      (d.handle s (escape p) (hexByte (checksum (escape p))).1
        (hexByte (checksum (escape p))).2).2 = Packet.ack :: frame (handler t p).2

/-- Between two commands nothing is unread on either side. -/
structure Quiet (A : τ → ρ → Prop) (t : τ) (r : RSP (Served ρ)) : Prop where
  inp : r.inp = []
  pending : r.peer.pending = []
  stub : A t r.peer.state

variable {d : PacketDaemon ρ} {handler : τ → Bytes → τ × Bytes} {A : τ → ρ → Prop}

theorem Serves.command (h : Serves d handler A) (t : τ) {p : Bytes} (hp : p ≠ ascii "k") :
    Holds (Quiet A t) (RSP.command d.toPeer p)
      (fun res r => res = .ok (handler t p).2 ∧ Quiet A (handler t p).1 r) := by
  rintro ⟨inp, fin, ⟨s, pending⟩, noAck⟩ hr
  obtain ⟨rfl, rfl, hA⟩ : inp = [] ∧ pending = [] ∧ A t s := ⟨hr.inp, hr.pending, hr.stub⟩
  obtain ⟨hA', hout⟩ := h.handle hp hA
  have hrecv : d.toPeer.recv ⟨s, []⟩ (frame p) = _ :=
    PacketDaemon.recv_packet (h.isOpen hA) (escape_framed p) _ _
  rw [hout] at hrecv
  generalize (d.handle s (escape p) (hexByte (checksum (escape p))).1
    (hexByte (checksum (escape p))).2).1 = s' at hA' hrecv
  have hsum := (checkDigits_hexByte (checksum (escape (handler t p).2))).symm
  cases noAck with
  | false =>
      have hsend := RSP.sendPacket_acked (P := d.toPeer) (r := ⟨[], fin, ⟨s, []⟩, false⟩) [] rfl hrecv
        (fun _ hx => absurd hx List.not_mem_nil) rfl
      have hnext := next_frame List.not_mem_nil (handler t p).2 []
      rw [List.nil_append, List.append_nil] at hnext
      have hread := RSP.readPacket_intact (P := d.toPeer)
        (r := ⟨frame (handler t p).2, d.toPeer.fin ⟨s', []⟩, ⟨s', []⟩, false⟩) rfl hnext hsum
        (PacketDaemon.recv_ack (h.isOpen hA'))
      rw [RSP.command, run_bind, hsend]
      show ((RSP.readPacket d.toPeer).run _).1 = _ ∧ Quiet A _ ((RSP.readPacket d.toPeer).run _).2
      rw [hread, decode_escape]
      exact ⟨rfl, rfl, rfl, hA'⟩
  | true =>
      have hsend := RSP.sendPacket_noAck (P := d.toPeer) (r := ⟨[], fin, ⟨s, []⟩, true⟩) rfl hrecv
      -- the acknowledgement comes all the same, and stands in front of the reply
      have hnext := next_frame (show Packet.start ∉ [Packet.ack] by decide) (handler t p).2 []
      rw [List.singleton_append, List.append_nil] at hnext
      have hread := RSP.readPacket_noAck (P := d.toPeer)
        (r := ⟨Packet.ack :: frame (handler t p).2, d.toPeer.fin ⟨s', []⟩, ⟨s', []⟩, true⟩) rfl
        hnext hsum
      rw [RSP.command, run_bind, hsend]
      show ((RSP.readPacket d.toPeer).run _).1 = _ ∧ Quiet A _ ((RSP.readPacket d.toPeer).run _).2
      rw [List.nil_append, hread, decode_escape]
      exact ⟨rfl, rfl, rfl, hA'⟩

end Serves

/-! ## Refinement -/

section Refinement

variable {σ τ α β : Type} {P : Peer σ} {handler : τ → Bytes → τ × Bytes} {R : τ → RSP σ → Prop}

/-- A connection on which every command returns the handler's reply, whether or not
packets are acknowledged. -/
structure Answering (P : Peer σ) (handler : τ → Bytes → τ × Bytes) (R : τ → RSP σ → Prop) : Prop where
  command : ∀ (t : τ) {p : Bytes}, p ≠ ascii "k" → Holds (R t) (RSP.command P p)
    fun res r => res = .ok (handler t p).2 ∧ R (handler t p).1 r
  noAck : ∀ {t r}, R t r → R t { r with noAck := true }

theorem Serves.answering {ρ : Type} {d : PacketDaemon ρ} {A : τ → ρ → Prop}
    (h : Serves d handler A) : Answering d.toPeer handler (Quiet A) where
  command t _ hp := h.command t hp
  noAck hr := ⟨hr.inp, hr.pending, hr.stub⟩

/-- A session and the session without packets. -/
structure Tracks (R : τ → RSP σ → Prop) (s : Session σ) (d : Direct τ) : Prop where
  stub : R d.target s.rsp
  pid : s.pid = d.pid

theorem Tracks.setPid (pid : Int) :
    Sim (Tracks R) (Session.setPid pid : SessionAct σ Unit) (Direct.setPid pid) :=
  fun _ _ h => ⟨rfl, h.stub, rfl⟩

namespace Answering

/-- A command is a question, and what follows it only sees the answer. -/
theorem command_bind (h : Answering P handler R) {p : Bytes} (hp : p ≠ ascii "k")
    {f : Except Err Bytes → SessionAct σ α} {g : Bytes → StateM (Direct τ) α}
    (hfg : ∀ resp, Sim (Tracks R) (f (.ok resp)) (g resp)) :
    Sim (Tracks R) (Session.command P p >>= f) (Direct.ask handler p >>= g) := by
  intro s d hs
  obtain ⟨hres, hR⟩ := h.command d.target hp s.rsp hs.stub
  have hcmd : ((Session.command P p).run s).1 = .ok (handler d.target p).2 := hres
  rw [run_bind, run_bind, hcmd]
  exact hfg _ _ _ ⟨hR, hs.pid⟩

theorem query (h : Answering P handler R) {p : Bytes} (hp : p ≠ ascii "k") :
    Sim (Tracks R) (.stop <$> Session.query P p) (Direct.askStop handler p) := by
  rw [Session.query, map_bind]
  exact h.command_bind hp fun resp => .pure _

theorem expectOk (h : Answering P handler R) {p : Bytes} (hp : p ≠ ascii "k")
    (err : Bytes → CallErr) :
    Sim (Tracks R) (.done <$> Session.expectOk P p err) (Direct.askOk handler p err) := by
  rw [Session.expectOk, map_bind]
  exact h.command_bind hp fun resp => .map_ite _ _ _

theorem attach (h : Answering P handler R) (pid : Int) :
    Sim (Tracks R) (Call.exec P (.attach pid)) (Call.spec handler (.attach pid)) := by
  have hattach : Session.attachCmd pid ≠ ascii "k" := by simp [Session.attachCmd, ascii]
  have hselect : Session.selectCmd pid ≠ ascii "k" := by simp [Session.selectCmd, ascii]
  rw [Call.exec, Session.attach, map_bind, Call.spec]
  refine h.command_bind hattach fun resp => ?_
  by_cases hback : isError resp ∨ resp = []
  · simp only [hback, if_true, map_bind]
    refine h.command_bind hselect fun _ => ?_
    refine h.command_bind (ne_kill (by decide)) fun resp => ?_
    simp only [map_bind]
    exact (Tracks.setPid pid).bind fun _ => .pure _
  · simp only [hback, if_false, map_bind]
    exact (Tracks.setPid pid).bind fun _ => .pure _

theorem detach (h : Answering P handler R) :
    Sim (Tracks R) (Call.exec P .detach) (Call.spec handler .detach) := by
  rw [Call.exec, Session.detach, map_bind, Call.spec]
  refine h.command_bind (ne_kill (by decide)) fun resp => ?_
  simp only [map_bind]
  exact (Tracks.setPid 0).bind fun _ => .map_ite _ _ _

theorem readRegisters (h : Answering P handler R) :
    Sim (Tracks R) (Call.exec P .readRegisters) (Call.spec handler .readRegisters) := by
  rw [Call.exec, Session.readRegisters, map_bind, Call.spec]
  exact h.command_bind (ne_kill (by decide)) fun resp => .map_ite _ _ _

theorem readMemory (h : Answering P handler R) (addr : UInt64) (length : Int) :
    Sim (Tracks R) (Call.exec P (.readMemory addr length))
      (Call.spec handler (.readMemory addr length)) := by
  rw [Call.exec, Session.readMemory, map_bind, Call.spec]
  exact h.command_bind (by simp [Session.readMemoryCmd, ascii]) fun resp => .map_ite _ _ _

theorem listThreadsLoop (h : Answering P handler R) (fuel : Nat) (resp : Bytes) (ids : List Bytes) :
    Sim (Tracks R) (Session.listThreadsLoop P fuel resp ids)
      (Direct.threadsLoop handler fuel resp ids) := by
  induction fuel generalizing resp ids with
  | zero => exact .pure _
  | succ fuel ih =>
      rw [Session.listThreadsLoop, Direct.threadsLoop]
      refine .ite (fun _ => .pure _) fun _ => ?_
      exact h.command_bind (ne_kill (by decide)) fun next => ih next _

/-- The mode changes or not; the connection answers as before. -/
theorem enableNoAck (h : Answering P handler R) :
    Sim (Tracks R) (Call.exec P .enableNoAck) (Call.spec handler .enableNoAck) := by
  have hmode : ∀ t, Holds (R t) (RSP.enableNoAck P)
      (fun e r => e = none ∧ R (handler t RSP.noAckCmd).1 r) := by
    intro t
    refine (h.command t (ne_kill (by decide))).bind_value ?_
    by_cases hok : (handler t RSP.noAckCmd).2 = ascii "OK"
    · simp only [hok, if_true]
      intro r hr
      exact ⟨rfl, h.noAck hr⟩
    · simp only [hok, if_false]
      intro r hr
      exact ⟨rfl, hr⟩
  intro s d hs
  obtain ⟨hres, hR⟩ := hmode d.target s.rsp hs.stub
  have hval : ((Session.enableNoAck P).run s).1 = none := by
    show Option.map CallErr.rsp ((RSP.enableNoAck P).run s.rsp).1 = none
    rw [hres]
    rfl
  exact ⟨congrArg Value.done hval, hR, hs.pid⟩

/-- Every call over the connection is the call without it. -/
theorem exec (h : Answering P handler R) (c : Call) :
    Sim (Tracks R) (c.exec P) (c.spec handler) := by
  cases c with
  | attach pid => exact h.attach pid
  | status | cont | step => exact h.query (ne_kill (by decide))
  | detach => exact h.detach
  | readRegisters => exact h.readRegisters
  | readMemory addr length => exact h.readMemory addr length
  | writeMemory addr data => exact h.expectOk (by simp [Session.writeMemoryCmd, ascii]) _
  | setBreakpoint addr kind kindBytes => exact h.expectOk (by simp [Session.breakpointCmd, ascii]) _
  | clearBreakpoint addr kind kindBytes => exact h.expectOk (by simp [Session.breakpointCmd, ascii]) _
  | listThreads fuel =>
      rw [Call.exec, Session.listThreads, map_bind, Call.spec]
      refine h.command_bind (ne_kill (by decide)) fun resp => ?_
      exact (h.listThreadsLoop fuel resp []).map _
  | enableNoAck => exact h.enableNoAck

theorem sequentially (h : Answering P handler R) (cs : List Call) :
    Sim (Tracks R) (Kit.sequentially (Call.exec P) cs) (Kit.sequentially (Call.spec handler) cs) :=
  .sequentially fun c _ => h.exec c

end Answering

end Refinement

/-! ## A stub around any handler -/

section Stub

variable {τ : Type} (handler : τ → Bytes → τ × Bytes)

/-- The stub of `Debug.Retransmit`, over a link that lets every reply pass. -/
theorem resendingStub_serves :
    Serves (resendingStub handler) handler fun t s => s.handlerState = t ∧ s.plan = [] where
  isOpen _ := rfl
  handle := by
    rintro t s p - ⟨rfl, hplan⟩
    simp [resendingStub, checkDigits_hexByte, Mock.rspDecode_escape, Resending.deliver,
      Resending.handled, hplan]

/-- **Packets do not show.** Whatever the stub's handler does, and wherever in the run
no-ack mode is asked for, a session over packets returns what the session returns that
talks to the handler directly, and leaves the handler in the same state. Nothing is left
unread. -/
theorem session_over_stub (t : τ) (cs : List Call) :
    let out := (sequentially (Call.exec (resending handler)) cs).run ⟨connected handler t [], 0⟩
    let direct := (sequentially (Call.spec handler) cs).run ⟨t, 0⟩
    out.1 = direct.1 ∧ out.2.pid = direct.2.pid ∧
      out.2.rsp.peer.state.handlerState = direct.2.target ∧ out.2.rsp.inp = [] := by
  intro out direct
  obtain ⟨hvalues, htracks⟩ := (resendingStub_serves handler).answering.sequentially cs
    ⟨connected handler t [], 0⟩ ⟨t, 0⟩ ⟨⟨rfl, rfl, rfl, rfl⟩, rfl⟩
  exact ⟨hvalues, htracks.pid, htracks.stub.stub.1, htracks.stub.inp⟩

end Stub

end QconnMcp.Debug
