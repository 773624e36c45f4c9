import QconnMcp.Pool.Server
import QconnMcp.Qconn.Sync

/-!
# Late responses on the pooled connection

A tool call gets the pooled client from `cli` and runs one operation on it. The
target answers every command with one response, in order, but a response may
arrive after the deadline of the operation that waits for it (`Peer.delayed`).
The operation then fails, the client keeps its connection, `cli` hands the same
client to the next call, and that call reads the late response as its own.

As long as responses arrive in time, no call sees anything of an earlier one:
each returns what it would return on a connection on which everything unread and
everything in flight has been dropped (`results_own`). The target's contract is
asked of the requests that the calls make (`requests`).
-/

namespace QconnMcp.Pool

open Kit Qconn

section Calls

variable {σ : Type}

/-! ## Tool calls -/

/-- A tool call: the operation, and the connection that a dial would get now. -/
structure Call (σ : Type) where
  target : Option (InFlight σ × FrameConn)
  op : Op

/-- `qconn.Dial` in this call. -/
def Call.dialled (call : Call σ) : Except Err (Client (InFlight σ)) :=
  match call.target with
  | none => .error .dialFailed
  | some (s, fc) =>
      match Client.dial s fc with
      | (some e, _) => .error e
      | (none, c) => .ok c

/-- The pooled client, changed by an operation on it. -/
def keep (c : Client (InFlight σ)) : StateM (Server (Client (InFlight σ))) Unit := fun s =>
  ((), { s with conn := some c, mgr := some c })

/-- What a tool call returns: the error of `cli`, or the outcome of its
operation. -/
abbrev Outcome := Except Err (Option (Value × Option Err))

def toolCall (P : Peer σ) (fuel : Nat) (call : Call σ) :
    StateM (Server (Client (InFlight σ))) Outcome := do
  match ← cli call.dialled with
  | .error e => pure (.error e)
  | .ok c =>
      keep ((call.op.exec P.delayed fuel).run c).2
      pure (.ok ((call.op.exec P.delayed fuel).run c).1)

def runCalls (P : Peer σ) (fuel : Nat) :
    List (Call σ) → StateM (Server (Client (InFlight σ))) (List Outcome) :=
  sequentially (toolCall P fuel)

/-- The client with everything unread and in flight dropped, once a command has
been sent: before that, what is unread is the end of the greeting. -/
def forgetting (c : Client (InFlight σ)) : Client (InFlight σ) :=
  if c.sent.isEmpty then c
  else { c with fc := { c.fc with inp := [] }, peer := { c.peer with held := [] } }

def forgetful (s : Server (Client (InFlight σ))) : Server (Client (InFlight σ)) :=
  { s with conn := s.conn.map forgetting }

/-! ## The requests of the calls -/

/-- The call on a target that records the writes it takes. -/
def Call.recorded (call : Call σ) : Call (Recorded σ) where
  target := call.target.map fun r => (r.1.map (·, []), r.2)
  op := call.op

/-- The writes that the target takes on the pooled connection in a run of calls,
each with the state in which it takes it. -/
def requests (P : Peer σ) (fuel : Nat) (calls : List (Call σ)) : List (σ × Bytes) :=
  let s := ((sequentially (fun call => toolCall P.recorded fuel call.recorded) calls).run .new).2
  (s.conn.map fun c => c.peer.inner.2).getD []

/-! ## Delivery in time -/

/-- Delivered in time, the responses of a server are still one per command. -/
theorem contract_delayed {τ : Type} {P₁ : Peer σ} {P₂ : Peer τ} {π : σ → τ} {T : Trail}
    {Idle G : σ → Prop} (hP : Contract P₁ P₂ π T Idle G) :
    Contract P₁.delayed P₂.delayed (InFlight.map π) T (fun s => Idle s.inner ∧ InTime s)
      (fun s => G s.inner) where
  back := by
    intro s b s' out hrecv hG
    obtain ⟨out', hrecv⟩ := Peer.delayed_taken hrecv
    exact hP.back hrecv hG
  mirror := Peer.delayed_mirror hP.mirror
  text := by
    intro s cmd s' out hs hcmd hrecv hG
    obtain ⟨hrecv, htime⟩ := Peer.delayed_some hs.2 hrecv
    obtain ⟨hidle, hout⟩ := hP.text hs.1 hcmd hrecv hG
    exact ⟨⟨hidle, htime⟩, hout⟩
  read := by
    intro s fd off n s' out hs hrecv hG
    obtain ⟨hrecv, htime⟩ := Peer.delayed_some hs.2 hrecv
    obtain ⟨hidle, hout⟩ := hP.read hs.1 hrecv hG
    exact ⟨⟨hidle, htime⟩, hout⟩
  write := by
    intro s fd off s₁ out₁ data hs hdata hreq hG
    obtain ⟨hreq, htime₁⟩ := Peer.delayed_some hs.2 hreq
    obtain ⟨rfl, t, out, hpay, hends⟩ := hP.write hs.1 hdata hreq hG
    refine ⟨rfl, _, out, Peer.delayed_released htime₁.onTime hpay, ?_⟩
    intro hG'
    obtain ⟨hidle, hout⟩ := hends hG'
    exact ⟨⟨hidle, htime₁.tail t⟩, hout⟩

/-! ## What the pool keeps -/

variable {P : Peer σ} {Idle : σ → Prop}

/-- A call with arguments that fit into command lines; if it dials, the target
greets and delivers in time. -/
structure Timely (Idle : σ → Prop) (call : Call σ) : Prop where
  op : call.op.LfFree
  target : ∀ s fc, call.target = some (s, fc) → (Client.dial s fc).1 = none →
    Idle s.inner ∧ InTime s ∧ ∃ t, Greets t fc.inp

/-- A client that records beside one that does not, both in step with their target
and with nothing in flight. -/
def Paired (Idle : σ → Prop) (c₁ : Client (InFlight (Recorded σ))) (c₂ : Client (InFlight σ)) :
    Prop :=
  ∃ b₁ b₂, Alike .blanks (fun s => Idle s.inner.1 ∧ InTime s) (InFlight.map Prod.fst) b₁ b₂ True c₁ c₂

/-- The two pools hold such a pair of clients, or no client. -/
def Pooled (Idle : σ → Prop) (s₁ : Server (Client (InFlight (Recorded σ))))
    (s₂ : Server (Client (InFlight σ))) : Prop :=
  s₁.conn = none ∧ s₂.conn = none ∨
    ∃ c₁ c₂, s₁.conn = some c₁ ∧ s₂.conn = some c₂ ∧ Paired Idle c₁ c₂

/-- Every request on record has been answered as the contract says. -/
def Orderly (P : Peer σ) (Idle : σ → Prop) (s : Server (Client (InFlight (Recorded σ)))) : Prop :=
  ∀ c ∈ s.conn, ∀ e ∈ c.peer.inner.2, Prompted P .blanks Idle AckLine e.1 e.2

theorem dial_fst {τ : Type} (s : σ) (t : τ) (fc : FrameConn) :
    (Client.dial s fc).1 = (Client.dial t fc).1 := by
  rcases hread : fc.readUntilPrompt with ⟨⟨text, _ | e⟩, fc'⟩
  · rw [Client.dial, Client.dial, Client.handshake, Client.handshake, run_bind, run_bind,
      Client.run_readUntilPrompt hread, Client.run_readUntilPrompt hread]
    rfl
  · rw [Client.dial, Client.dial, Client.handshake, Client.handshake, run_bind, run_bind,
      Client.run_readUntilPrompt hread, Client.run_readUntilPrompt hread]
    rfl

/-- A dial fails on both sides, or gives two clients that cannot be told apart. -/
theorem dialled_paired {call : Call σ} (hcall : Timely Idle call) :
    (∃ e, call.recorded.dialled = .error e ∧ call.dialled = .error e) ∨
      ∃ c₁ c₂, call.recorded.dialled = .ok c₁ ∧ call.dialled = .ok c₂ ∧ Paired Idle c₁ c₂ := by
  cases htarget : call.target with
  | none => exact .inl ⟨.dialFailed, by simp [Call.dialled, Call.recorded, htarget]⟩
  | some r =>
      obtain ⟨s, fc⟩ := r
      have hsame := dial_fst s (s.map ((·, []) : σ → Recorded σ)) fc
      cases hdial : (Client.dial s fc).1 with
      | some e =>
          refine .inl ⟨e, ?_, ?_⟩
          · simp only [Call.dialled, Call.recorded, htarget, Option.map_some]
            rw [← Prod.eta (Client.dial (s.map _) fc), ← hsame, hdial]
          · simp only [Call.dialled, htarget]
            rw [← Prod.eta (Client.dial s fc), hdial]
      | none =>
          obtain ⟨hidle, htime, t, hgreet⟩ := hcall.target s fc htarget hdial
          refine .inr ⟨(Client.dial (s.map (·, [])) fc).2, (Client.dial s fc).2, ?_, ?_, _, _,
            dial_alike (s := s.map ((·, []) : σ → Recorded σ)) ⟨hidle, ⟨htime.held, htime.plan⟩⟩ hgreet⟩
          · simp only [Call.dialled, Call.recorded, htarget, Option.map_some]
            rw [← Prod.eta (Client.dial (s.map _) fc), ← hsame, hdial]
          · simp only [Call.dialled, htarget]
            rw [← Prod.eta (Client.dial s fc), hdial]

/-! One call: a failed dial, or an operation on the pooled or a new client. -/

section Cases

variable (P) (fuel : Nat) {call : Call σ} {s : Server (Client (InFlight σ))} {c : Client (InFlight σ)}

theorem toolCall_failed (hconn : s.conn = none) {e : Err} (hd : call.dialled = .error e) :
    (toolCall P fuel call).run s = (.error e, s) := by
  have hrun : (client call.dialled).run s = (.error e, s) := by
    simp only [client, StateT.run, hconn, hd]
  have hcli : (cli call.dialled).run s = (.error e, s) := by
    rw [cli, run_bind, hrun]
    show (Except.error e, (resetClient.run s).2) = _
    rw [resetClient_none hconn]
  rw [toolCall, run_bind, hcli]
  rfl

theorem toolCall_works (h : s.conn = some c ∨ s.conn = none ∧ call.dialled = .ok c) :
    (toolCall P fuel call).run s = (.ok ((call.op.exec P.delayed fuel).run c).1,
      { s with
        conn := some ((call.op.exec P.delayed fuel).run c).2
        mgr := some ((call.op.exec P.delayed fuel).run c).2 }) := by
  have hclient : ∃ s', (client call.dialled).run s = (.ok c, s') ∧ s'.closed = s.closed := by
    rcases h with hconn | ⟨hconn, hd⟩
    · exact ⟨s, by simp only [client, StateT.run, hconn], rfl⟩
    · refine ⟨{ s with conn := some c, mgr := some c }, ?_, rfl⟩
      simp only [client, StateT.run, hconn, hd]
  obtain ⟨s', hrun, hclosed⟩ := hclient
  rw [toolCall, run_bind, cli, run_bind, hrun, ← hclosed]
  rfl

end Cases

variable (fuel : Nat)

theorem exec_keeps {op : Op} (hop : op.LfFree) (b₁ b₂ : Nat) :
    Keeps (fun s : InFlight (Recorded σ) => ∀ e ∈ s.inner.2, Prompted P .blanks Idle AckLine e.1 e.2)
      (Alike .blanks (fun s => Idle s.inner.1 ∧ InTime s) (InFlight.map Prod.fst) b₁ b₂ True)
      (op.exec P.recorded.delayed fuel) (op.exec P.delayed fuel) :=
  Op.exec_sim (contract_delayed recorded_contract) fuel hop

theorem toolCall_backs (call : Call σ) (hop : call.op.LfFree) :
    Backs (Orderly P Idle) (toolCall P.recorded fuel call.recorded) := by
  intro s hG c hc
  have hconn : s.conn = some c := hc
  rw [toolCall_works P.recorded fuel (.inl hconn)] at hG
  exact (exec_keeps fuel hop 0 0).back c (hG _ rfl)

/-- One call on both sides. -/
theorem toolCall_sim {call : Call σ} (hcall : Timely Idle call) :
    SimUnder (Orderly P Idle) (Pooled Idle) (toolCall P.recorded fuel call.recorded)
      (toolCall P fuel call) (fun _ => Pooled Idle) where
  back := toolCall_backs fuel call hcall.op
  ends := by
    intro s₁ s₂ h hG
    have hwork : ∀ c₁ c₂, Paired Idle c₁ c₂ →
        (s₁.conn = some c₁ ∨ s₁.conn = none ∧ call.recorded.dialled = .ok c₁) →
        (s₂.conn = some c₂ ∨ s₂.conn = none ∧ call.dialled = .ok c₂) →
        ((toolCall P.recorded fuel call.recorded).run s₁).1 = ((toolCall P fuel call).run s₂).1 ∧
          Pooled Idle ((toolCall P.recorded fuel call.recorded).run s₁).2
            ((toolCall P fuel call).run s₂).2 := by
      intro c₁ c₂ hpair h₁ h₂
      obtain ⟨b₁, b₂, hpair⟩ := hpair
      rw [toolCall_works P.recorded fuel h₁] at hG
      rw [toolCall_works P.recorded fuel h₁, toolCall_works P fuel h₂]
      obtain ⟨hval, hend⟩ := (exec_keeps fuel hcall.op b₁ b₂).ends c₁ c₂ hpair (hG _ rfl)
      exact ⟨congrArg Except.ok hval, .inr ⟨_, _, rfl, rfl, b₁, b₂, hend⟩⟩
    rcases h with ⟨hconn₁, hconn₂⟩ | ⟨c₁, c₂, hconn₁, hconn₂, hpair⟩
    · rcases dialled_paired hcall with ⟨e, hd₁, hd₂⟩ | ⟨c₁, c₂, hd₁, hd₂, hpair⟩
      · rw [toolCall_failed P.recorded fuel hconn₁ hd₁, toolCall_failed P fuel hconn₂ hd₂]
        exact ⟨rfl, .inl ⟨hconn₁, hconn₂⟩⟩
      · exact hwork c₁ c₂ hpair (.inr ⟨hconn₁, hd₁⟩) (.inr ⟨hconn₂, hd₂⟩)
    · exact hwork c₁ c₂ hpair (.inl hconn₁) (.inl hconn₂)

/-- Dropping what is unread and in flight on a settled connection changes nothing. -/
theorem Paired.forgetting {c₁ : Client (InFlight (Recorded σ))} {c₂ : Client (InFlight σ)}
    (h : Paired Idle c₁ c₂) : Paired Idle c₁ (forgetting c₂) := by
  obtain ⟨b₁, b₂, h⟩ := h
  refine ⟨b₁, b₂, ?_⟩
  unfold Pool.forgetting
  split
  · exact h
  · rename_i hsent
    have hheld : c₂.peer.held = [] := by
      rw [h.peer]
      exact h.idle.2.held
    have hpeer : { c₂.peer with held := [] } = c₂.peer := by rw [← hheld]
    have hquiet : Quiet c₁.fc.inp := by
      rcases h.unread with ⟨hok, -⟩ | ⟨-, -, hnone, -⟩
      · exact hok
      · simp [hnone] at hsent
    exact { h with peer := hpeer.trans h.peer, unread := .inl ⟨hquiet, quiet_nil⟩ }

theorem Pooled.forgetful {s₁ : Server (Client (InFlight (Recorded σ)))}
    {s₂ : Server (Client (InFlight σ))} (h : Pooled Idle s₁ s₂) :
    Pooled Idle s₁ (forgetful s₂) := by
  rcases h with ⟨hconn₁, hconn₂⟩ | ⟨c₁, c₂, hconn₁, hconn₂, hpair⟩
  · exact .inl ⟨hconn₁, by rw [Pool.forgetful, hconn₂]; rfl⟩
  · exact .inr ⟨c₁, Pool.forgetting c₂, hconn₁, by rw [Pool.forgetful, hconn₂]; rfl, hpair.forgetting⟩

/-- **Own responses.** In every run of tool calls whose responses arrive in time,
before each further call nothing is in flight on the pooled connection and, once a
command has been sent on it, only quiet bytes are unread; and the call returns what
it would return without them. -/
theorem results_own {calls : List (Call σ)} (hcalls : ∀ call ∈ calls, Timely Idle call)
    {next : Call σ} (hnext : Timely Idle next)
    (hP : ∀ e ∈ requests P fuel (calls ++ [next]), Prompted P .blanks Idle AckLine e.1 e.2) :
    let s := ((runCalls P fuel calls).run .new).2
    (∀ c ∈ s.conn, (c.sent ≠ [] → Quiet c.fc.inp) ∧ c.peer.held = []) ∧
      ((toolCall P fuel next).run s).1 = ((toolCall P fuel next).run (forgetful s)).1 := by
  have hlast := run_sequentially_concat (fun call => toolCall P.recorded fuel call.recorded) calls next
    (Server.new : Server (Client (InFlight (Recorded σ))))
  have horderly : Orderly P Idle ((toolCall P.recorded fuel next.recorded).run
      ((sequentially (fun call => toolCall P.recorded fuel call.recorded) calls).run .new).2).2 := by
    intro c hc e he
    refine hP e ?_
    rw [requests, hlast]
    dsimp only
    rw [Option.mem_def.mp hc]
    exact he
  have hcall := toolCall_sim (P := P) fuel hnext
  have hnew : Pooled Idle (.new : Server (Client (InFlight (Recorded σ)))) .new :=
    .inl ⟨rfl, rfl⟩
  obtain ⟨-, hpool⟩ := (SimUnder.sequentially fun call hc => toolCall_sim (P := P) fuel (hcalls call hc)).ends
    _ _ hnew (hcall.back _ horderly)
  refine ⟨?_, ?_⟩
  · intro c hc
    rcases hpool with ⟨-, hnone⟩ | ⟨c₁, c₂, -, hsome, b₁, b₂, hpair⟩
    · exact absurd (hnone.symm.trans hc) (Option.some_ne_none c).symm
    · obtain rfl : c₂ = c := Option.some.inj (hsome.symm.trans hc)
      refine ⟨fun hsent => ?_, ?_⟩
      · rcases hpair.unread with ⟨-, hok⟩ | ⟨-, -, hnone, -⟩
        · exact hok
        · exact absurd hnone hsent
      · rw [hpair.peer]
        exact hpair.idle.2.held
  · obtain ⟨hval, -⟩ := hcall.ends _ _ hpool horderly
    obtain ⟨hval', -⟩ := hcall.ends _ _ hpool.forgetful horderly
    exact hval.symm.trans hval'

end Calls

/-! ## A response that comes late -/

/-- A target that reports its versions in the format of QNX 8, and one
attribute. -/
def brokerLine (b : Bytes) : Bytes :=
  if b = ascii "versions ?\n" then ascii "versions: broker=257" else ascii "OS=QNX"

theorem brokerLine_prompted (s : Bool) (b : Bytes) :
    Prompted (scripted brokerLine (ascii "o:1")) .blanks (· = false) AckLine s b := by
  have hcases : ∀ b, brokerLine b = ascii "versions: broker=257" ∨ brokerLine b = ascii "OS=QNX" := by
    intro b
    unfold brokerLine
    split
    · exact .inl rfl
    · exact .inr rfl
  have hplain : ∀ b, PlainLine (brokerLine b) := by
    intro b
    rcases hcases b with h | h
    · rw [h]
      exact ⟨by decide, by decide, by decide⟩
    · rw [h]
      exact ⟨by decide, by decide, by decide⟩
  refine (scripted_prompted hplain ?_ ⟨by decide, by decide, by decide⟩ s b).mono
    fun line h => by rw [h]; rfl
  intro b
  rcases hcases (ascii "r:" ++ b) with h | h
  · rw [h]
    rfl
  · rw [h]
    rfl

/-- A dial to this target, whose responses are released as `plan` says. -/
def brokerConn (plan : List (Option Nat)) : Option (InFlight Bool × FrameConn) :=
  some (⟨false, [], plan⟩, stubConn)

theorem results_own_versions :
    Timely (· = false) ⟨brokerConn [], .versions⟩ ∧ Timely (· = false) ⟨none, .info⟩ ∧
      let s := ((runCalls (scripted brokerLine (ascii "o:1")) 1
        [⟨brokerConn [], .versions⟩]).run .new).2
      (∀ c ∈ s.conn, (c.sent ≠ [] → Quiet c.fc.inp) ∧ c.peer.held = []) ∧
        ((toolCall (scripted brokerLine (ascii "o:1")) 1 ⟨none, .info⟩).run s).1 =
          ((toolCall (scripted brokerLine (ascii "o:1")) 1 ⟨none, .info⟩).run (forgetful s)).1 := by
  have hfirst : Timely (· = false) ⟨brokerConn [], .versions⟩ := by
    refine ⟨nofun, ?_⟩
    intro s fc h _
    obtain ⟨rfl, rfl⟩ := Prod.mk.inj (Option.some.inj h)
    exact ⟨rfl, ⟨rfl, nofun⟩, _, stubConn_greets⟩
  have hnext : Timely (· = false) (⟨none, .info⟩ : Call Bool) := ⟨nofun, nofun⟩
  refine ⟨hfirst, hnext, results_own 1 ?_ hnext fun e _ => brokerLine_prompted e.1 e.2⟩
  intro call hcall
  rw [List.mem_singleton] at hcall
  exact hcall ▸ hfirst

/-- The value of a key that a call of `Info` returned, beside its error. -/
def infoField (key : Bytes) : Outcome → Option (Option Bytes × Option Err)
  | .ok (some (.info m, e)) => some (m.lookup key, e)
  | .ok (some (_, e)) => some (none, e)
  | _ => none

/-- `Versions` times out, and `Info` on the same pooled connection then succeeds
with the versions for attributes of the target. -/
theorem late_versions_as_info :
    (∀ s b, Prompted (scripted brokerLine (ascii "o:1")) .blanks (· = false) AckLine s b) ∧
      let calls : List (Call Bool) := [⟨brokerConn [some 0], .versions⟩, ⟨none, .info⟩]
      let r := (runCalls (scripted brokerLine (ascii "o:1")) 1 calls).run .new
      r.1.map (infoField (ascii "broker")) =
          [some (none, some (.io .timeout)), some (some (ascii "257"), none)] ∧
        r.1.map (infoField (ascii "OS")) =
          [some (none, some (.io .timeout)), some (none, none)] := by
  refine ⟨brokerLine_prompted, ?_⟩
  decide +kernel

end QconnMcp.Pool
