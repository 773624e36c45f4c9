import QconnMcp.Qconn.Exchange

/-!
# Stream synchronisation

A server that ends its response to every command with one prompt keeps the client
in step: after every operation the client has consumed as many prompts as it has
sent commands, and nothing of an earlier response is unread. The one exchange that
can break this is an upload the target refuses, because `writeAt` returns on any
status line but `o:` before it has read the prompt. Before the first command, what
the daemon sends behind the prompt of its greeting may be unread; it becomes part
of the first response.

The contract (`Prompted`) is asked of the requests that a run makes and of no
others: the server is run with a record of the writes it takes (`requests`).

The invariant is carried by a simulation between two clients (`Alike`), the left
one of them on the recording server: whatever quiet bytes each of them still has
unread, every operation returns the same and leaves them alike, as long as the
requests made have been answered as the contract says. Run against the server
without the record, a client stays synchronised; run against a client whose input
has been cleared, it shows that a result is built from the operation's own
responses only.
-/

namespace QconnMcp.Qconn

open Kit

/-! ## Servers that end every response with a prompt -/

/-- A command that is answered by a text block. -/
structure TextCmd (cmd : Bytes) : Prop where
  lf : (10 : UInt8) ∉ cmd
  notRead : (ascii "r:").isPrefixOf cmd = false
  notWrite : (ascii "w:").isPrefixOf cmd = false

/-- The contract of the server for one request, the write of `b` that it takes in
the state `s`. In the states `Idle` it waits for a command, in the others for a
payload. A command is answered by one complete response; an upload takes its
payload first, and `ack` says which status lines it may get. -/
structure Prompted {σ : Type} (P : Peer σ) (T : Trail) (Idle : σ → Prop) (ack : Bytes → Prop)
    (s : σ) (b : Bytes) : Prop where
  text : ∀ {cmd s' out}, Idle s → b = cmd ++ [10] → TextCmd cmd → P.recv s b = some (s', out) →
    Idle s' ∧ ∃ t, TextReply T t out
  read : ∀ {fd off n s' out}, Idle s → b = readCmd fd off n ++ [10] →
    P.recv s b = some (s', out) →
    Idle s' ∧ ∃ l data, StatusReply T l data out ∧ Client.Announces (statusLine l) data
  write : ∀ {fd off n s' out}, Idle s → b = writeCmd fd off n ++ [10] →
    P.recv s b = some (s', out) →
    out = [] ∧ ¬ Idle s' ∧ ∀ data : Bytes, data.length = n → P.recv s' data ≠ none
  payload : ∀ {s' out}, ¬ Idle s → P.recv s b = some (s', out) →
    Idle s' ∧ ∃ l, StatusReply T l [] out ∧ ack (statusLine l)

/-- The status line of a write that went through. -/
def AckLine (line : Bytes) : Prop := (ascii "o:").isPrefixOf line = true

/-! ## The commands the client sends -/

/-- A command is known by its first byte. -/
theorem textCmd_append {w rest : Bytes}
    (hw : w.head? ∉ [none, some 114, some 119] ∧ (10 : UInt8) ∉ w) (hrest : (10 : UInt8) ∉ rest) :
    TextCmd (w ++ rest) := by
  cases w with
  | nil => simp at hw
  | cons b w =>
      obtain ⟨hhead, hw⟩ := hw
      simp only [List.head?_cons, List.mem_cons, reduceCtorEq, Option.some.injEq,
        List.not_mem_nil, or_false, false_or, not_or] at hhead
      refine ⟨?_, ?_, ?_⟩
      · simp only [List.mem_append, not_or]
        exact ⟨hw, hrest⟩
      · show ((114 == b) && List.isPrefixOf [58] (w ++ rest)) = false
        simp [Ne.symm hhead.1]
      · show ((119 == b) && List.isPrefixOf [58] (w ++ rest)) = false
        simp [Ne.symm hhead.2]

theorem textCmd_fixed {cmd : Bytes}
    (h : cmd ∈ [ascii "q", ascii "done", ascii "versions ?", ascii "info"]) : TextCmd cmd := by
  have hall : ∀ cmd ∈ [ascii "q", ascii "done", ascii "versions ?", ascii "info"],
      cmd.head? ∉ [none, some 114, some 119] ∧ (10 : UInt8) ∉ cmd := by decide
  simpa using textCmd_append (hall cmd h) (List.not_mem_nil : (10 : UInt8) ∉ [])

theorem textCmd_service (s : Service) : TextCmd (ascii "service " ++ s.name) := by
  refine textCmd_append (by decide) ?_
  cases s <;> decide

theorem textCmd_kill (pid sig : Int) :
    TextCmd (ascii "kill " ++ fmtInt 10 pid ++ ascii " " ++ fmtInt 10 sig) := by
  simp only [List.append_assoc]
  refine textCmd_append (by decide) ?_
  simp [ascii]

theorem textCmd_open {path : Bytes} (hpath : (10 : UInt8) ∉ path) (flags mode : Int) :
    TextCmd (openCmd path flags mode) := by
  simp only [openCmd, List.append_assoc]
  refine textCmd_append (by decide) ?_
  simp [ascii, hpath]

theorem textCmd_close (fd : Int) : TextCmd (closeCmd fd) :=
  textCmd_append (by decide) (lf_not_mem_hex fd)

theorem textCmd_delete {path : Bytes} (hpath : (10 : UInt8) ∉ path) :
    TextCmd (deleteCmd path) := by
  simp only [deleteCmd, List.append_assoc]
  refine textCmd_append (by decide) ?_
  simp [ascii, hpath]

theorem textCmd_chmod (fd mode : Int) : TextCmd (chmodCmd fd mode) := by
  simp only [chmodCmd, List.append_assoc]
  refine textCmd_append (by decide) ?_
  simp [ascii]

/-! ## Clients that cannot be told apart -/

/-- What the simulation asks of two servers, of which the right one sees a part `π`
of the left one's state: in the states `Idle` the left one waits for a command, and
answers it with a complete response, unless `G` is lost with that answer. -/
structure Contract {σ τ : Type} (P₁ : Peer σ) (P₂ : Peer τ) (π : σ → τ) (T : Trail)
    (Idle G : σ → Prop) : Prop where
  back : ∀ {s b s' out}, P₁.recv s b = some (s', out) → G s' → G s
  mirror : ∀ s b, P₂.recv (π s) b = (P₁.recv s b).map fun r => (π r.1, r.2)
  text : ∀ {s cmd s' out}, Idle s → TextCmd cmd → P₁.recv s (cmd ++ [10]) = some (s', out) → G s' →
    Idle s' ∧ ∃ t, TextReply T t out
  read : ∀ {s fd off n s' out}, Idle s → P₁.recv s (readCmd fd off n ++ [10]) = some (s', out) →
    G s' → Idle s' ∧ ∃ l data, StatusReply T l data out ∧ Client.Announces (statusLine l) data
  write : ∀ {s fd off s₁ out₁} {data : Bytes}, Idle s → data ≠ [] →
    P₁.recv s (writeCmd fd off data.length ++ [10]) = some (s₁, out₁) → G s₁ →
    out₁ = [] ∧ ∃ s' out, P₁.recv s₁ data = some (s', out) ∧
      (G s' → Idle s' ∧ ∃ l, StatusReply T l [] out ∧ AckLine (statusLine l))

/-- Two clients in step with their servers, with nothing but quiet bytes unread.
Each has consumed one prompt per command since it had consumed `b₁` and `b₂` more
prompts than commands. If they are `fresh`, what is unread may be the end of the
greeting, as long as neither has sent a command. -/
structure Alike {σ τ : Type} (T : Trail) (Idle : σ → Prop) (π : σ → τ) (b₁ b₂ : Nat) (fresh : Prop)
    (c₁ : Client σ) (c₂ : Client τ) : Prop where
  peer : c₂.peer = π c₁.peer
  idle : Idle c₁.peer
  current : c₁.current = c₂.current
  infoMap : c₁.infoMap = c₂.infoMap
  unread : T.ok c₁.fc.inp ∧ T.ok c₂.fc.inp ∨
    fresh ∧ c₁.sent = [] ∧ c₂.sent = [] ∧ c₁.fc.inp = c₂.fc.inp ∧ Preamble c₁.fc.inp
  count₁ : c₁.fc.promptsRead = b₁ + c₁.sent.length
  count₂ : c₂.fc.promptsRead = b₂ + c₂.sent.length

theorem Alike.mono {σ τ : Type} {T : Trail} {Idle : σ → Prop} {π : σ → τ} {b₁ b₂ : Nat}
    {fresh fresh' : Prop} {c₁ : Client σ} {c₂ : Client τ} (h : Alike T Idle π b₁ b₂ fresh c₁ c₂)
    (hf : fresh → fresh') : Alike T Idle π b₁ b₂ fresh' c₁ c₂ :=
  { h with unread := h.unread.imp_right fun hu => ⟨hf hu.1, hu.2⟩ }

theorem Alike.settled {σ τ : Type} {T : Trail} {Idle : σ → Prop} {π : σ → τ} {b₁ b₂ : Nat}
    {c₁ : Client σ} {c₂ : Client τ} (h : Alike T Idle π b₁ b₂ False c₁ c₂) :
    T.ok c₁.fc.inp ∧ T.ok c₂.fc.inp :=
  h.unread.resolve_right fun hu => hu.1

/-- The two programs return the same and keep the clients related, as long as the
left server has `G`. -/
abbrev Keeps {σ τ α : Type} (G : σ → Prop) (R : Client σ → Client τ → Prop) (m : Act σ α)
    (n : Act τ α) : Prop :=
  SimUnder (fun c => G c.peer) R m n fun _ => R

namespace Client

section Simulation

variable {σ τ : Type} {P₁ : Peer σ} {P₂ : Peer τ} {π : σ → τ} {T : Trail} {Idle G : σ → Prop}
  {b₁ b₂ : Nat} {fresh : Prop}

theorem After.count {c c' : Client σ} {s : σ} {cmds : List Bytes} {b : Nat}
    (h : After T c s cmds c') (hc : c.fc.promptsRead = b + c.sent.length) :
    c'.fc.promptsRead = b + c'.sent.length := by
  rw [h.promptsRead, h.sent, hc]
  simp only [List.length_append, List.length_map]
  omega

theorem After.alike {c₁ c₁' : Client σ} {c₂ c₂' : Client τ} {s : σ} {cmds : List Bytes}
    {fresh' : Prop} (h : Alike T Idle π b₁ b₂ fresh c₁ c₂) (hs : Idle s)
    (h₁ : After T c₁ s cmds c₁') (h₂ : After T c₂ (π s) cmds c₂') :
    Alike T Idle π b₁ b₂ fresh' c₁' c₂' where
  peer := h₂.peer.trans (congrArg π h₁.peer.symm)
  idle := h₁.peer ▸ hs
  current := by rw [h₁.current, h₂.current, h.current]
  infoMap := by rw [h₁.infoMap, h₂.infoMap, h.infoMap]
  unread := .inl ⟨h₁.unread, h₂.unread⟩
  count₁ := h₁.count h.count₁
  count₂ := h₂.count h.count₂

theorem service_sim : Keeps G (Alike T Idle π b₁ b₂ fresh) service service :=
  ⟨fun _ h => h, fun _ _ h _ => ⟨h.current, h⟩⟩

theorem setService_sim (s : Service) :
    Keeps G (Alike T Idle π b₁ b₂ fresh) (setService s) (setService s) :=
  ⟨fun _ h => h, fun _ _ h _ => ⟨rfl, { h with current := rfl }⟩⟩

theorem cachedInfo_sim : Keeps G (Alike T Idle π b₁ b₂ fresh) cachedInfo cachedInfo :=
  ⟨fun _ h => h, fun _ _ h _ => ⟨h.infoMap, h⟩⟩

theorem cacheInfo_sim (m : AList fun _ : Bytes => Bytes) :
    Keeps G (Alike T Idle π b₁ b₂ fresh) (cacheInfo m) (cacheInfo m) :=
  ⟨fun _ h => h, fun _ _ h _ => ⟨rfl, { h with infoMap := rfl }⟩⟩

/-! The state of the server changes by writes alone. -/

theorem onConn_backs {α : Type} (rd : FrameConn → α × FrameConn) :
    Backs (fun c : Client σ => G c.peer) (onConn rd) :=
  fun _ h => h

theorem readPayload_backs (n : Int) : Backs (fun c => G c.peer) (readPayload (σ := σ) n) := by
  refine .bind ?_ ?_
  · split
    · exact onConn_backs _
    · exact .pure _
  · intro r
    rcases r with ⟨data, _ | e⟩
    · exact (onConn_backs _).bind fun r => .pure _
    · exact .pure _

theorem readStatus_backs (line : Bytes) : Backs (fun c => G c.peer) (readStatus (σ := σ) line) := by
  unfold readStatus
  split
  · exact (onConn_backs _).bind fun r => .pure _
  · split
    · split
      · exact .pure _
      · exact readPayload_backs _
    · exact (onConn_backs _).bind fun r => .pure _

/-- What keeps every property of the server's state keeps the state. -/
theorem peer_of_backs {α : Type} {m : Act σ α}
    (h : ∀ G : σ → Prop, Backs (fun c => G c.peer) m) (c : Client σ) :
    (m.run c).2.peer = c.peer := by
  by_contra hne
  exact h (· ≠ c.peer) c hne rfl

theorem readAt_peer {P : Peer σ} {c : Client σ} {fd off n : Int} {out : Bytes} {s : σ}
    (h : P.recv c.peer (readCmd fd off (clipRead n) ++ [10]) = some (s, out)) :
    ((readAt P fd off n).run c).2.peer = s := by
  rw [readAt, run_bind, writeLine_some h]
  refine (peer_of_backs (fun G => ?_) _).trans rfl
  refine (onConn_backs _).bind ?_
  intro r
  rcases r with ⟨line, _ | e⟩
  · exact readStatus_backs line
  · exact .pure _

theorem writeAt_peer {P : Peer σ} {c : Client σ} {fd off : Int} {data out₁ : Bytes} {s₁ : σ}
    (h : P.recv c.peer (writeCmd fd off data.length ++ [10]) = some (s₁, out₁)) :
    P.recv s₁ data = none ∧ ((writeAt P fd off data).run c).2.peer = s₁ ∨
      ∃ s out, P.recv s₁ data = some (s, out) ∧ ((writeAt P fd off data).run c).2.peer = s := by
  rw [writeAt, run_bind, writeLine_some h]
  show _ ∧ ((writeRaw P data >>= _).run _).2.peer = _ ∨ _
  cases hpay : P.recv s₁ data with
  | none =>
      refine .inl ⟨rfl, ?_⟩
      rw [run_bind, writeRaw_none (c := (c.received P s₁ out₁).logged _) hpay]
      rfl
  | some r =>
      obtain ⟨s, out⟩ := r
      refine .inr ⟨s, out, rfl, ?_⟩
      show ((writeRaw P data >>= _).run _).2.peer = _
      rw [run_bind, writeRaw_some (c := (c.received P s₁ out₁).logged _) hpay]
      refine (peer_of_backs (fun G => ?_) _).trans rfl
      refine (onConn_backs _).bind ?_
      intro r
      rcases r with ⟨line, _ | e⟩
      · dsimp only
        split
        · exact (onConn_backs _).bind fun r => .pure _
        · exact .pure _
      · exact .pure _

variable (hP : Contract P₁ P₂ π T Idle G)

include hP

theorem writeRaw_backs (b : Bytes) : Backs (fun c => G c.peer) (writeRaw P₁ b) := by
  intro c h
  cases hrecv : P₁.recv c.peer b with
  | none =>
      rwa [writeRaw_none hrecv] at h
  | some r =>
      rw [writeRaw_some hrecv] at h
      exact hP.back hrecv h

theorem writeLine_backs (cmd : Bytes) : Backs (fun c => G c.peer) (writeLine P₁ cmd) := by
  intro c h
  cases hrecv : P₁.recv c.peer (cmd ++ [10]) with
  | none => rwa [writeLine_none hrecv] at h
  | some r =>
      rw [writeLine_some hrecv] at h
      exact hP.back hrecv h

theorem raw_backs (cmd : Bytes) : Backs (fun c => G c.peer) (raw P₁ cmd) := by
  refine (writeLine_backs hP cmd).bind ?_
  intro e
  cases e with
  | some e => exact .pure _
  | none => exact (onConn_backs _).bind fun r => .pure _

theorem readAt_backs (fd off n : Int) : Backs (fun c => G c.peer) (readAt P₁ fd off n) := by
  refine (writeLine_backs hP _).bind ?_
  intro e
  cases e with
  | some e => exact .pure _
  | none =>
      refine (onConn_backs _).bind ?_
      intro r
      rcases r with ⟨line, _ | e⟩
      · exact readStatus_backs line
      · exact .pure _

theorem writeAt_backs (fd off : Int) (data : Bytes) :
    Backs (fun c => G c.peer) (writeAt P₁ fd off data) := by
  refine (writeLine_backs hP _).bind ?_
  intro e
  cases e with
  | some e => exact .pure _
  | none =>
      refine (writeRaw_backs hP data).bind ?_
      intro e
      cases e with
      | some e => exact .pure _
      | none =>
          refine (onConn_backs _).bind ?_
          intro r
          rcases r with ⟨line, _ | e⟩
          · dsimp only
            split
            · exact (onConn_backs _).bind fun r => .pure _
            · exact .pure _
          · exact .pure _

/-! The three exchanges. -/

theorem mirrored {c₁ : Client σ} {c₂ : Client τ} (h : Alike T Idle π b₁ b₂ fresh c₁ c₂) {b : Bytes}
    {r : Option (σ × Bytes)} (hrecv : P₁.recv c₁.peer b = r) :
    P₂.recv c₂.peer b = r.map fun x => (π x.1, x.2) := by
  rw [h.peer, hP.mirror, hrecv]

/-- Once a command has got its response, nothing of the greeting is unread. -/
theorem raw_settles {cmd : Bytes} (hcmd : TextCmd cmd) :
    SimUnder (fun c => G c.peer) (Alike T Idle π b₁ b₂ fresh) (raw P₁ cmd) (raw P₂ cmd)
      (fun r => Alike T Idle π b₁ b₂ (fresh ∧ r.2 ≠ none)) where
  back := raw_backs hP cmd
  ends := by
    intro c₁ c₂ h hG
    cases hrecv : P₁.recv c₁.peer (cmd ++ [10]) with
    | none =>
        rw [raw_refused hrecv, raw_refused (mirrored hP h hrecv)]
        exact ⟨rfl, h.mono fun hf => ⟨hf, nofun⟩⟩
    | some r =>
        obtain ⟨s, out⟩ := r
        have hrecv₂ := mirrored hP h hrecv
        rw [raw_peer_some hrecv] at hG
        obtain ⟨hidle, t, hout⟩ := hP.text h.idle hcmd hrecv hG
        have hboth : ∃ x c₁' c₂', (raw P₁ cmd).run c₁ = ((x, none), c₁') ∧ After T c₁ s [cmd] c₁' ∧
            (raw P₂ cmd).run c₂ = ((x, none), c₂') ∧ After T c₂ (π s) [cmd] c₂' := by
          rcases h.unread with ⟨h₁, h₂⟩ | ⟨-, -, -, hsame, hpre⟩
          · obtain ⟨c₁', hrun₁, hafter₁⟩ := raw_of_reply h₁ hrecv hout
            obtain ⟨c₂', hrun₂, hafter₂⟩ := raw_of_reply h₂ hrecv₂ hout
            exact ⟨_, c₁', c₂', hrun₁, hafter₁, hrun₂, hafter₂⟩
          · -- the end of the greeting is read as the beginning of the response
            obtain ⟨w, hout⟩ := hout.preceded hpre
            obtain ⟨c₁', hrun₁, hafter₁⟩ := raw_of_unread hrecv hout
            obtain ⟨c₂', hrun₂, hafter₂⟩ := raw_of_unread hrecv₂ (hsame ▸ hout)
            exact ⟨_, c₁', c₂', hrun₁, hafter₁, hrun₂, hafter₂⟩
        obtain ⟨x, c₁', c₂', hrun₁, hafter₁, hrun₂, hafter₂⟩ := hboth
        rw [hrun₁, hrun₂]
        exact ⟨rfl, hafter₁.alike h hidle hafter₂⟩

theorem raw_sim {cmd : Bytes} (hcmd : TextCmd cmd) :
    Keeps G (Alike T Idle π b₁ b₂ fresh) (raw P₁ cmd) (raw P₂ cmd) :=
  (raw_settles hP hcmd).conseq (fun _ _ h => h) fun _ _ _ h => h.mono fun hf => hf.1

theorem readAt_sim (fd off n : Int) :
    Keeps G (Alike T Idle π b₁ b₂ False) (readAt P₁ fd off n) (readAt P₂ fd off n) where
  back := readAt_backs hP fd off n
  ends := by
    intro c₁ c₂ h hG
    cases hrecv : P₁.recv c₁.peer (readCmd fd off (clipRead n) ++ [10]) with
    | none =>
        rw [readAt_refused hrecv, readAt_refused (mirrored hP h hrecv)]
        exact ⟨rfl, h⟩
    | some r =>
        obtain ⟨s, out⟩ := r
        have hpeer : ((readAt P₁ fd off n).run c₁).2.peer = s := readAt_peer hrecv
        rw [hpeer] at hG
        obtain ⟨hidle, l, data, hout, hann⟩ := hP.read h.idle hrecv hG
        obtain ⟨c₁', hrun₁, hafter₁⟩ := readAt_of_reply h.settled.1 hrecv hout hann
        obtain ⟨c₂', hrun₂, hafter₂⟩ :=
          readAt_of_reply h.settled.2 (mirrored hP h hrecv) hout hann
        rw [hrun₁, hrun₂]
        exact ⟨rfl, hafter₁.alike h hidle hafter₂⟩

theorem writeAt_sim (fd off : Int) {data : Bytes} (hdata : data ≠ []) :
    Keeps G (Alike T Idle π b₁ b₂ False) (writeAt P₁ fd off data) (writeAt P₂ fd off data) where
  back := writeAt_backs hP fd off data
  ends := by
    intro c₁ c₂ h hG
    cases hreq : P₁.recv c₁.peer (writeCmd fd off data.length ++ [10]) with
    | none =>
        rw [writeAt_refused hreq, writeAt_refused (mirrored hP h hreq)]
        exact ⟨rfl, h⟩
    | some r =>
        obtain ⟨s₁, out₁⟩ := r
        -- the run ends at the line or behind the payload, so the line was answered as due
        have hline : G s₁ := by
          rcases writeAt_peer hreq with ⟨-, hpeer⟩ | ⟨s, out, hpay, hpeer⟩
          · rwa [hpeer] at hG
          · exact hP.back hpay (hpeer ▸ hG)
        obtain ⟨rfl, s, out, hpay, hends⟩ := hP.write h.idle hdata hreq hline
        have hpay₂ : P₂.recv (π s₁) data = some (π s, out) := by
          rw [hP.mirror, hpay]
          rfl
        have hpeer : ((writeAt P₁ fd off data).run c₁).2.peer = s := by
          rcases writeAt_peer hreq with ⟨hnone, -⟩ | ⟨s', out', hpay', hpeer⟩
          · simp [hpay] at hnone
          · obtain ⟨rfl, -⟩ := Prod.mk.inj (Option.some.inj (hpay.symm.trans hpay'))
            exact hpeer
        rw [hpeer] at hG
        obtain ⟨hidle, l, hout, hack⟩ := hends hG
        obtain ⟨c₁', hrun₁, hafter₁⟩ := writeAt_of_reply h.settled.1 hreq hpay hout hack
        obtain ⟨c₂', hrun₂, hafter₂⟩ :=
          writeAt_of_reply h.settled.2 (mirrored hP h hreq) hpay₂ hout hack
        rw [hrun₁, hrun₂]
        exact ⟨rfl, hafter₁.alike h hidle hafter₂⟩

/-! Every method above the three exchanges follows its text. -/

theorem leaveService_sim :
    Keeps G (Alike T Idle π b₁ b₂ fresh) (leaveService P₁) (leaveService P₂) := by
  refine service_sim.bind ?_
  intro cur
  refine (raw_sim hP ?_).bind ?_
  · apply textCmd_fixed
    split <;> simp
  · intro r
    rcases r with ⟨_, _ | e⟩
    · exact (setService_sim .broker).bind fun _ => .pure fun _ _ h => h
    · exact .pure fun _ _ h => h

theorem ensure_sim (s : Service) :
    Keeps G (Alike T Idle π b₁ b₂ fresh) (ensure P₁ s) (ensure P₂ s) := by
  refine service_sim.bind ?_
  intro cur
  refine .ite (fun _ => .pure fun _ _ h => h) fun _ => ?_
  refine .bind (.ite (fun _ => .pure fun _ _ h => h) fun _ => leaveService_sim hP) ?_
  intro left
  cases left with
  | some e => exact .pure fun _ _ h => h
  | none =>
      refine .ite (fun _ => .pure fun _ _ h => h) fun _ => ?_
      refine (raw_sim hP (textCmd_service s)).bind ?_
      intro r
      rcases r with ⟨resp, _ | e⟩
      · refine .ite (fun _ => ?_) fun _ => .pure fun _ _ h => h
        exact (setService_sim s).bind fun _ => .pure fun _ _ h => h
      · exact .pure fun _ _ h => h

theorem versions_sim : Keeps G (Alike T Idle π b₁ b₂ fresh) (versions P₁) (versions P₂) := by
  refine (ensure_sim hP .broker).bind ?_
  intro left
  cases left with
  | some e => exact .pure fun _ _ h => h
  | none =>
      refine (raw_sim hP (textCmd_fixed (by simp))).bind ?_
      intro r
      rcases r with ⟨resp, _ | e⟩
      · exact .pure fun _ _ h => h
      · exact .pure fun _ _ h => h

theorem info_sim : Keeps G (Alike T Idle π b₁ b₂ fresh) (info P₁) (info P₂) := by
  refine cachedInfo_sim.bind ?_
  intro cached
  cases cached with
  | some m => exact .pure fun _ _ h => h
  | none =>
      refine (ensure_sim hP .broker).bind ?_
      intro left
      cases left with
      | some e => exact .pure fun _ _ h => h
      | none =>
          refine (raw_sim hP (textCmd_fixed (by simp))).bind ?_
          intro r
          rcases r with ⟨resp, _ | e⟩
          · exact (cacheInfo_sim _).bind fun _ => .pure fun _ _ h => h
          · exact .pure fun _ _ h => h

theorem signal_sim (pid sig : Int) :
    Keeps G (Alike T Idle π b₁ b₂ fresh) (signal P₁ pid sig) (signal P₂ pid sig) := by
  refine (ensure_sim hP .cntl).bind ?_
  intro left
  cases left with
  | some e => exact .pure fun _ _ h => h
  | none =>
      refine (raw_sim hP (textCmd_kill pid sig)).bind ?_
      intro r
      rcases r with ⟨resp, _ | e⟩
      · exact .ite (fun _ => .pure fun _ _ h => h) fun _ => .pure fun _ _ h => h
      · exact .pure fun _ _ h => h

/-- A file that is open has been opened by a command, so the greeting is read. -/
theorem openFile_settles {path : Bytes} (hpath : (10 : UInt8) ∉ path) (flags mode : Int) :
    SimUnder (fun c => G c.peer) (Alike T Idle π b₁ b₂ fresh) (openFile P₁ path flags mode)
      (openFile P₂ path flags mode)
      (fun r => Alike T Idle π b₁ b₂ (fresh ∧ ∀ h, r ≠ .ok h)) := by
  refine (raw_settles hP (textCmd_open hpath flags mode)).bind ?_
  intro r
  rcases r with ⟨resp, _ | e⟩
  · dsimp only
    split
    · exact .pure fun _ _ h => h.mono fun hf => absurd rfl hf.2
    · exact .pure fun _ _ h => h.mono fun hf => absurd rfl hf.2
  · exact .pure fun _ _ h => h.mono fun hf => ⟨hf.1, nofun⟩

theorem closeFile_sim (fd : Int) :
    Keeps G (Alike T Idle π b₁ b₂ fresh) (closeFile P₁ fd) (closeFile P₂ fd) := by
  refine (raw_sim hP (textCmd_close fd)).bind ?_
  intro r
  rcases r with ⟨resp, _ | e⟩
  · exact .pure fun _ _ h => h
  · exact .pure fun _ _ h => h

theorem readLoop_sim (h : FileHandle) (fuel : Nat) : ∀ (out : Bytes) (off : Int),
    Keeps G (Alike T Idle π b₁ b₂ False) (readLoop P₁ h fuel out off)
      (readLoop P₂ h fuel out off) := by
  induction fuel with
  | zero =>
      intro out off
      exact .pure fun _ _ h => h
  | succ fuel ih =>
      intro out off
      refine (readAt_sim hP h.fd off maxReadChunk).bind ?_
      intro r
      rcases r with ⟨chunk, _ | e⟩
      · refine .ite (fun _ => .pure fun _ _ h => h) fun _ => ?_
        exact .ite (fun _ => .pure fun _ _ h => h) fun _ => ih _ _
      · exact .pure fun _ _ h => h

theorem rangeLoop_sim (fd off n : Int) (fuel : Nat) : ∀ out : Bytes,
    Keeps G (Alike T Idle π b₁ b₂ False) (rangeLoop P₁ fd off n fuel out)
      (rangeLoop P₂ fd off n fuel out) := by
  induction fuel with
  | zero =>
      intro out
      exact .pure fun _ _ h => h
  | succ fuel ih =>
      intro out
      refine .ite (fun _ => ?_) fun _ => .pure fun _ _ h => h
      refine (readAt_sim hP fd _ _).bind ?_
      intro r
      rcases r with ⟨chunk, _ | e⟩
      · exact .ite (fun _ => .pure fun _ _ h => h) fun _ => ih _
      · exact .pure fun _ _ h => h

theorem writeLoop_sim (fd off : Int) (data : Bytes) (fuel : Nat) : ∀ total : Int,
    Keeps G (Alike T Idle π b₁ b₂ False) (writeLoop P₁ fd off data fuel total)
      (writeLoop P₂ fd off data fuel total) := by
  induction fuel with
  | zero =>
      intro total
      exact .pure fun _ _ h => h
  | succ fuel ih =>
      intro total
      refine .ite (fun hlt => ?_) fun _ => .pure fun _ _ h => h
      refine .ite (fun _ => .pure fun _ _ h => h) fun hpos => ?_
      refine (writeAt_sim hP fd _ (chunk_ne_nil hlt hpos)).bind ?_
      intro r
      rcases r with ⟨nw, _ | e⟩
      · exact .ite (fun _ => .pure fun _ _ h => h) fun _ => ih _
      · exact .pure fun _ _ h => h

theorem withFile_sim {α : Type} {path : Bytes} (hpath : (10 : UInt8) ∉ path) (flags mode : Int)
    (failed : Err → α) {body₁ : FileHandle → Act σ α} {body₂ : FileHandle → Act τ α}
    (hbody : ∀ h, Keeps G (Alike T Idle π b₁ b₂ False) (body₁ h) (body₂ h)) :
    Keeps G (Alike T Idle π b₁ b₂ fresh) (withFile P₁ path flags mode failed body₁)
      (withFile P₂ path flags mode failed body₂) := by
  refine (ensure_sim hP .file).bind ?_
  intro left
  cases left with
  | some e => exact .pure fun _ _ h => h
  | none =>
      refine (openFile_settles hP hpath flags mode).bind ?_
      intro opened
      cases opened with
      | error e => exact .pure fun _ _ h => h.mono fun hf => hf.1
      | ok h =>
          refine ((hbody h).conseq (fun _ _ hc => hc.mono fun hf => hf.2 h rfl)
            fun _ _ _ hc => hc).bind ?_
          intro r
          refine (closeFile_sim hP h.fd).bind ?_
          exact fun _ => .pure fun _ _ hc => hc.mono False.elim

theorem delete_sim {path : Bytes} (hpath : (10 : UInt8) ∉ path) :
    Keeps G (Alike T Idle π b₁ b₂ fresh) (delete P₁ path) (delete P₂ path) := by
  refine (ensure_sim hP .file).bind ?_
  intro left
  cases left with
  | some e => exact .pure fun _ _ h => h
  | none =>
      refine (raw_sim hP (textCmd_delete hpath)).bind ?_
      intro r
      rcases r with ⟨resp, _ | e⟩
      · exact .pure fun _ _ h => h
      · exact .pure fun _ _ h => h

theorem mkdir_sim {path : Bytes} (hpath : (10 : UInt8) ∉ path) (mode : Int) :
    Keeps G (Alike T Idle π b₁ b₂ fresh) (mkdir P₁ path mode) (mkdir P₂ path mode) := by
  refine (ensure_sim hP .file).bind ?_
  intro left
  cases left with
  | some e => exact .pure fun _ _ h => h
  | none =>
      refine (openFile_settles hP hpath _ _).bind ?_
      intro opened
      cases opened with
      | error e => exact .pure fun _ _ h => h.mono fun hf => hf.1
      | ok h => exact (closeFile_sim hP h.fd).conseq (fun _ _ hc => hc.mono fun hf => hf.1) fun _ _ _ hc => hc

theorem chmod_sim {path : Bytes} (hpath : (10 : UInt8) ∉ path) (mode : Int) :
    Keeps G (Alike T Idle π b₁ b₂ fresh) (chmod P₁ path mode) (chmod P₂ path mode) := by
  refine withFile_sim hP hpath _ _ _ ?_
  intro h
  refine (raw_sim hP (textCmd_chmod h.fd mode)).bind ?_
  intro r
  rcases r with ⟨resp, _ | e⟩
  · exact .pure fun _ _ h => h
  · exact .pure fun _ _ h => h

end Simulation

end Client

/-! ## Runs -/

/-- No line feed in the path an operation sends. -/
def Op.LfFree (op : Op) : Prop := ∀ p ∈ op.path?, (10 : UInt8) ∉ p

section Runs

variable {σ τ : Type} {P₁ : Peer σ} {P₂ : Peer τ} {π : σ → τ} {T : Trail} {Idle G : σ → Prop}
  {b₁ b₂ : Nat} {fresh : Prop} (hP : Contract P₁ P₂ π T Idle G) (fuel : Nat)

include hP

theorem Op.exec_sim {op : Op} (hop : op.LfFree) :
    Keeps G (Alike T Idle π b₁ b₂ fresh) (op.exec P₁ fuel) (op.exec P₂ fuel) := by
  have hpath : ∀ p, op.path? = some p → (10 : UInt8) ∉ p := hop
  cases op with
  | versions => exact (Client.versions_sim hP).bind fun _ => .pure fun _ _ h => h
  | info => exact (Client.info_sim hP).bind fun _ => .pure fun _ _ h => h
  | stat path =>
      refine (Client.withFile_sim hP (hpath path rfl) _ _ _ fun h => ?_).bind fun _ => ?_
      · exact .pure fun _ _ h => h
      · exact .pure fun _ _ h => h
  | readFile path =>
      refine (Client.withFile_sim hP (hpath path rfl) _ _ _ fun h => ?_).bind fun _ => ?_
      · exact Client.readLoop_sim hP h fuel [] 0
      · exact .pure fun _ _ h => h
  | readFileRange path off n =>
      refine (Client.withFile_sim hP (hpath path rfl) _ _ _ fun h => ?_).bind fun _ => ?_
      · exact Client.rangeLoop_sim hP h.fd off n n.toNat []
      · exact .pure fun _ _ h => h
  | writeFile path data mode =>
      refine (Client.withFile_sim hP (hpath path rfl) _ _ _ fun h => ?_).bind fun _ => ?_
      · exact Client.writeLoop_sim hP h.fd 0 data (data.length + 1) 0
      · exact .pure fun _ _ h => h
  | writeFileAt path off data =>
      refine (Client.withFile_sim hP (hpath path rfl) _ _ _ fun h => ?_).bind fun _ => ?_
      · exact Client.writeLoop_sim hP h.fd off data (data.length + 1) 0
      · exact .pure fun _ _ h => h
  | delete path =>
      exact (Client.delete_sim hP (hpath path rfl)).bind fun _ => .pure fun _ _ h => h
  | mkdir path mode =>
      exact (Client.mkdir_sim hP (hpath path rfl) mode).bind fun _ => .pure fun _ _ h => h
  | chmod path mode =>
      exact (Client.chmod_sim hP (hpath path rfl) mode).bind fun _ => .pure fun _ _ h => h
  | signal pid sig => exact (Client.signal_sim hP pid sig).bind fun _ => .pure fun _ _ h => h

theorem runOps_sim {ops : List Op} (hops : ∀ op ∈ ops, op.LfFree) :
    Keeps G (Alike T Idle π b₁ b₂ fresh) (runOps P₁ fuel ops) (runOps P₂ fuel ops) := by
  induction ops with
  | nil => exact .pure fun _ _ h => h
  | cons op ops ih =>
      refine (Op.exec_sim hP fuel (hops op List.mem_cons_self)).bind ?_
      intro r
      cases r with
      | none => exact .pure fun _ _ h => h
      | some r =>
          refine (ih fun o ho => hops o (List.mem_cons_of_mem _ ho)).bind ?_
          exact fun _ => .pure fun _ _ h => h

end Runs

/-! ## The requests of a run -/

section Requests

variable {σ : Type} (P : Peer σ)

/-- The writes that the server takes in a run of operations on a new connection,
each with the state in which it takes it. -/
def requests (fuel : Nat) (s : σ) (fc : FrameConn) (ops : List Op) : List (σ × Bytes) :=
  ((runOps P.recorded fuel ops).run (Client.dial (s, []) fc).2).2.peer.2

variable {P} {T : Trail} {Idle : σ → Prop}

/-- The contract of every request on record is what the simulation asks for. -/
theorem recorded_contract :
    Contract P.recorded P Prod.fst T (fun s => Idle s.1)
      (fun s => ∀ e ∈ s.2, Prompted P T Idle AckLine e.1 e.2) where
  back := Peer.recorded_back
  mirror := Peer.recv_recorded
  text := by
    intro s cmd s' out hs hcmd hrecv hG
    obtain ⟨hplain, hlog⟩ := Peer.recorded_some hrecv
    exact (hG (s.1, cmd ++ [10]) (by simp [hlog])).text hs rfl hcmd hplain
  read := by
    intro s fd off n s' out hs hrecv hG
    obtain ⟨hplain, hlog⟩ := Peer.recorded_some hrecv
    exact (hG (s.1, readCmd fd off n ++ [10]) (by simp [hlog])).read hs rfl hplain
  write := by
    intro s fd off s₁ out₁ data hs hdata hreq hG
    obtain ⟨hplain, hlog⟩ := Peer.recorded_some hreq
    obtain ⟨hout, hwaits, htakes⟩ :=
      (hG (s.1, writeCmd fd off data.length ++ [10]) (by simp [hlog])).write hs rfl hplain
    obtain ⟨r, hr⟩ := Option.ne_none_iff_exists'.mp (htakes data rfl)
    refine ⟨hout, (r.1, s₁.2 ++ [(s₁.1, data)]), r.2, ?_, ?_⟩
    · show (P.recv s₁.1 data).map _ = _
      rw [hr]
      rfl
    · intro hG'
      exact (hG' (s₁.1, data) (by simp)).payload hwaits hr

end Requests

/-- The text `t`, a prompt, and whatever the daemon sends behind it before the first
command: the real one and the mock send a line about telnet options there. -/
def Greets (t inp : Bytes) : Prop :=
  ∃ p rest r, p ∈ prompts ∧ NoPrompt t ∧ Pulls inp (t ++ p) rest r ∧ Preamble rest

/-- The handshake consumes the greeting up to its prompt. -/
theorem dial_of_greets {fc : FrameConn} {t : Bytes} (hgreet : Greets t fc.inp) :
    ∃ fc', (∀ (σ : Type) (s : σ), Client.dial s fc = (none, ⟨fc', s, .broker, none, []⟩)) ∧
      Preamble fc'.inp ∧ fc'.promptsRead = fc.promptsRead + 1 := by
  obtain ⟨p, rest, r, hp, ht, hpulls, hrest⟩ := hgreet
  refine ⟨fc.afterPrompt rest r, ?_, hrest.swallow _, rfl⟩
  intro σ s
  rw [Client.dial, Client.handshake, run_bind,
    Client.run_readUntilPrompt (FrameConn.readUntilPrompt_found hp ht hpulls)]
  rfl

theorem dial_alike {σ τ : Type} {T : Trail} {Idle : σ → Prop} {π : σ → τ} {s : σ} (hs : Idle s)
    {fc : FrameConn} {t : Bytes} (hgreet : Greets t fc.inp) :
    Alike T Idle π (fc.promptsRead + 1) (fc.promptsRead + 1) True (Client.dial s fc).2
      (Client.dial (π s) fc).2 := by
  obtain ⟨fc', hdial, hpre, hcount⟩ := dial_of_greets hgreet
  rw [hdial, hdial]
  exact ⟨rfl, hs, rfl, rfl, .inr ⟨trivial, rfl, rfl, rfl, hpre⟩, hcount, hcount⟩

/-- **In step.** In every run on a new connection whose requests the server answers
as the contract says, uploads with an `o:` line, the client has consumed one prompt
for the greeting and one for each command it has sent, and once it has sent one
only quiet bytes are unread. -/
theorem run_in_step {σ : Type} {P : Peer σ} {T : Trail} {Idle : σ → Prop} {s : σ} (hs : Idle s)
    {fc : FrameConn} {t : Bytes} (hgreet : Greets t fc.inp) (hfresh : fc.promptsRead = 0)
    (fuel : Nat) {ops : List Op} (hops : ∀ op ∈ ops, op.LfFree)
    (hP : ∀ e ∈ requests P fuel s fc ops, Prompted P T Idle AckLine e.1 e.2) :
    let c := ((runOps P fuel ops).run (Client.dial s fc).2).2
    c.fc.promptsRead = c.sent.length + 1 ∧ (c.sent ≠ [] → Quiet c.fc.inp) := by
  have hdial : Alike T (fun s => Idle s.1) Prod.fst (fc.promptsRead + 1) (fc.promptsRead + 1) True
      (Client.dial (s, []) fc).2 (Client.dial s fc).2 :=
    dial_alike (σ := Recorded σ) hs hgreet
  obtain ⟨-, hrun⟩ := (runOps_sim recorded_contract fuel hops).ends _ _ hdial hP
  refine ⟨?_, ?_⟩
  · rw [hrun.count₂, hfresh]
    omega
  · intro hsent
    rcases hrun.unread with ⟨-, h⟩ | ⟨-, -, h, -⟩
    · exact T.quiet h
    · exact absurd h hsent

/-! ## A small target -/

/-- The line with which the target answers a command without payload. -/
def stubLine (cmd : Bytes) : Bytes :=
  if (ascii "service ").isPrefixOf cmd then ascii "OK"
  else if (ascii "o:").isPrefixOf cmd then ascii "o:3:81a4:0:\"/tmp/x\""
  else ascii "o"

def stubReply (line : Bytes) : Bytes := line ++ [13, 10] ++ ascii "<qconn-file>" ++ [32]

/-- A target that answers each command with a line of its own choice and each
upload with the line `ack`. Its state says whether a payload is due. -/
def scripted (line : Bytes → Bytes) (ack : Bytes) : Peer Bool where
  recv payloadDue b :=
    if payloadDue then some (false, stubReply ack)
    else if (ascii "w:").isPrefixOf b then some (true, [])
    else some (false, stubReply (line b))
  fin _ := .timeout

/-- A target that opens every path as `/tmp/x`. -/
def stubTarget (ack : Bytes) : Peer Bool := scripted stubLine ack

/-- A connection on which the greeting of a daemon has arrived: banner, prompt, and
the line about telnet options. -/
def stubConn : FrameConn :=
  ⟨ascii "QCONN\r\n<qconn-broker> error linemode-or-echo-not-supported\r\n", .timeout, [], [], 0⟩

theorem stubConn_greets : Greets (ascii "QCONN\r\n") stubConn.inp := by
  refine ⟨ascii "<qconn-broker>", [32] ++ (ascii "error linemode-or-echo-not-supported\r" ++ [10]), [],
    by decide, by decide, ?_, ?_⟩
  · exact Pulls.of_clean (d := ascii "QCONN\r\n" ++ ascii "<qconn-broker>") (by decide) _
  · exact preamble_line (l := [32] ++ ascii "error linemode-or-echo-not-supported\r") (by decide)
      (noPrompt_of_no_lt (by decide))

theorem quiet_blank : Quiet [32] := ⟨1, [], .cons (r := []) (pull_data (by decide) []) (.nil [])⟩

/-- A line the client can take for an answer. -/
structure PlainLine (line : Bytes) : Prop where
  lf : (10 : UInt8) ∉ line ++ [13]
  clean : iac ∉ line ++ [13]
  noPrompt : NoPrompt (line ++ [13, 10])

theorem stub_text {line : Bytes} (hline : PlainLine line) :
    TextReply .blanks (line ++ [13, 10]) (stubReply line) := by
  refine textReply_of_clean (by decide) hline.noPrompt ?_ quiet_blank
  have hclean : (255 : UInt8) ∉ line ++ [13] := hline.clean
  simp only [List.mem_append, List.mem_singleton, not_or] at hclean
  simp [iac, hclean.1]

theorem stub_status {line : Bytes} (hline : PlainLine line) :
    StatusReply .blanks (line ++ [13]) [] (stubReply line) := by
  have h : StatusReply .blanks (line ++ [13]) []
      (line ++ [13] ++ [10] ++ ([] ++ (ascii "<qconn-file>" ++ [32]))) :=
    statusReply_of_clean (by decide) hline.lf hline.clean quiet_blank
  simpa [stubReply] using h

theorem scripted_command {line : Bytes → Bytes} {ack b : Bytes}
    (hb : (ascii "w:").isPrefixOf b = false) :
    (scripted line ack).recv false b = some (false, stubReply (line b)) := by
  show (if (ascii "w:").isPrefixOf b = true then _ else _) = _
  rw [hb]
  rfl

/-- The target ends its response to every request with one prompt. -/
theorem scripted_prompted {line : Bytes → Bytes} {ack : Bytes} (hline : ∀ b, PlainLine (line b))
    (hread : ∀ b, (ascii "o:").isPrefixOf (statusLine (line (ascii "r:" ++ b) ++ [13])) = false)
    (hack : PlainLine ack) (s : Bool) (b : Bytes) :
    Prompted (scripted line ack) .blanks (· = false) (· = statusLine (ack ++ [13])) s b where
  text := by
    intro cmd s' out hs hb hcmd hrecv
    subst hs hb
    have hnotWrite : (ascii "w:").isPrefixOf (cmd ++ [10]) = false := by
      rw [isPrefixOf_concat (by decide), hcmd.notWrite]
    rw [scripted_command hnotWrite] at hrecv
    obtain ⟨rfl, rfl⟩ := Prod.mk.inj (Option.some.inj hrecv)
    exact ⟨rfl, _, stub_text (hline _)⟩
  read := by
    intro fd off n s' out hs hb hrecv
    subst hs hb
    simp only [readCmd, List.append_assoc] at hrecv
    rw [scripted_command rfl] at hrecv
    obtain ⟨rfl, rfl⟩ := Prod.mk.inj (Option.some.inj hrecv)
    refine ⟨rfl, _, [], stub_status (hline _), ?_⟩
    rw [Client.Announces, hread, if_neg (by decide)]
  write := by
    intro fd off n s' out hs hb hrecv
    subst hs hb
    simp only [writeCmd, List.append_assoc] at hrecv
    obtain ⟨rfl, rfl⟩ := Prod.mk.inj (Option.some.inj hrecv)
    exact ⟨rfl, by decide, fun data _ => Option.some_ne_none _⟩
  payload := by
    intro s' out hs hrecv
    obtain rfl : s = true := by simpa using hs
    obtain ⟨rfl, rfl⟩ := Prod.mk.inj (Option.some.inj hrecv)
    exact ⟨rfl, _, stub_status hack, rfl⟩

theorem stubLine_cases (b : Bytes) :
    stubLine b = ascii "OK" ∨ stubLine b = ascii "o:3:81a4:0:\"/tmp/x\"" ∨ stubLine b = ascii "o" := by
  unfold stubLine
  split
  · exact .inl rfl
  · split
    · exact .inr (.inl rfl)
    · exact .inr (.inr rfl)

theorem stubTarget_prompted {ack : Bytes} (hack : PlainLine ack) (s : Bool) (b : Bytes) :
    Prompted (stubTarget ack) .blanks (· = false) (· = statusLine (ack ++ [13])) s b := by
  refine scripted_prompted ?_ (fun _ => rfl) hack s b
  intro b
  rcases stubLine_cases b with h | h | h
  · rw [h]
    exact ⟨by decide, by decide, by decide⟩
  · rw [h]
    exact ⟨by decide, by decide, by decide⟩
  · rw [h]
    exact ⟨by decide, by decide, by decide⟩

theorem Prompted.mono {σ : Type} {P : Peer σ} {T : Trail} {Idle : σ → Prop}
    {ack ack' : Bytes → Prop} {s : σ} {b : Bytes} (h : Prompted P T Idle ack s b)
    (hack : ∀ line, ack line → ack' line) : Prompted P T Idle ack' s b where
  text := h.text
  read := h.read
  write := h.write
  payload := by
    intro s' out hs hrecv
    obtain ⟨hidle, l, hout, hl⟩ := h.payload hs hrecv
    exact ⟨hidle, l, hout, hack _ hl⟩

/-- The run of the witness below: an upload in two parts, a read, and a question to
the broker. -/
def uploadOps : List Op :=
  [.writeFile (ascii "/tmp/x") [7, 8] 0, .readFile (ascii "/tmp/x"), .info]

theorem run_in_step_upload :
    (∀ e ∈ requests (stubTarget (ascii "o:1")) 1 false stubConn uploadOps,
        Prompted (stubTarget (ascii "o:1")) .blanks (· = false) AckLine e.1 e.2) ∧
      let c := ((runOps (stubTarget (ascii "o:1")) 1 uploadOps).run
        (Client.dial false stubConn).2).2
      c.fc.promptsRead = c.sent.length + 1 ∧ (c.sent ≠ [] → Quiet c.fc.inp) := by
  have hP : ∀ e ∈ requests (stubTarget (ascii "o:1")) 1 false stubConn uploadOps,
      Prompted (stubTarget (ascii "o:1")) .blanks (· = false) AckLine e.1 e.2 := by
    intro e _
    exact (stubTarget_prompted ⟨by decide, by decide, by decide⟩ e.1 e.2).mono
      fun line h => by rw [h]; rfl
  refine ⟨hP, @run_in_step _ _ _ (· = false) _ rfl _ _ stubConn_greets rfl 1 _ ?_ hP⟩
  unfold Op.LfFree
  decide

/-- A target that refuses an upload: the client reports it without reading the
prompt, takes that prompt for the answer to its close, and the answer to the
close for the answer to the next command. -/
theorem refused_upload_out_of_step :
    (∀ s b, Prompted (stubTarget (ascii "e:full")) .blanks (· = false) (fun _ => True) s b) ∧
      let r := (runOps (stubTarget (ascii "e:full")) 1
        [.writeFile (ascii "/tmp/x") [7] 0, .delete (ascii "/tmp/x")]).run
          (Client.dial false stubConn).2
      r.1 = some [(.count 0, some (.proto (ascii "write") (ascii "e:full"))), (.unit, none)] ∧
        r.2.sent.length = 5 ∧ r.2.fc.promptsRead = 5 ∧
        r.2.fc.inp = ascii " o\r\n<qconn-file> " := by
  refine ⟨fun s b => ?_, ?_⟩
  · exact (stubTarget_prompted ⟨by decide, by decide, by decide⟩ s b).mono fun _ _ => trivial
  · decide +kernel

end QconnMcp.Qconn
