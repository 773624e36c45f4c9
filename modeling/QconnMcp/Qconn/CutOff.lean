import QconnMcp.Qconn.Rounds
import QconnMcp.Qconn.Segmentation

/-!
# Responses cut off by the end of the stream

`readUntilPrompt` returns what it has read when the stream ends, and reports success
unless it has read nothing (`framing.go`). So a response that is cut off passes for a
complete one as soon as a single byte of it arrived, be it the blank behind the last
prompt.

The first part follows one such response into the methods that read it: the
handshake, the two exchanges of `ensure`, and `Info`. The second part is about whole
runs. A run in which no stream ends inside a response is `Whole`; an operation that
reports success at its end has got a prompt for every line it sent (`Op.exec_whole`).
Operations that defer the close of their file drop its error, so for them the response
to the close has to have come as well (`Closes`).
-/

namespace QconnMcp.Qconn

open Kit

/-! ## The prompt read at the end of a stream -/

namespace FrameConn

/-- The stream ends before any prompt. -/
def CutOff (f : FrameConn) : Prop := f.fin = .eof ∧ NoPrompt f.readToEnd.1

instance (f : FrameConn) : Decidable f.CutOff := inferInstanceAs (Decidable (_ ∧ _))

/-- A read either finds a prompt, and counts it, or takes all the data. -/
theorem readUntilPrompt_cases (f : FrameConn) :
    (f.readUntilPrompt.1.2 = none ∧ f.readUntilPrompt.2.promptsRead = f.promptsRead + 1 ∧
        ¬ NoPrompt f.readToEnd.1) ∨
      NoPrompt f.readToEnd.1 ∧
        f.readUntilPrompt = ((f.readToEnd.1,
          if f.fin = .eof ∧ 0 < f.readToEnd.1.length then none else some f.fin), f.readToEnd.2) := by
  obtain ⟨d, v, r, r', hpulls, hend⟩ := exists_pulls_all f.inp
  have hall := readToEnd_pulls hpulls hend
  rcases noPrompt_or_first d with hno | ⟨t, p, rest, hp, ht, rfl⟩
  · rw [hall]
    exact .inr ⟨hno, readUntilPrompt_missing hno hpulls hend⟩
  · obtain ⟨w, r₁, r₂, hfirst, -, -⟩ := hpulls.split
    rw [readUntilPrompt_found hp ht hfirst, hall]
    refine .inl ⟨rfl, rfl, ?_⟩
    intro hno
    exact hno p hp ⟨t, rest, by simp⟩

theorem readToEnd_inp (f : FrameConn) : f.readToEnd.2.inp = [] := by
  obtain ⟨d, v, r, r', hpulls, hend⟩ := exists_pulls_all f.inp
  rw [readToEnd_pulls hpulls hend]
  rfl

theorem CutOff.read {f : FrameConn} (h : f.CutOff) :
    f.readUntilPrompt =
      ((f.readToEnd.1, if f.readToEnd.1 = [] then some .eof else none), f.readToEnd.2) := by
  rcases f.readUntilPrompt_cases with ⟨-, -, hprompt⟩ | ⟨-, hread⟩
  · exact absurd h.2 hprompt
  · rw [hread, h.1]
    cases f.readToEnd.1 with
    | nil => rfl
    | cons b t => simp

/-- On a stream that has ended there is nothing left but the end. -/
theorem cutOff_of_ended {f : FrameConn} (hinp : f.inp = []) (hfin : f.fin = .eof) :
    f.CutOff ∧ f.readToEnd.1 = [] := by
  have hall : f.readToEnd.1 = [] := by
    rw [readToEnd_pulls (d := []) (v := []) (r := []) (by rw [hinp]; exact .nil []) pull_nil]
  refine ⟨⟨hfin, ?_⟩, hall⟩
  rw [hall]
  exact noPrompt_nil

/-- A read that reports success has found a prompt or was cut off behind some data. -/
theorem readUntilPrompt_answered {f : FrameConn} (h : f.readUntilPrompt.1.2 = none) :
    f.readUntilPrompt.2.promptsRead = f.promptsRead + 1 ∨ f.CutOff ∧ f.readToEnd.1 ≠ [] := by
  rcases f.readUntilPrompt_cases with ⟨-, hcount, -⟩ | ⟨hno, hread⟩
  · exact .inl hcount
  · rw [hread] at h
    simp only [ite_eq_left_iff, reduceCtorEq, imp_false, not_not] at h
    exact .inr ⟨⟨h.1, hno⟩, List.length_pos_iff.mp h.2⟩

theorem readResponseLine_promptsRead (f : FrameConn) :
    f.readResponseLine.2.promptsRead = f.promptsRead := by
  rcases lineAhead_or_dry f.inp with ⟨l, v, r, hl, hpulls⟩ | ⟨d, v, r, r', hd, hpulls, hend⟩
  · rw [readResponseLine_found hl hpulls]
    rfl
  · rw [readResponseLine_missing hd hpulls hend]
    rfl

theorem readN_promptsRead (n : Nat) (f : FrameConn) : (f.readN n).2.promptsRead = f.promptsRead := by
  rw [readN]
  split <;> rfl

end FrameConn

namespace Client

variable {σ : Type} {P : Peer σ}

/-! ## One response that is cut off -/

theorem writeLine_ok {cmd : Bytes} {c c' : Client σ} (h : (writeLine P cmd).run c = (none, c')) :
    ∃ s out, P.recv c.peer (cmd ++ [10]) = some (s, out) ∧ c' = (c.received P s out).logged cmd := by
  cases hrecv : P.recv c.peer (cmd ++ [10]) with
  | none =>
      rw [writeLine_none hrecv] at h
      cases h
  | some r =>
      rw [writeLine_some hrecv] at h
      exact ⟨r.1, r.2, rfl, (Prod.mk.inj h).2.symm⟩

/-- The response to a command ends, behind the data `t`, before any prompt. -/
def CutOffAt (P : Peer σ) (c : Client σ) (cmd t : Bytes) : Prop :=
  ∃ c', (writeLine P cmd).run c = (none, c') ∧ c'.fc.CutOff ∧ c'.fc.readToEnd.1 = t

theorem CutOffAt.raw {c : Client σ} {cmd t : Bytes} (h : CutOffAt P c cmd t) :
    ∃ c', (raw P cmd).run c = ((t, if t = [] then some (.io .eof) else none), c') ∧
      c'.current = c.current ∧ c'.infoMap = c.infoMap ∧ c'.fc.inp = [] ∧ P.fin c'.peer = .eof := by
  obtain ⟨c₁, hline, hcut, rfl⟩ := h
  obtain ⟨s, out, -, hc₁⟩ := writeLine_ok hline
  have hfin : P.fin c₁.peer = .eof := by
    rw [← hcut.1, hc₁]
    rfl
  refine ⟨{ c₁ with fc := c₁.fc.readToEnd.2 }, ?_, ?_, ?_, c₁.fc.readToEnd_inp, hfin⟩
  · rw [Client.raw, run_bind, hline]
    show ((c₁.fc.readUntilPrompt.1.1, c₁.fc.readUntilPrompt.1.2.map Err.io),
      { c₁ with fc := c₁.fc.readUntilPrompt.2 }) = _
    rw [hcut.read]
    cases c₁.fc.readToEnd.1 <;> rfl
  · rw [hc₁]
    rfl
  · rw [hc₁]
    rfl

/-- The leave command of a service. -/
def leaveCmd (s : Service) : Bytes := if s = .file then ascii "q" else ascii "done"

theorem leaveService_failed {c c' : Client σ} {resp : Bytes} {e : Err}
    (h : (raw P (leaveCmd c.current)).run c = ((resp, some e), c')) :
    (leaveService P).run c = (some e, c') := by
  rw [leaveService, run_bind, service_run]
  show (raw P (leaveCmd c.current) >>= _).run c = _
  rw [run_bind, h]
  rfl

theorem leaveService_left {c c' : Client σ} {resp : Bytes}
    (h : (raw P (leaveCmd c.current)).run c = ((resp, none), c')) :
    (leaveService P).run c = (none, { c' with current := .broker }) := by
  rw [leaveService, run_bind, service_run]
  show (raw P (leaveCmd c.current) >>= _).run c = _
  rw [run_bind, h]
  rfl

theorem leaveService_current {c c₁ : Client σ} (h : (leaveService P).run c = (none, c₁)) :
    c₁.current = .broker := by
  rcases hraw : (raw P (leaveCmd c.current)).run c with ⟨⟨resp, e⟩, c'⟩
  cases e with
  | some e =>
      rw [leaveService_failed hraw] at h
      cases h
  | none =>
      rw [leaveService_left hraw] at h
      rw [← (Prod.mk.inj h).2]

/-- The second half of `ensure`, from the broker into a service. -/
def enterService (P : Peer σ) (s : Service) : Act σ (Option Err) := do
  match ← raw P (ascii "service " ++ s.name) with
  | (_, some e) => pure (some e)
  | (resp, none) =>
      if (ascii "OK").isPrefixOf (firstLine resp) then
        setService s
        pure none
      else pure (some (protoErr (ascii "service " ++ s.name) resp))

/-- `ensure` from one service to another. -/
def switchService (P : Peer σ) (s : Service) : Act σ (Option Err) := do
  match ← leaveService P with
  | some e => pure (some e)
  | none => if s = .broker then pure none else enterService P s

section
variable {s : Service} {c c' : Client σ}

theorem ensure_leaf (hs : c.current ≠ s) (hleaf : c.current ≠ .broker) :
    (ensure P s).run c = (switchService P s).run c := by
  rw [ensure, run_bind, service_run]
  simp only [if_neg hs, if_neg hleaf]
  rfl

theorem ensure_enter (hs : c.current ≠ s) (hbroker : c.current = .broker) :
    (ensure P s).run c = (enterService P s).run c := by
  have hne : s ≠ .broker := by
    rintro rfl
    exact hs hbroker
  rw [ensure, run_bind, service_run]
  simp only [if_neg hs, if_pos hbroker, if_neg hne]
  rfl

theorem ensure_leave_failed (hs : c.current ≠ s) (hleaf : c.current ≠ .broker) {e : Err}
    (h : (leaveService P).run c = (some e, c')) : (ensure P s).run c = (some e, c') := by
  rw [ensure_leaf hs hleaf, switchService, run_bind, h]
  rfl

/-- Behind a leave `ensure` goes on as from the broker. -/
theorem ensure_left (hs : c.current ≠ s) (hleaf : c.current ≠ .broker)
    (h : (leaveService P).run c = (none, c')) : (ensure P s).run c = (ensure P s).run c' := by
  have hbroker := leaveService_current h
  rw [ensure_leaf hs hleaf, switchService, run_bind, h]
  by_cases hs' : s = .broker
  · rw [ensure_there (hbroker.trans hs'.symm)]
    simp only [if_pos hs']
    rfl
  · rw [ensure_enter (by rw [hbroker]; exact Ne.symm hs') hbroker]
    simp only [if_neg hs']

theorem ensure_refused (hs : c.current ≠ s) (hbroker : c.current = .broker) {resp : Bytes} {e : Err}
    (h : (raw P (ascii "service " ++ s.name)).run c = ((resp, some e), c')) :
    (ensure P s).run c = (some e, c') := by
  rw [ensure_enter hs hbroker, enterService, run_bind, h]
  rfl

theorem ensure_answered (hs : c.current ≠ s) (hbroker : c.current = .broker) {resp : Bytes}
    (h : (raw P (ascii "service " ++ s.name)).run c = ((resp, none), c')) :
    (ensure P s).run c =
      if (ascii "OK").isPrefixOf (firstLine resp) then (none, { c' with current := s })
      else (some (protoErr (ascii "service " ++ s.name) resp), c') := by
  rw [ensure_enter hs hbroker, enterService, run_bind, h]
  show (if _ then _ else _ : Act σ _).run c' = _
  split <;> rfl

end

/-- The commands of an exchange leave the service and the cache to the caller. -/
theorem raw_keeps (cmd : Bytes) (c : Client σ) :
    ((raw P cmd).run c).2.current = c.current ∧ ((raw P cmd).run c).2.infoMap = c.infoMap := by
  cases hrecv : P.recv c.peer (cmd ++ [10]) with
  | none =>
      rw [raw_refused hrecv]
      exact ⟨rfl, rfl⟩
  | some r =>
      rw [raw, run_bind, writeLine_some hrecv]
      exact ⟨rfl, rfl⟩

/-- From the broker `ensure` ends there or in the service asked for. -/
theorem ensure_current {s : Service} {c : Client σ} (hbroker : c.current = .broker) :
    ((ensure P s).run c).2.current = .broker ∨ ((ensure P s).run c).2.current = s := by
  by_cases hs : c.current = s
  · rw [ensure_there hs]
    exact .inr hs
  · obtain ⟨hkeeps, -⟩ := raw_keeps (P := P) (ascii "service " ++ s.name) c
    rcases hraw : (raw P (ascii "service " ++ s.name)).run c with ⟨⟨resp, e⟩, c'⟩
    rw [hraw] at hkeeps
    cases e with
    | some e =>
        rw [ensure_refused hs hbroker hraw]
        exact .inl (hkeeps.trans hbroker)
    | none =>
        rw [ensure_answered hs hbroker hraw]
        split
        · exact .inr rfl
        · exact .inl (hkeeps.trans hbroker)

/-- A cut-off answer to the leave command: `ensure` stays where it is exactly when no
data came. -/
theorem ensure_leave_cutOff {s : Service} {c : Client σ} {t : Bytes} (hs : c.current ≠ s)
    (hleaf : c.current ≠ .broker) (h : CutOffAt P c (leaveCmd c.current) t) :
    ((ensure P s).run c).2.current = c.current ↔ t = [] := by
  obtain ⟨c', hraw, hcurrent, -, -⟩ := h.raw
  by_cases ht : t = []
  · rw [if_pos ht] at hraw
    rw [ensure_leave_failed hs hleaf (leaveService_failed hraw)]
    exact ⟨fun _ => ht, fun _ => hcurrent⟩
  · rw [if_neg ht] at hraw
    rw [ensure_left hs hleaf (leaveService_left hraw)]
    refine ⟨?_, fun h => absurd h ht⟩
    intro hsame
    -- taken for gone, the service is not the one where any way on from the broker ends
    rcases ensure_current (P := P) (s := s) (c := { c' with current := .broker }) rfl with h | h
    · exact absurd (hsame.symm.trans h) hleaf
    · exact absurd (hsame.symm.trans h) hs

/-- A cut-off answer to the service command: `ensure` stays at the broker exactly when
no data came or it does not look like an `OK`. -/
theorem ensure_enter_cutOff {s : Service} {c : Client σ} {t : Bytes} (hs : c.current ≠ s)
    (hbroker : c.current = .broker) (h : CutOffAt P c (ascii "service " ++ s.name) t) :
    ((ensure P s).run c).2.current = .broker ↔
      t = [] ∨ (ascii "OK").isPrefixOf (firstLine t) = false := by
  obtain ⟨c', hraw, hcurrent, -, -⟩ := h.raw
  by_cases ht : t = []
  · rw [if_pos ht] at hraw
    rw [ensure_refused hs hbroker hraw]
    exact ⟨fun _ => .inl ht, fun _ => hcurrent.trans hbroker⟩
  · rw [if_neg ht] at hraw
    rw [ensure_answered hs hbroker hraw]
    cases hok : (ascii "OK").isPrefixOf (firstLine t) with
    | true =>
        rw [if_pos rfl]
        refine ⟨?_, ?_⟩
        · intro hsame
          exact absurd (hbroker.trans hsame.symm) hs
        · rintro (h | h)
          · exact absurd h ht
          · cases h
    | false =>
        rw [if_neg Bool.false_ne_true]
        exact ⟨fun _ => .inr rfl, fun _ => hcurrent.trans hbroker⟩

/-- `ensure` goes through the broker. -/
theorem ensure_via_broker {s : Service} {c c₁ : Client σ} (hs : c.current ≠ s)
    (h : (ensure P .broker).run c = (none, c₁)) :
    c₁.current = .broker ∧ (ensure P s).run c = (ensure P s).run c₁ := by
  by_cases hbroker : c.current = .broker
  · rw [ensure_there hbroker] at h
    obtain ⟨-, rfl⟩ := Prod.mk.inj h
    exact ⟨hbroker, rfl⟩
  · rcases hleave : (leaveService P).run c with ⟨e, c'⟩
    cases e with
    | some e =>
        rw [ensure_leave_failed hbroker hbroker hleave] at h
        cases h
    | none =>
        have hbroker' := leaveService_current hleave
        rw [ensure_left hbroker hbroker hleave, ensure_there hbroker'] at h
        obtain ⟨-, rfl⟩ := Prod.mk.inj h
        exact ⟨hbroker', ensure_left hs hbroker hleave⟩

theorem leaveService_infoMap (c : Client σ) : ((leaveService P).run c).2.infoMap = c.infoMap := by
  obtain ⟨-, hkeeps⟩ := raw_keeps (P := P) (leaveCmd c.current) c
  rcases hraw : (raw P (leaveCmd c.current)).run c with ⟨⟨resp, e⟩, c'⟩
  rw [hraw] at hkeeps
  cases e with
  | some e =>
      rw [leaveService_failed hraw]
      exact hkeeps
  | none =>
      rw [leaveService_left hraw]
      exact hkeeps

theorem ensure_broker_infoMap (c : Client σ) :
    ((ensure P .broker).run c).2.infoMap = c.infoMap := by
  by_cases hbroker : c.current = .broker
  · rw [ensure_there hbroker]
  · have hkeeps := leaveService_infoMap (P := P) c
    rcases hleave : (leaveService P).run c with ⟨e, c'⟩
    rw [hleave] at hkeeps
    cases e with
    | some e =>
        rw [ensure_leave_failed hbroker hbroker hleave]
        exact hkeeps
    | none =>
        rw [ensure_left hbroker hbroker hleave, ensure_there (leaveService_current hleave)]
        exact hkeeps

/-- A cut-off answer to `info` is cached exactly when some data came. -/
theorem info_cutOff {c c₁ : Client σ} {t : Bytes} (hinfo : c.infoMap = none)
    (hbroker : (ensure P .broker).run c = (none, c₁)) (h : CutOffAt P c₁ (ascii "info") t) :
    ((info P).run c).2.infoMap = none ↔ t = [] := by
  have hkeeps := ensure_broker_infoMap (P := P) c
  rw [hbroker] at hkeeps
  obtain ⟨c', hraw, -, hmap, -⟩ := h.raw
  by_cases ht : t = []
  · rw [if_pos ht] at hraw
    rw [info_failed hinfo hbroker hraw]
    exact ⟨fun _ => ht, fun _ => hmap.trans (hkeeps.trans hinfo)⟩
  · rw [if_neg ht] at hraw
    rw [info_answered hinfo hbroker hraw]
    refine ⟨?_, fun h => absurd h ht⟩
    intro hnone
    cases hnone

/-- A stream that has ended stays ended. -/
def Final (P : Peer σ) : Prop :=
  ∀ s b s' out, P.fin s = .eof → P.recv s b = some (s', out) → out = [] ∧ P.fin s' = .eof

/-- When the answer to the leave command is cut off, `Info` caches nothing: either it
gives up, or it finds the stream at its end. -/
theorem info_leave_cutOff (hP : Final P) {c : Client σ} {t : Bytes} (hinfo : c.infoMap = none)
    (hleaf : c.current ≠ .broker) (h : CutOffAt P c (leaveCmd c.current) t) :
    ((info P).run c).2.infoMap = none := by
  obtain ⟨c', hraw, -, hmap, hinp, hfin⟩ := h.raw
  by_cases ht : t = []
  · rw [if_pos ht] at hraw
    rw [info_stuck hinfo (ensure_leave_failed hleaf hleaf (leaveService_failed hraw))]
    exact hmap.trans hinfo
  · -- the leave passes for answered, but its read has taken all there was
    rw [if_neg ht] at hraw
    have hleave := leaveService_left hraw
    have hbroker : (ensure P .broker).run c = (none, { c' with current := .broker }) := by
      rw [ensure_left hleaf hleaf hleave]
      exact ensure_there rfl
    have hkeeps := ensure_broker_infoMap (P := P) c
    rw [hbroker] at hkeeps
    cases hrecv : P.recv c'.peer (ascii "info" ++ [10]) with
    | none =>
        have hrefused := raw_refused (P := P) (c := { c' with current := .broker }) hrecv
        rw [info_failed hinfo hbroker hrefused]
        exact hkeeps.trans hinfo
    | some r =>
        obtain ⟨hout, hfin'⟩ := hP _ _ _ _ hfin hrecv
        refine (info_cutOff hinfo hbroker ⟨_, writeLine_some hrecv, ?_⟩).mpr rfl
        apply FrameConn.cutOff_of_ended
        · show c'.fc.inp ++ r.2 = []
          rw [hinp, hout]
          rfl
        · exact hfin'

/-! ## Runs of exchanges -/

/-- The payload that a status line announces. -/
def payload (numread : Int) : Act σ (Bytes × Option IoErr) :=
  if 0 < numread then readN numread.toNat else pure ([], none)

variable (P) in
/-- From `c`, one request brings the client to `c'`, where it waits for the prompt: a
command, a read with its status line and payload, or a write with its status line. -/
inductive Awaits : Client σ → Client σ → Prop
  | command {cmd : Bytes} {c c' : Client σ} (hline : (writeLine P cmd).run c = (none, c')) : Awaits c c'
  | read {fd off n numread : Int} {line data : Bytes} {c c₁ c' : Client σ}
      (hstatus : (askStatus P fd off n).run c = (.ok line, c₁))
      (hok : (ascii "o:").isPrefixOf line = true) (hcount : statusCount line = (numread, none))
      (hdata : (payload numread).run c₁ = ((data, none), c')) : Awaits c c'
  | write {fd off : Int} {line data : Bytes} {c c₁ c₂ c' : Client σ}
      (hline : (writeLine P (writeCmd fd off data.length)).run c = (none, c₁))
      (hdata : (writeRaw P data).run c₁ = (none, c₂))
      (hstatus : readResponseLine.run c₂ = ((line, none), c'))
      (hok : (ascii "o:").isPrefixOf line = true) : Awaits c c'

variable (P) in
/-- The connection of `c'` is the one of `c` after some requests whose prompt reads
all reported success. -/
inductive Reaches : Client σ → Client σ → Prop
  | same {c c' : Client σ} (hfc : c'.fc = c.fc) (hpeer : c'.peer = c.peer) : Reaches c c'
  | answered {c c₁ c₂ c' : Client σ} (hreach : Reaches c c₁) (hawaits : Awaits P c₁ c₂)
      (hnil : c₂.fc.readUntilPrompt.1.2 = none) (hfc : c'.fc = c₂.fc.readUntilPrompt.2)
      (hpeer : c'.peer = c₂.peer) : Reaches c c'

/-- Wherever answered requests lead, a response that is cut off is cut off before its
first byte. Only the requests behind which `G` holds of the target count. -/
def Whole (P : Peer σ) (G : σ → Prop) (c : Client σ) : Prop :=
  ∀ c₁ c₂, Reaches P c c₁ → Awaits P c₁ c₂ → G c₂.peer → c₂.fc.CutOff → c₂.fc.readToEnd.1 = []

/-- Wherever answered requests lead, the response to a close has its prompt. -/
def Closes (P : Peer σ) (G : σ → Prop) (c : Client σ) : Prop :=
  ∀ c₁ c₂ fd, Reaches P c c₁ → (writeLine P (closeCmd fd)).run c₁ = (none, c₂) → G c₂.peer →
    ¬ NoPrompt c₂.fc.readToEnd.1

/-- Every line sent since `c₀` has got its prompt. -/
def LinesPrompted (c₀ c : Client σ) : Prop :=
  c.sent.length + c₀.fc.promptsRead = c₀.sent.length + c.fc.promptsRead

/-- If `G` holds of the target then, from `c₀` to `c`, all requests were answered and
every line has got its prompt. -/
structure Synced (P : Peer σ) (G : σ → Prop) (c₀ c : Client σ) : Prop where
  reached : G c.peer → Reaches P c₀ c
  lines : G c.peer → LinesPrompted c₀ c

variable {G : σ → Prop}

theorem Synced.refl (c : Client σ) : Synced P G c c := ⟨fun _ => .same rfl rfl, fun _ => rfl⟩

/-- The service and the cache are the client's own affair. -/
theorem Synced.local {c₀ c c' : Client σ} (h : Synced P G c₀ c) (hfc : c'.fc = c.fc)
    (hpeer : c'.peer = c.peer) (hsent : c'.sent = c.sent) : Synced P G c₀ c' := by
  refine ⟨?_, by rw [LinesPrompted, hsent, hfc, hpeer]; exact h.lines⟩
  intro hG
  rw [hpeer] at hG
  cases h.reached hG with
  | same hfc₀ hpeer₀ => exact .same (hfc.trans hfc₀) (hpeer.trans hpeer₀)
  | answered hreach hawaits hnil hfc₀ hpeer₀ =>
      exact .answered hreach hawaits hnil (hfc.trans hfc₀) (hpeer.trans hpeer₀)

theorem writeLine_counts {cmd : Bytes} {c c' : Client σ} (h : (writeLine P cmd).run c = (none, c')) :
    c'.sent.length = c.sent.length + 1 ∧ c'.fc.promptsRead = c.fc.promptsRead := by
  obtain ⟨s, out, -, rfl⟩ := writeLine_ok h
  exact ⟨by simp [logged, received], rfl⟩

theorem readResponseLine_counts {r : Bytes × Option IoErr} {c c' : Client σ}
    (h : readResponseLine.run c = (r, c')) :
    c'.sent = c.sent ∧ c'.fc.promptsRead = c.fc.promptsRead := by
  obtain ⟨-, rfl⟩ := Prod.mk.inj h
  exact ⟨rfl, c.fc.readResponseLine_promptsRead⟩

theorem payload_counts {numread : Int} {r : Bytes × Option IoErr} {c c' : Client σ}
    (h : (payload numread).run c = (r, c')) :
    c'.sent = c.sent ∧ c'.fc.promptsRead = c.fc.promptsRead := by
  rw [payload] at h
  split at h
  · obtain ⟨-, rfl⟩ := Prod.mk.inj h
    exact ⟨rfl, c.fc.readN_promptsRead _⟩
  · obtain ⟨-, rfl⟩ := Prod.mk.inj h
    exact ⟨rfl, rfl⟩

theorem readResponseLine_peer {r : Bytes × Option IoErr} {c c' : Client σ}
    (h : readResponseLine.run c = (r, c')) : c'.peer = c.peer := by
  obtain ⟨-, rfl⟩ := Prod.mk.inj h
  rfl

theorem payload_peer {numread : Int} {r : Bytes × Option IoErr} {c c' : Client σ}
    (h : (payload numread).run c = (r, c')) : c'.peer = c.peer := by
  rw [payload] at h
  split at h <;> obtain ⟨-, rfl⟩ := Prod.mk.inj h <;> rfl

theorem writeRaw_counts {b : Bytes} {c c' : Client σ} (h : (writeRaw P b).run c = (none, c')) :
    c'.sent = c.sent ∧ c'.fc.promptsRead = c.fc.promptsRead := by
  cases hrecv : P.recv c.peer b with
  | none =>
      rw [writeRaw_none hrecv] at h
      cases h
  | some r =>
      rw [writeRaw_some hrecv] at h
      obtain ⟨-, rfl⟩ := Prod.mk.inj h
      exact ⟨rfl, rfl⟩

theorem askStatus_ok {fd off n : Int} {line : Bytes} {c c' : Client σ}
    (h : (askStatus P fd off n).run c = (.ok line, c')) :
    ∃ c₁, (writeLine P (readCmd fd off (clipRead n))).run c = (none, c₁) ∧
      readResponseLine.run c₁ = ((line, none), c') := by
  rw [askStatus, run_bind] at h
  rcases hline : (writeLine P (readCmd fd off (clipRead n))).run c with ⟨e, c₁⟩
  rw [hline] at h
  cases e with
  | some e => cases h
  | none =>
      refine ⟨c₁, rfl, ?_⟩
      change (readResponseLine >>= _).run c₁ = _ at h
      rw [run_bind] at h
      rcases hresp : readResponseLine.run c₁ with ⟨⟨line', e⟩, c₂⟩
      rw [hresp] at h
      cases e with
      | some e => cases h
      | none =>
          cases h
          rfl

/-- A request sends one line and reads no prompt. -/
theorem Awaits.counts {c c' : Client σ} (h : Awaits P c c') :
    c'.sent.length = c.sent.length + 1 ∧ c'.fc.promptsRead = c.fc.promptsRead := by
  cases h with
  | command hline => exact writeLine_counts hline
  | read hstatus hok hcount hdata =>
      obtain ⟨c₁, hline, hresp⟩ := askStatus_ok hstatus
      obtain ⟨hsent₁, hcount₁⟩ := writeLine_counts hline
      obtain ⟨hsent₂, hcount₂⟩ := readResponseLine_counts hresp
      obtain ⟨hsent₃, hcount₃⟩ := payload_counts hdata
      exact ⟨by rw [hsent₃, hsent₂, hsent₁], by rw [hcount₃, hcount₂, hcount₁]⟩
  | write hline hdata hstatus hok =>
      obtain ⟨hsent₁, hcount₁⟩ := writeLine_counts hline
      obtain ⟨hsent₂, hcount₂⟩ := writeRaw_counts hdata
      obtain ⟨hsent₃, hcount₃⟩ := readResponseLine_counts hstatus
      exact ⟨by rw [hsent₃, hsent₂, hsent₁], by rw [hcount₃, hcount₂, hcount₁]⟩

/-- What is assumed below: the target is whole, and `G` held before a write if it holds
behind it. -/
structure WholeUnder (P : Peer σ) (G : σ → Prop) (c₀ : Client σ) : Prop where
  whole : Whole P G c₀
  back : ∀ {s s' : σ} {b out : Bytes}, P.recv s b = some (s', out) → G s' → G s

theorem writeLine_back {c₀ c c' : Client σ} {cmd : Bytes} (hP : WholeUnder P G c₀)
    (h : (writeLine P cmd).run c = (none, c')) (hG : G c'.peer) : G c.peer := by
  obtain ⟨s, out, hrecv, rfl⟩ := writeLine_ok h
  exact hP.back hrecv hG

theorem writeRaw_back {c₀ c c' : Client σ} {b : Bytes} (hP : WholeUnder P G c₀)
    (h : (writeRaw P b).run c = (none, c')) (hG : G c'.peer) : G c.peer := by
  cases hrecv : P.recv c.peer b with
  | none =>
      rw [writeRaw_none hrecv] at h
      cases h
  | some r =>
      rw [writeRaw_some hrecv] at h
      obtain ⟨-, rfl⟩ := Prod.mk.inj h
      exact hP.back hrecv hG

theorem Awaits.back {c₀ c c' : Client σ} (hP : WholeUnder P G c₀) (h : Awaits P c c')
    (hG : G c'.peer) : G c.peer := by
  cases h with
  | command hline => exact writeLine_back hP hline hG
  | read hstatus hok hcount hdata =>
      obtain ⟨c₁, hline, hresp⟩ := askStatus_ok hstatus
      rw [payload_peer hdata, readResponseLine_peer hresp] at hG
      exact writeLine_back hP hline hG
  | write hline hdata hstatus hok =>
      rw [readResponseLine_peer hstatus] at hG
      exact writeLine_back hP hline (writeRaw_back hP hdata hG)

/-- A prompt read that reports success has read a prompt. -/
theorem Synced.answered {c₀ c c₁ : Client σ} (hP : WholeUnder P G c₀) (h : Synced P G c₀ c)
    (hawaits : Awaits P c c₁) (hnil : c₁.fc.readUntilPrompt.1.2 = none) :
    Synced P G c₀ { c₁ with fc := c₁.fc.readUntilPrompt.2 } := by
  refine ⟨fun hG => .answered (h.reached (hawaits.back hP hG)) hawaits hnil rfl rfl, ?_⟩
  intro hG
  obtain ⟨hsent, hcount⟩ := hawaits.counts
  have hlines : c.sent.length + _ = _ := h.lines (hawaits.back hP hG)
  -- the other way to succeed, some data and then the end, is what a whole target excludes
  rcases FrameConn.readUntilPrompt_answered hnil with hread | ⟨hcut, hdata⟩
  · show c₁.sent.length + _ = _ + c₁.fc.readUntilPrompt.2.promptsRead
    omega
  · have hreach := h.reached (hawaits.back hP hG)
    exact absurd (hP.whole c c₁ hreach hawaits hG hcut) hdata

/-! ## Operations against a whole target -/

section
variable {c₀ : Client σ} (hP : WholeUnder P G c₀)

/-- A step that has not failed. -/
theorem Synced.after {ok : Prop} (hok : ok) {α : Type} {m : Act σ α} {post : α → Client σ → Prop}
    (h : Holds (Synced P G c₀) m post) : Holds (fun c => ok → Synced P G c₀ c) m post :=
  h.conseq (fun _ hc => hc hok) fun _ _ h => h

include hP

theorem raw_synced (cmd : Bytes) :
    Holds (Synced P G c₀) (raw P cmd) fun r c => r.2 = none → Synced P G c₀ c := by
  intro c hc
  rcases hline : (writeLine P cmd).run c with ⟨e, c₁⟩
  rw [raw, run_bind, hline]
  cases e with
  | some e =>
      intro hnil
      cases hnil
  | none =>
      intro hnil
      have hnil' : c₁.fc.readUntilPrompt.1.2 = none := Option.map_eq_none_iff.mp hnil
      exact hc.answered hP (.command hline) hnil'

theorem leaveService_synced :
    Holds (Synced P G c₀) (leaveService P) fun r c => r = none → Synced P G c₀ c := by
  intro c hc
  have hraw := raw_synced hP (leaveCmd c.current) c hc
  rcases hrun : (raw P (leaveCmd c.current)).run c with ⟨⟨resp, e⟩, c'⟩
  rw [hrun] at hraw
  cases e with
  | some e =>
      rw [leaveService_failed hrun]
      intro hnil
      cases hnil
  | none =>
      rw [leaveService_left hrun]
      exact fun _ => (hraw rfl).local rfl rfl rfl

theorem enterService_synced (s : Service) :
    Holds (Synced P G c₀) (enterService P s) fun r c => r = none → Synced P G c₀ c := by
  refine (raw_synced hP _).bind ?_
  rintro ⟨resp, e⟩
  cases e with
  | some e => exact .pure fun _ _ hnil => absurd hnil (by simp)
  | none =>
      refine Synced.after rfl ?_
      dsimp only
      split
      · exact fun c hc _ => hc.local rfl rfl rfl
      · exact .pure fun _ _ hnil => absurd hnil (by simp)

theorem switchService_synced (s : Service) :
    Holds (Synced P G c₀) (switchService P s) fun r c => r = none → Synced P G c₀ c := by
  refine (leaveService_synced hP).bind ?_
  intro r
  cases r with
  | some e => exact .pure fun _ _ hnil => absurd hnil (by simp)
  | none =>
      refine Synced.after rfl ?_
      dsimp only
      split
      · exact .pure fun _ hc _ => hc
      · exact enterService_synced hP s

theorem ensure_synced (s : Service) :
    Holds (Synced P G c₀) (ensure P s) fun r c => r = none → Synced P G c₀ c := by
  intro c hc
  by_cases hs : c.current = s
  · rw [ensure_there hs]
    exact fun _ => hc
  · by_cases hbroker : c.current = .broker
    · rw [ensure_enter hs hbroker]
      exact enterService_synced hP s c hc
    · rw [ensure_leaf hs hbroker]
      exact switchService_synced hP s c hc

/-- What follows a switch of the service. -/
theorem ensure_then {α : Type} {s : Service} {f : Option Err → Act σ α} {ok : α → Prop}
    {post : Client σ → Prop} (hfailed : ∀ e c, ¬ ok ((f (some e)).run c).1)
    (hf : Holds (Synced P G c₀) (f none) fun r c => ok r → post c) :
    Holds (Synced P G c₀) (ensure P s >>= f) fun r c => ok r → post c := by
  refine (ensure_synced hP s).bind ?_
  intro r
  cases r with
  | some e => exact fun c _ hok => absurd hok (hfailed e c)
  | none => exact Synced.after rfl hf

/-- What follows a command. -/
theorem raw_then {α : Type} {cmd : Bytes} {f : Bytes × Option Err → Act σ α} {ok : α → Prop}
    {post : Client σ → Prop} (hfailed : ∀ resp e c, ¬ ok ((f (resp, some e)).run c).1)
    (hf : ∀ resp, Holds (Synced P G c₀) (f (resp, none)) fun r c => ok r → post c) :
    Holds (Synced P G c₀) (raw P cmd >>= f) fun r c => ok r → post c := by
  refine (raw_synced hP cmd).bind ?_
  rintro ⟨resp, e⟩
  cases e with
  | some e => exact fun c _ hok => absurd hok (hfailed resp e c)
  | none => exact Synced.after rfl (hf resp)

theorem versions_synced :
    Holds (Synced P G c₀) (versions P) fun r c => r.2 = none → Synced P G c₀ c := by
  refine ensure_then hP (fun _ _ h => nomatch h) ?_
  refine raw_then hP (fun _ _ _ h => nomatch h) ?_
  exact fun resp => .pure fun _ hc _ => hc

theorem info_synced : Holds (Synced P G c₀) (info P) fun r c => r.2 = none → Synced P G c₀ c := by
  have hcached : Holds (Synced P G c₀) cachedInfo fun _ c => Synced P G c₀ c := fun _ hc => hc
  refine hcached.bind ?_
  intro r
  cases r with
  | some m => exact .pure fun _ hc _ => hc
  | none =>
      refine ensure_then hP (fun _ _ h => nomatch h) ?_
      refine raw_then hP (fun _ _ _ h => nomatch h) ?_
      exact fun _ _ hc _ => hc.local rfl rfl rfl

theorem signal_synced (pid sig : Int) :
    Holds (Synced P G c₀) (signal P pid sig) fun r c => r = none → Synced P G c₀ c := by
  refine ensure_then hP (fun _ _ h => nomatch h) ?_
  refine raw_then hP (fun _ _ _ h => nomatch h) ?_
  intro resp
  dsimp only
  split
  · exact .pure fun _ hc _ => hc
  · exact .pure fun _ hc _ => hc

theorem openFile_synced (path : Bytes) (flags mode : Int) :
    Holds (Synced P G c₀) (openFile P path flags mode) fun r c => (∃ h, r = .ok h) → Synced P G c₀ c := by
  refine raw_then hP (fun _ _ _ h => nomatch h) ?_
  intro resp
  dsimp only
  split
  · exact .pure fun _ hc _ => hc
  · exact .pure fun _ hc _ => hc

theorem closeFile_synced (fd : Int) :
    Holds (Synced P G c₀) (closeFile P fd) fun r c => r = none → Synced P G c₀ c :=
  raw_then hP (fun _ _ _ h => nomatch h) fun _ => .pure fun _ hc _ => hc

theorem delete_synced (path : Bytes) :
    Holds (Synced P G c₀) (delete P path) fun r c => r = none → Synced P G c₀ c := by
  refine ensure_then hP (fun _ _ h => nomatch h) ?_
  exact raw_then hP (fun _ _ _ h => nomatch h) fun _ => .pure fun _ hc _ => hc

theorem mkdir_synced (path : Bytes) (mode : Int) :
    Holds (Synced P G c₀) (mkdir P path mode) fun r c => r = none → Synced P G c₀ c := by
  refine ensure_then hP (fun _ _ h => nomatch h) ?_
  refine (openFile_synced hP path _ _).bind ?_
  intro r
  cases r with
  | error e => exact .pure fun _ _ hnil => nomatch hnil
  | ok h => exact Synced.after ⟨h, rfl⟩ (closeFile_synced hP h.fd)

theorem readAt_synced (fd off n : Int) :
    Holds (Synced P G c₀) (readAt P fd off n) fun r c => r.2 = none → Synced P G c₀ c := by
  intro c hc
  rw [readAt_eq, run_bind]
  rcases hstatus : (askStatus P fd off n).run c with ⟨r, c₁⟩
  cases r with
  | error e => exact fun hnil => absurd hnil (Option.some_ne_none _)
  | ok line =>
      show ((readStatus line).run c₁).1.2 = none → Synced P G c₀ ((readStatus line).run c₁).2
      rw [readStatus]
      split
      · exact fun hnil => absurd hnil (Option.some_ne_none _)
      · split
        · rename_i hok
          rcases hcount : statusCount line with ⟨numread, e⟩
          cases e with
          | some e => exact fun hnil => absurd hnil (Option.some_ne_none _)
          | none =>
              -- the payload, and then the prompt
              show ((readPayload numread).run c₁).1.2 = none →
                Synced P G c₀ ((readPayload numread).run c₁).2
              rw [readPayload, ← payload, run_bind]
              rcases hdata : (payload numread).run c₁ with ⟨⟨data, e⟩, c₂⟩
              cases e with
              | some e => exact fun hnil => absurd hnil (Option.some_ne_none _)
              | none =>
                  intro hnil
                  have hnil' : c₂.fc.readUntilPrompt.1.2 = none := Option.map_eq_none_iff.mp hnil
                  exact hc.answered hP (.read hstatus hok hcount hdata) hnil'
        · exact fun hnil => absurd hnil (Option.some_ne_none _)

theorem writeAt_synced (fd off : Int) (data : Bytes) :
    Holds (Synced P G c₀) (writeAt P fd off data) fun r c => r.2 = none → Synced P G c₀ c := by
  -- each step keeps where the request started and how it got here
  refine Holds.bind (Q := fun e c₁ => e = none → ∃ c, Synced P G c₀ c ∧
    (writeLine P (writeCmd fd off data.length)).run c = (none, c₁)) ?_ ?_
  · exact fun c hc he => ⟨c, hc, Prod.ext he rfl⟩
  intro e
  cases e with
  | some e => exact .pure fun _ _ hnil => absurd hnil (Option.some_ne_none _)
  | none =>
      refine Holds.bind (Q := fun e c₂ => e = none → ∃ c c₁, Synced P G c₀ c ∧
        (writeLine P (writeCmd fd off data.length)).run c = (none, c₁) ∧
        (writeRaw P data).run c₁ = (none, c₂)) ?_ ?_
      · intro c₁ hc₁ he
        obtain ⟨c, hc, hline⟩ := hc₁ rfl
        exact ⟨c, c₁, hc, hline, Prod.ext he rfl⟩
      intro e
      cases e with
      | some e => exact .pure fun _ _ hnil => absurd hnil (Option.some_ne_none _)
      | none =>
          intro c₂ hc₂
          obtain ⟨c, c₁, hc, hline, hdata⟩ := hc₂ rfl
          rcases hstatus : readResponseLine.run c₂ with ⟨⟨line, e⟩, c₃⟩
          rw [run_bind, hstatus]
          cases e with
          | some e => exact fun hnil => absurd hnil (Option.some_ne_none _)
          | none =>
              dsimp only
              split
              · rename_i hok
                intro hnil
                have hnil' : c₃.fc.readUntilPrompt.1.2 = none := Option.map_eq_none_iff.mp hnil
                exact hc.answered hP (.write hline hdata hstatus hok) hnil'
              · exact fun hnil => absurd hnil (Option.some_ne_none _)

/-! The loops go on only behind a round that succeeded. -/

theorem readLoop_synced (h : FileHandle) (fuel : Nat) (out : Bytes) (off : Int) :
    Holds (Synced P G c₀) (readLoop P h fuel out off) fun r c =>
      (∃ b, r = some (b, none)) → Synced P G c₀ c := by
  induction fuel generalizing out off with
  | zero => exact .pure fun _ hc _ => hc
  | succ fuel ih =>
      refine (readAt_synced hP h.fd off maxReadChunk).bind ?_
      rintro ⟨chunk, e⟩
      cases e with
      | some e => exact .pure fun _ _ hnil => by simp at hnil
      | none =>
          refine Synced.after rfl ?_
          dsimp only
          split
          · exact .pure fun _ hc _ => hc
          · split
            · exact .pure fun _ hc _ => hc
            · exact ih _ _

theorem rangeLoop_synced (fd off n : Int) (fuel : Nat) (out : Bytes) :
    Holds (Synced P G c₀) (rangeLoop P fd off n fuel out) fun r c => r.2 = none → Synced P G c₀ c := by
  induction fuel generalizing out with
  | zero => exact .pure fun _ hc _ => hc
  | succ fuel ih =>
      rw [rangeLoop]
      split
      · refine (readAt_synced hP fd _ _).bind ?_
        rintro ⟨chunk, e⟩
        cases e with
        | some e => exact .pure fun _ _ hnil => absurd hnil (Option.some_ne_none _)
        | none =>
            refine Synced.after rfl ?_
            dsimp only
            split
            · exact .pure fun _ hc _ => hc
            · exact ih _
      · exact .pure fun _ hc _ => hc

theorem writeLoop_synced (fd off : Int) (data : Bytes) (fuel : Nat) (total : Int) :
    Holds (Synced P G c₀) (writeLoop P fd off data fuel total) fun r c =>
      r.2 = none → Synced P G c₀ c := by
  induction fuel generalizing total with
  | zero => exact .pure fun _ hc _ => hc
  | succ fuel ih =>
      rw [writeLoop]
      split
      · split
        · exact .pure fun _ _ hnil => absurd hnil (Option.some_ne_none _)
        · refine (writeAt_synced hP fd _ _).bind ?_
          rintro ⟨nw, e⟩
          cases e with
          | some e => exact .pure fun _ _ hnil => absurd hnil (Option.some_ne_none _)
          | none =>
              refine Synced.after rfl ?_
              dsimp only
              split
              · exact .pure fun _ hc _ => hc
              · exact ih _
      · exact .pure fun _ hc _ => hc

end

/-- A deferred close whose response has its prompt; the error is lost, and a close that
is refused has sent no line. -/
theorem closeFile_prompted {c₀ c : Client σ} (hP : WholeUnder P G c₀) (hclose : Closes P G c₀)
    (h : Synced P G c₀ c) (fd : Int) (hG : G ((closeFile P fd).run c).2.peer) :
    LinesPrompted c₀ ((closeFile P fd).run c).2 := by
  rw [closeFile_raw] at hG ⊢
  cases hrecv : P.recv c.peer (closeCmd fd ++ [10]) with
  | none =>
      rw [raw_refused hrecv] at hG ⊢
      exact h.lines hG
  | some r =>
      obtain ⟨c₁, hline⟩ : ∃ c₁, (writeLine P (closeCmd fd)).run c = (none, c₁) :=
        ⟨_, writeLine_some hrecv⟩
      rw [raw, run_bind, hline] at hG ⊢
      have hG' := writeLine_back hP hline hG
      obtain ⟨hsent, hcount⟩ := writeLine_counts hline
      have hlines : c.sent.length + _ = _ := h.lines hG'
      have hprompt := hclose c c₁ fd (h.reached hG') hline hG
      rcases c₁.fc.readUntilPrompt_cases with ⟨-, hread, -⟩ | ⟨hno, -⟩
      · show c₁.sent.length + _ = _ + c₁.fc.readUntilPrompt.2.promptsRead
        omega
      · exact absurd hno hprompt

/-- The error of a deferred close is lost; all others are returned. -/
theorem withFile_prompted {c₀ : Client σ} (hP : WholeUnder P G c₀) (hclose : Closes P G c₀)
    {α : Type} {path : Bytes} {flags mode : Int} {failed : Err → α} {body : FileHandle → Act σ α}
    {ok : α → Prop} (hfailed : ∀ e, ¬ ok (failed e))
    (hbody : ∀ h, Holds (Synced P G c₀) (body h) fun r c => ok r → Synced P G c₀ c) :
    Holds (Synced P G c₀) (withFile P path flags mode failed body) fun r c =>
      ok r → G c.peer → LinesPrompted c₀ c := by
  refine ensure_then hP (fun e c => hfailed e) ?_
  refine (openFile_synced hP path flags mode).bind ?_
  intro r
  cases r with
  | error e => exact .pure fun _ _ hok => absurd hok (hfailed e)
  | ok h =>
      refine Synced.after ⟨h, rfl⟩ ?_
      refine (hbody h).bind ?_
      intro r c hc hok
      -- the close runs behind the body, and nobody looks at its error
      exact closeFile_prompted hP hclose (hc hok) h.fd

end Client

/-- The operations that close their file when they are done already. -/
def Op.defersClose : Op → Bool
  | .stat _ | .readFile _ | .readFileRange _ _ _ | .writeFile _ _ _ | .writeFileAt _ _ _
  | .chmod _ _ => true
  | .versions | .info | .delete _ | .mkdir _ _ | .signal _ _ => false

section
variable {σ : Type} {P : Peer σ} {G : σ → Prop} {c₀ : Client σ}

open Client

/-- An operation that returns a value beside its error. -/
theorem exec_pair {α : Type} {m : Act σ (α × Option Err)} {f : α → Value} {post : Client σ → Prop}
    (h : Holds (Synced P G c₀) m fun r c => r.2 = none → post c) :
    Holds (Synced P G c₀) (do let r ← m; pure (some (f r.1, r.2))) fun r c =>
      (∃ v, r = some (v, none)) → post c := by
  intro c hc hok
  obtain ⟨v, hv⟩ := hok
  exact h c hc (Prod.mk.inj (Option.some.inj hv)).2

/-- An operation that returns its error only. -/
theorem exec_unit {m : Act σ (Option Err)} {post : Client σ → Prop}
    (h : Holds (Synced P G c₀) m fun r c => r = none → post c) :
    Holds (Synced P G c₀) (do let r ← m; pure (some (Value.unit, r))) fun r c =>
      (∃ v, r = some (v, none)) → post c := by
  intro c hc hok
  obtain ⟨v, hv⟩ := hok
  exact h c hc (Prod.mk.inj (Option.some.inj hv)).2

theorem prompted_of_synced {α : Type} {m : Act σ α} {ok : α → Prop}
    (h : Holds (Synced P G c₀) m fun r c => ok r → Synced P G c₀ c) :
    Holds (Synced P G c₀) m fun r c => ok r → G c.peer → LinesPrompted c₀ c :=
  h.conseq (fun _ hc => hc) fun _ _ hsynced hok => (hsynced hok).lines

/-- Against a whole target that answers the close, an operation that reports success has
read a prompt for every line it has sent. -/
theorem Op.exec_whole (hP : WholeUnder P G c₀) (op : Op)
    (hclose : op.defersClose = true → Closes P G c₀) (fuel : Nat) :
    Holds (Synced P G c₀) (op.exec P fuel) fun r c =>
      (∃ v, r = some (v, none)) → G c.peer → LinesPrompted c₀ c := by
  cases op with
  | versions => exact exec_pair (prompted_of_synced (versions_synced hP))
  | info => exact exec_pair (prompted_of_synced (info_synced hP))
  | stat path =>
      refine exec_pair (f := fun x : Int × Int => .stat x.1 x.2) ?_
      refine withFile_prompted hP (hclose rfl) (fun _ h => nomatch h) ?_
      exact fun _ => .pure fun _ hc _ => hc
  | readFile path =>
      -- the only loop whose number of rounds is up to the target
      have hread : Holds (Synced P G c₀) (Client.readFile P fuel path) fun r c =>
          (∃ b, r = some (b, none)) → G c.peer → LinesPrompted c₀ c :=
        withFile_prompted hP (hclose rfl) (fun _ h => by simp at h) fun h =>
          readLoop_synced hP h fuel [] 0
      intro c hc hok
      obtain ⟨v, hv⟩ := hok
      obtain ⟨⟨b, e⟩, hr, hval⟩ := Option.map_eq_some_iff.mp hv
      obtain ⟨-, rfl⟩ := Prod.mk.inj hval
      exact hread c hc ⟨b, hr⟩
  | readFileRange path off n =>
      exact exec_pair (withFile_prompted hP (hclose rfl) (fun _ h => nomatch h) fun h =>
        rangeLoop_synced hP h.fd off n n.toNat [])
  | writeFile path data mode =>
      exact exec_pair (withFile_prompted hP (hclose rfl) (fun _ h => nomatch h) fun h =>
        writeLoop_synced hP h.fd 0 data (data.length + 1) 0)
  | writeFileAt path off data =>
      exact exec_pair (withFile_prompted hP (hclose rfl) (fun _ h => nomatch h) fun h =>
        writeLoop_synced hP h.fd off data (data.length + 1) 0)
  | delete path => exact exec_unit (prompted_of_synced (delete_synced hP path))
  | mkdir path mode => exact exec_unit (prompted_of_synced (mkdir_synced hP path mode))
  | chmod path mode =>
      refine exec_unit (withFile_prompted hP (hclose rfl) (fun _ h => nomatch h) ?_)
      intro h
      exact raw_then hP (fun _ _ _ h => nomatch h) fun _ => .pure fun _ hc _ => hc
  | signal pid sig => exact exec_unit (prompted_of_synced (signal_synced hP pid sig))

end

/-! ## All of it -/

/-- What becomes of a response that is cut off. -/
structure CutOffOutcome {σ : Type} (P : Peer σ) : Prop where
  /-- `readUntilPrompt` fails exactly when no data came. -/
  read : ∀ f : FrameConn, f.CutOff → (f.readUntilPrompt.1.2 ≠ none ↔ f.readToEnd.1 = [])
  /-- So does `Dial`. -/
  dial : ∀ (s : σ) (f : FrameConn), f.CutOff → ((Client.dial s f).1 ≠ none ↔ f.readToEnd.1 = [])
  /-- `ensure`, on its way out of a service. -/
  leave : ∀ (c : Client σ) (s : Service) (t : Bytes), c.current ≠ s → c.current ≠ .broker →
    Client.CutOffAt P c (Client.leaveCmd c.current) t →
      (((Client.ensure P s).run c).2.current = c.current ↔ t = [])
  /-- `ensure`, on its way from the broker into a service. -/
  enter : ∀ (c c₁ : Client σ) (s : Service) (t : Bytes), c.current ≠ s → s ≠ .broker →
    (Client.ensure P .broker).run c = (none, c₁) →
    Client.CutOffAt P c₁ (ascii "service " ++ s.name) t →
      (((Client.ensure P s).run c).2.current = c₁.current ↔
        t = [] ∨ (ascii "OK").isPrefixOf (firstLine t) = false)
  /-- `Info`, once it is at the broker. -/
  info : ∀ (c c₁ : Client σ) (t : Bytes), c.infoMap = none →
    (Client.ensure P .broker).run c = (none, c₁) → Client.CutOffAt P c₁ (ascii "info") t →
      (((Client.info P).run c).2.infoMap = none ↔ t = [])
  /-- `Info`, on its way to the broker. -/
  infoLeave : Client.Final P → ∀ (c : Client σ) (t : Bytes), c.infoMap = none →
    c.current ≠ .broker → Client.CutOffAt P c (Client.leaveCmd c.current) t →
      ((Client.info P).run c).2.infoMap = none
  /-- Operations: with the target's writes on record, a run from `c` to `c'` in which no
  response was cut off behind some data, and the deferred close got its prompt. -/
  whole : ∀ (op : Op) (fuel : Nat) (c c' : Client (Recorded σ)) (v : Value),
    (op.exec P.recorded fuel).run c = (some (v, none), c') →
    Client.Whole P.recorded (fun s => s.2 <+: c'.peer.2) c →
    (op.defersClose = true → Client.Closes P.recorded (fun s => s.2 <+: c'.peer.2) c) →
      Client.LinesPrompted c c'

/-- **A cut-off response passes for a complete one exactly when some data came.** -/
theorem cutOff_outcome {σ : Type} (P : Peer σ) : CutOffOutcome P where
  read f h := by
    rw [h.read]
    simp
  dial s f h := by
    have hdial : (Client.dial s f).1 = f.readUntilPrompt.1.2.map Err.handshake := by
      rcases hread : f.readUntilPrompt with ⟨⟨t, e⟩, f'⟩
      rw [Client.dial, Client.handshake, run_bind, Client.run_readUntilPrompt hread]
      cases e <;> rfl
    rw [hdial, h.read]
    by_cases ht : f.readToEnd.1 = [] <;> simp [ht]
  leave c s t hs hleaf h := Client.ensure_leave_cutOff hs hleaf h
  enter c c₁ s t hs hne hbroker h := by
    obtain ⟨hcurrent, hvia⟩ := Client.ensure_via_broker hs hbroker
    rw [hvia, hcurrent]
    exact Client.ensure_enter_cutOff (by rw [hcurrent]; exact Ne.symm hne) hcurrent h
  info c c₁ t hinfo hbroker h := Client.info_cutOff hinfo hbroker h
  infoLeave hP c t hinfo hleaf h := Client.info_leave_cutOff hP hinfo hleaf h
  whole op fuel c c' v hrun hwhole hclose := by
    have hop := Op.exec_whole ⟨hwhole, Peer.recorded_prefix⟩ op hclose fuel c (.refl c)
    rw [hrun] at hop
    exact hop ⟨v, rfl⟩ (List.prefix_refl _)

/-- A target that closes the connection when it is spoken to. -/
def closing : Peer Unit := ⟨fun _ _ => some ((), []), fun _ => .eof⟩

/-- Part of a banner makes a connection; the blank behind the last prompt makes an
answer to `info`, which is cached; part of an answer makes a file; and a file is closed
although nothing at all answers the close: two lines were sent and one prompt read. -/
theorem cutOff_accepted :
    let banner : FrameConn := ⟨ascii "QC", .eof, [], [], 0⟩
    let blank : Client Unit := ⟨⟨[32], .timeout, [], [], 1⟩, (), .broker, none, []⟩
    let reply : Client Unit := ⟨⟨ascii "o:3:81b4:5:\"/f\"", .timeout, [], [], 1⟩, (), .file, none, []⟩
    let opened : Client Unit :=
      ⟨⟨ascii "o:3:81b4:5:\"/f\"\r\n<qconn-file>", .timeout, [], [], 1⟩, (), .file, none, []⟩
    banner.CutOff ∧ (Client.dial () banner).1 = none ∧
      ((Client.info closing).run blank).2.infoMap.isSome = true ∧
      ((Client.stat closing (ascii "/f")).run reply).1 = ((0x81b4, 5), none) ∧
      ((Client.stat closing (ascii "/f")).run opened).1 = ((0x81b4, 5), none) ∧
      ((Client.stat closing (ascii "/f")).run opened).2.sent.length = 2 ∧
      ((Client.stat closing (ascii "/f")).run opened).2.fc.promptsRead = 2 := by
  intro banner blank reply opened
  refine ⟨?_, ?_, ?_, ?_, ?_⟩
  · decide +kernel
  · decide +kernel
  · decide +kernel
  · decide +kernel
  · decide +kernel

end QconnMcp.Qconn
