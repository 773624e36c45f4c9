import QconnMcp.Qconn.File
import QconnMcp.Qconn.Prompt

/-!
# One command and its response

What the three kinds of exchange return when the peer's answer is a complete
response: a text block (`raw`), a status line with the payload it announces
(`readAt`), a status line after an uploaded payload (`writeAt`). A complete
response ends in one prompt, with at most quiet bytes behind it; the client is
then left with nothing else unread, and has consumed one prompt for the command
it sent (`Client.After`).
-/

namespace QconnMcp.Qconn

open Kit

/-! ## Quiet input -/

/-- Input whose data is blanks: what a prompt's trailing blank leaves behind,
with complete telnet sequences in between. -/
def Quiet (u : Bytes) : Prop := ∃ k r, Pulls u (List.replicate k 32) [] r

theorem quiet_nil : Quiet [] := ⟨0, [], .nil []⟩

theorem Quiet.tail {b : UInt8} {u : Bytes} (h : Quiet (b :: u)) (hb : b ≠ iac) : Quiet u := by
  obtain ⟨k, r, h⟩ := h
  cases k with
  | zero => cases h
  | succ k =>
      cases h with
      | cons hp ht =>
          rw [pull_data hb] at hp
          simp only [Prod.mk.injEq, Option.some.injEq] at hp
          obtain ⟨-, hv, -⟩ := hp
          subst hv
          exact ⟨k, _, ht⟩

theorem Quiet.swallow {u : Bytes} (h : Quiet u) (n : Nat) : Quiet (swallowBlanks n u) := by
  induction n generalizing u with
  | zero => exact h
  | succ n ih =>
      cases u with
      | nil => exact h
      | cons b u =>
          unfold swallowBlanks
          split
          · rename_i hb
            refine ih (h.tail ?_)
            rcases hb with rfl | rfl <;> decide
          · exact h

/-- What may trail behind a prompt. -/
structure Trail where
  ok : Bytes → Prop
  quiet : ∀ {u}, ok u → Quiet u
  swallow : ∀ {u}, ok u → ∀ n, ok (swallowBlanks n u)

/-- Any quiet bytes, such as the blank of `<qconn-broker> `. -/
def Trail.blanks : Trail := ⟨Quiet, id, Quiet.swallow⟩

/-- Nothing at all. -/
def Trail.nothing : Trail where
  ok u := u = []
  quiet h := h ▸ quiet_nil
  swallow := by
    intro u h n
    subst h
    cases n <;> rfl

/-! ## Complete responses -/

/-- The text `t` and one prompt. -/
def TextReply (T : Trail) (t out : Bytes) : Prop :=
  ∃ p rest r, p ∈ prompts ∧ NoPrompt t ∧ Pulls out (t ++ p) rest r ∧ T.ok rest

/-- Input that can stand in front of a text block without completing a prompt: what
a daemon sends behind the prompt of its greeting. -/
def Preamble (u : Bytes) : Prop := ∃ w r, Pulls u w [] r ∧ ∀ t, NoPrompt t → NoPrompt (w ++ t)

/-- A line without a prompt, such as the one about telnet options. -/
theorem preamble_line {l : Bytes} (hiac : iac ∉ l) (hl : NoPrompt l) : Preamble (l ++ [10]) := by
  have hclean : iac ∉ l ++ [10] := by
    simp only [List.mem_append, List.mem_singleton, not_or]
    exact ⟨hiac, by decide⟩
  refine ⟨l ++ [10], [], by simpa using Pulls.of_clean hclean [], ?_⟩
  intro t ht
  rw [List.append_assoc]
  exact hl.join (fun p hp => (prompt_bytes hp).2.2.2.1) ht

theorem Preamble.tail {b : UInt8} {u : Bytes} (h : Preamble (b :: u)) (hb : b ≠ iac) :
    Preamble u := by
  obtain ⟨w, r, h, hw⟩ := h
  cases h with
  | cons hp ht =>
      rw [pull_data hb] at hp
      simp only [Prod.mk.injEq, Option.some.injEq] at hp
      obtain ⟨-, rfl, -⟩ := hp
      exact ⟨_, _, ht, fun t hno => (hw t hno).of_isInfix (List.suffix_cons _ _).isInfix⟩

theorem Preamble.swallow {u : Bytes} (h : Preamble u) (n : Nat) : Preamble (swallowBlanks n u) := by
  induction n generalizing u with
  | zero => exact h
  | succ n ih =>
      cases u with
      | nil => exact h
      | cons b u =>
          unfold swallowBlanks
          split
          · rename_i hb
            refine ih (h.tail ?_)
            rcases hb with rfl | rfl <;> decide
          · exact h

/-- With a preamble in front a response is still complete. -/
theorem TextReply.preceded {T : Trail} {u t out : Bytes} (hu : Preamble u)
    (hout : TextReply T t out) : ∃ w, TextReply T (w ++ t) (u ++ out) := by
  obtain ⟨w, r₀, hpulls₀, hw⟩ := hu
  obtain ⟨p, rest, r, hp, ht, hpulls, hrest⟩ := hout
  refine ⟨w, p, rest, r₀ ++ r, hp, hw t ht, ?_, hrest⟩
  rw [List.append_assoc]
  exact (hpulls₀.append out).trans hpulls

/-- So it is with a line without a prompt in front. -/
theorem TextReply.behind_line {T : Trail} {l t out : Bytes} (hiac : iac ∉ l) (hl : NoPrompt l)
    (hout : TextReply T t out) : TextReply T (l ++ 10 :: t) (l ++ [10] ++ out) := by
  obtain ⟨p, rest, r, hp, ht, hpulls, hrest⟩ := hout
  have hclean : iac ∉ l ++ [10] := by
    simp only [List.mem_append, List.mem_singleton, not_or]
    exact ⟨hiac, by decide⟩
  refine ⟨p, rest, [] ++ r, hp, hl.join (fun p hp => (prompt_bytes hp).2.2.2.1) ht, ?_, hrest⟩
  have hboth := (Pulls.of_clean hclean out).trans hpulls
  simpa using hboth

/-- The line `l`, the raw bytes `data`, any text, and one prompt. -/
def StatusReply (T : Trail) (l data out : Bytes) : Prop :=
  ∃ a b t r, out = a ++ (data ++ b) ∧ (10 : UInt8) ∉ l ∧ Pulls a (l ++ [10]) [] r ∧ TextReply T t b

/-- A status line as the client sees it. -/
def statusLine (l : Bytes) : Bytes := trimLeft (· == 32) (trimRight (· == 13) l)

/-- Text without telnet sequences. -/
theorem textReply_of_clean {T : Trail} {t p rest : Bytes} (hp : p ∈ prompts) (ht : NoPrompt t)
    (hiac : iac ∉ t) (hrest : T.ok rest) : TextReply T t (t ++ p ++ rest) := by
  refine ⟨p, rest, [], hp, ht, Pulls.of_clean ?_ rest, hrest⟩
  simp only [List.mem_append, not_or]
  exact ⟨hiac, (prompt_bytes hp).1⟩

theorem statusReply_of_clean {T : Trail} {l data p rest : Bytes} (hp : p ∈ prompts)
    (hl : (10 : UInt8) ∉ l) (hiac : iac ∉ l) (hrest : T.ok rest) :
    StatusReply T l data (l ++ [10] ++ (data ++ (p ++ rest))) := by
  refine ⟨l ++ [10], p ++ rest, [], [], rfl, hl, ?_, ?_⟩
  · have h : iac ∉ l ++ [10] := by
      simp only [List.mem_append, List.mem_singleton, not_or]
      exact ⟨hiac, by decide⟩
    simpa using Pulls.of_clean h []
  · exact textReply_of_clean hp noPrompt_nil (by simp) hrest

/-- A path that goes through command lines and answers unharmed. -/
structure PlainPath (path : Bytes) : Prop where
  ne_nil : path ≠ []
  quote : (34 : UInt8) ∉ path
  cr : (13 : UInt8) ∉ path
  lf : (10 : UInt8) ∉ path
  clean : iac ∉ path
  noPrompt : NoPrompt path

/-! ## The first line of a response -/

theorem firstLine_line {l : Bytes} (hl : (10 : UInt8) ∉ l) (rest : Bytes) :
    firstLine (l ++ 10 :: rest) =
      if isNoise (trimRight (· == 13) l) then firstLine rest else trimRight (· == 13) l := by
  rw [firstLine, splitOn_append_cons hl, List.map_cons, List.find?_cons]
  cases h : isNoise (trimRight (· == 13) l) with
  | true => rfl
  | false => rfl

theorem isNoise_of_head {b : UInt8} (hb : b < 0x80) (hs : isAsciiSpace b = false) (he : b ≠ 101)
    (s : Bytes) : isNoise (b :: s) = false := by
  obtain ⟨t, ht⟩ := trimSpace_cons hb hs s
  have hnoise : b :: t ≠ benignNoise := by
    intro h
    exact he (List.cons.inj h).1
  simp [isNoise, ht, hnoise]

namespace Client

variable {σ : Type} {P : Peer σ} {T : Trail} {c : Client σ} {s s' : σ}

/-- The client after the exchange of some commands with complete responses. -/
structure After (T : Trail) (c : Client σ) (s : σ) (cmds : List Bytes) (c' : Client σ) : Prop where
  peer : c'.peer = s
  unread : T.ok c'.fc.inp
  promptsRead : c'.fc.promptsRead = c.fc.promptsRead + cmds.length
  sent : c'.sent = c.sent ++ cmds.map (c.current, ·)
  current : c'.current = c.current
  infoMap : c'.infoMap = c.infoMap

/-! ## Sending -/

/-- The client once the peer has taken a write and sent `out` back. -/
def received (c : Client σ) (P : Peer σ) (s : σ) (out : Bytes) : Client σ :=
  { c with peer := s, fc := { c.fc with inp := c.fc.inp ++ out, fin := P.fin s } }

/-- The client once it has recorded a command line as sent. -/
def logged (c : Client σ) (cmd : Bytes) : Client σ :=
  { c with sent := c.sent ++ [(c.current, cmd)] }

/-- Reads that consume the response to a command settle the exchange. -/
theorem After.of_logged {fc : FrameConn} {cmd : Bytes} (hunread : T.ok fc.inp)
    (hcount : fc.promptsRead = c.fc.promptsRead + 1) :
    After T c s [cmd] ⟨fc, s, c.current, c.infoMap, c.sent ++ [(c.current, cmd)]⟩ :=
  ⟨rfl, hunread, hcount, rfl, rfl, rfl⟩

theorem writeRaw_some {b out : Bytes} (h : P.recv c.peer b = some (s, out)) :
    (writeRaw P b).run c = (none, c.received P s out) := by
  simp only [writeRaw, StateT.run, h]
  rfl

theorem writeLine_some {cmd out : Bytes} (h : P.recv c.peer (cmd ++ [10]) = some (s, out)) :
    (writeLine P cmd).run c = (none, (c.received P s out).logged cmd) := by
  have hw := writeRaw_some h
  simp only [writeLine, StateT.run] at hw ⊢
  rw [hw]
  rfl

theorem writeRaw_none {b : Bytes} (h : P.recv c.peer b = none) :
    (writeRaw P b).run c = (some .closed, c) := by
  simp only [writeRaw, StateT.run, h]

theorem writeLine_none {cmd : Bytes} (h : P.recv c.peer (cmd ++ [10]) = none) :
    (writeLine P cmd).run c = (some .closed, c) := by
  simp only [writeLine, writeRaw, StateT.run, h]

/-! ## Receiving -/

theorem run_readUntilPrompt {r : Bytes × Option IoErr} {fc : FrameConn}
    (h : c.fc.readUntilPrompt = (r, fc)) :
    (readUntilPrompt (σ := σ)).run c = (r, { c with fc := fc }) := by
  show (c.fc.readUntilPrompt.1, { c with fc := c.fc.readUntilPrompt.2 }) = _
  rw [h]

/-- Reading up to the prompt that ends a complete response. -/
theorem readUntilPrompt_of_reply {u : Bytes} (hu : Quiet u) {t out : Bytes}
    (hinp : c.fc.inp = u ++ out) (hout : TextReply T t out) :
    ∃ fc, (readUntilPrompt (σ := σ)).run c = ((trimLeft (· == 32) t, none), { c with fc := fc }) ∧
      T.ok fc.inp ∧ fc.promptsRead = c.fc.promptsRead + 1 := by
  obtain ⟨k, r₀, hu⟩ := hu
  obtain ⟨p, rest, r, hp, ht, hpulls, hrest⟩ := hout
  have h : Pulls c.fc.inp ((List.replicate k 32 ++ t) ++ p) rest (r₀ ++ r) := by
    rw [hinp, List.append_assoc]
    exact (hu.append out).trans hpulls
  refine ⟨c.fc.afterPrompt rest (r₀ ++ r), ?_, T.swallow hrest (c.fc.buffered.headD 0), rfl⟩
  rw [run_readUntilPrompt (FrameConn.readUntilPrompt_found hp (noPrompt_blanks ht k) h),
    trimLeft_replicate_append (by decide)]

/-- Reading the status line that heads a complete response. -/
theorem readResponseLine_of_reply {u : Bytes} (hu : Quiet u) {l a rest r : Bytes}
    (hinp : c.fc.inp = u ++ (a ++ rest)) (hl : (10 : UInt8) ∉ l) (ha : Pulls a (l ++ [10]) [] r) :
    ∃ fc, (readResponseLine (σ := σ)).run c = ((statusLine l, none), { c with fc := fc }) ∧
      fc.inp = rest ∧ fc.promptsRead = c.fc.promptsRead ∧ fc.fin = c.fc.fin := by
  obtain ⟨k, r₀, hu⟩ := hu
  have h : Pulls c.fc.inp ((List.replicate k 32 ++ l) ++ [10]) rest (r₀ ++ r) := by
    rw [hinp, List.append_assoc]
    exact (hu.append _).trans (ha.append rest)
  have hl' : (10 : UInt8) ∉ List.replicate k 32 ++ l := by
    simp only [List.mem_append, List.mem_replicate, not_or]
    exact ⟨fun h => absurd h.2 (by decide), hl⟩
  refine ⟨c.fc.advance rest (r₀ ++ r), ?_, rfl, rfl, rfl⟩
  show (c.fc.readResponseLine.1, { c with fc := c.fc.readResponseLine.2 }) = _
  rw [FrameConn.readResponseLine_found hl' h, trimRight_replicate_append (by decide),
    trimLeft_replicate_append (by decide)]
  rfl

/-! ## The three exchanges -/

theorem raw_refused {cmd : Bytes} (h : P.recv c.peer (cmd ++ [10]) = none) :
    (raw P cmd).run c = (([], some (.io .closed)), c) := by
  rw [raw, run_bind, writeLine_none h]
  rfl

/-- A command whose response ends at the first prompt of all that is readable,
with the connection it leaves behind. -/
theorem raw_found {cmd out t p rest r : Bytes} (h : P.recv c.peer (cmd ++ [10]) = some (s, out))
    (hp : p ∈ prompts) (ht : NoPrompt t) (hpulls : Pulls (c.fc.inp ++ out) (t ++ p) rest r) :
    (raw P cmd).run c = ((trimLeft (· == 32) t, none),
      { (c.received P s out).logged cmd with fc := (c.received P s out).fc.afterPrompt rest r }) := by
  have hread : (readUntilPrompt (σ := σ)).run ((c.received P s out).logged cmd) =
      ((trimLeft (· == 32) t, none),
        { (c.received P s out).logged cmd with
          fc := (c.received P s out).fc.afterPrompt rest r }) :=
    run_readUntilPrompt (FrameConn.readUntilPrompt_found hp ht hpulls)
  rw [raw, run_bind, writeLine_some h]
  show (readUntilPrompt >>= _).run _ = _
  rw [run_bind, hread]
  rfl

theorem raw_peer_some {cmd out : Bytes}
    (h : P.recv c.peer (cmd ++ [10]) = some (s, out)) : ((raw P cmd).run c).2.peer = s := by
  rw [raw, run_bind, writeLine_some h]
  rfl

/-- A command whose answer makes what is unread a complete response. -/
theorem raw_of_unread {cmd t out : Bytes} (h : P.recv c.peer (cmd ++ [10]) = some (s, out))
    (hout : TextReply T t (c.fc.inp ++ out)) :
    ∃ c', (raw P cmd).run c = ((trimLeft (· == 32) t, none), c') ∧ After T c s [cmd] c' := by
  obtain ⟨p, rest, r, hp, ht, hpulls, hrest⟩ := hout
  exact ⟨_, raw_found h hp ht hpulls, .of_logged (T.swallow hrest _) rfl⟩

/-- A command answered by a text block. -/
theorem raw_of_reply (hc : T.ok c.fc.inp) {cmd t out : Bytes}
    (h : P.recv c.peer (cmd ++ [10]) = some (s, out)) (hout : TextReply T t out) :
    ∃ c', (raw P cmd).run c = ((trimLeft (· == 32) t, none), c') ∧ After T c s [cmd] c' := by
  obtain ⟨fc, hread, hunread, hcount⟩ :=
    readUntilPrompt_of_reply (c := (c.received P s out).logged cmd) (T.quiet hc) rfl hout
  refine ⟨_, ?_, .of_logged hunread hcount⟩
  rw [raw, run_bind, writeLine_some h]
  show (readUntilPrompt >>= _).run _ = _
  rw [run_bind, hread]
  rfl

/-! Entering a service takes at most one exchange. -/

theorem service_run (c : Client σ) : (service (σ := σ)).run c = (c.current, c) := rfl

theorem ensure_there {svc : Service} (h : c.current = svc) : (ensure P svc).run c = (none, c) := by
  rw [ensure, run_bind, service_run]
  simp only [if_pos h]
  rfl

theorem ensure_entered {svc : Service} (h : c.current = .broker) (hsvc : svc ≠ .broker)
    {resp : Bytes} {c' : Client σ}
    (hrun : (raw P (ascii "service " ++ svc.name)).run c = ((resp, none), c'))
    (hok : (ascii "OK").isPrefixOf (firstLine resp) = true) :
    (ensure P svc).run c = (none, { c' with current := svc }) := by
  rw [ensure, run_bind, service_run]
  simp only [h, if_neg (Ne.symm hsvc), if_neg hsvc, if_true, pure_bind]
  rw [run_bind, hrun]
  show (if (ascii "OK").isPrefixOf (firstLine resp) = true then _ else _ : Act σ _).run c' = _
  rw [if_pos hok]
  rfl

/-! `Info`, with nothing cached, goes to the broker and asks it. -/

theorem run_cachedInfo (c : Client σ) : (cachedInfo (σ := σ)).run c = (c.infoMap, c) := rfl

theorem info_stuck {c₁ : Client σ} {e : Err} (hinfo : c.infoMap = none)
    (h : (ensure P .broker).run c = (some e, c₁)) : (info P).run c = ((∅, some e), c₁) := by
  simp only [info, run_bind, run_cachedInfo, hinfo, h]
  rfl

theorem info_failed {c₁ c₂ : Client σ} {resp : Bytes} {e : Err} (hinfo : c.infoMap = none)
    (h : (ensure P .broker).run c = (none, c₁))
    (hraw : (raw P (ascii "info")).run c₁ = ((resp, some e), c₂)) :
    (info P).run c = ((∅, some e), c₂) := by
  simp only [info, run_bind, run_cachedInfo, hinfo, h, hraw]
  rfl

theorem info_answered {c₁ c₂ : Client σ} {resp : Bytes} (hinfo : c.infoMap = none)
    (h : (ensure P .broker).run c = (none, c₁))
    (hraw : (raw P (ascii "info")).run c₁ = ((resp, none), c₂)) :
    (info P).run c = ((parseInfo resp, none), { c₂ with infoMap := some (parseInfo resp) }) := by
  simp only [info, run_bind, run_cachedInfo, hinfo, h, hraw]
  rfl

/-- The payload and the prompt behind a status line that announced them. -/
theorem readPayload_of_reply {n : Int} {t data out : Bytes} (hn : n.toNat = data.length)
    (hinp : c.fc.inp = data ++ out) (hout : TextReply T t out) :
    ∃ fc, (readPayload (σ := σ) n).run c = ((data, none), { c with fc := fc }) ∧
      T.ok fc.inp ∧ fc.promptsRead = c.fc.promptsRead + 1 := by
  -- with a count of zero or less nothing is read, and there is nothing to read
  have hfetch : ∃ fc, (if 0 < n then readN n.toNat else pure ([], none) : Act σ _).run c =
        ((data, none), { c with fc := fc }) ∧ fc.inp = out ∧
      fc.promptsRead = c.fc.promptsRead := by
    by_cases hpos : 0 < n
    · refine ⟨{ c.fc with inp := out }, ?_, rfl, rfl⟩
      rw [if_pos hpos, hn]
      show ((c.fc.readN data.length).1, { c with fc := (c.fc.readN data.length).2 }) = _
      simp [FrameConn.readN, hinp]
    · have hdata : data = [] := List.eq_nil_of_length_eq_zero (by omega)
      subst hdata
      exact ⟨c.fc, by rw [if_neg hpos]; rfl, hinp, rfl⟩
  obtain ⟨fc₁, hrun, hinp₁, hcount₁⟩ := hfetch
  obtain ⟨fc₂, hread, hunread, hcount₂⟩ :=
    readUntilPrompt_of_reply (c := { c with fc := fc₁ }) quiet_nil hinp₁ hout
  refine ⟨fc₂, ?_, hunread, by rw [hcount₂, hcount₁]⟩
  rw [readPayload, run_bind, hrun]
  show (readUntilPrompt >>= _).run _ = _
  rw [run_bind, hread]
  rfl

/-- The data behind a status line: the announced count after `o:`, otherwise
none. -/
def Announces (line data : Bytes) : Prop :=
  if (ascii "o:").isPrefixOf line then ∃ n, statusCount line = (n, none) ∧ n.toNat = data.length
  else data = []

/-- What `readAt` makes of a complete response. -/
def readResult (line data : Bytes) : Bytes × Option Err :=
  if (ascii "o:").isPrefixOf line then (data, none)
  else if (ascii "e:").isPrefixOf line then ([], some (.readFailed (trimSpace (line.drop 2))))
  else ([], some (protoErr (ascii "read") line))

theorem not_e_of_o {line : Bytes} (h : (ascii "o:").isPrefixOf line = true) :
    (ascii "e:").isPrefixOf line = false := by
  obtain ⟨t, rfl⟩ := List.isPrefixOf_iff_prefix.mp h
  rfl

/-- From the status line on, `readAt` consumes the whole response. -/
theorem readStatus_of_reply {line t data out : Bytes} (hdata : Announces line data)
    (hinp : c.fc.inp = data ++ out) (hout : TextReply T t out) :
    ∃ fc, (readStatus (σ := σ) line).run c = (readResult line data, { c with fc := fc }) ∧
      T.ok fc.inp ∧ fc.promptsRead = c.fc.promptsRead + 1 := by
  unfold Announces at hdata
  unfold readStatus readResult
  by_cases ho : (ascii "o:").isPrefixOf line = true
  · rw [if_pos ho] at hdata
    obtain ⟨n, hcount, hn⟩ := hdata
    rw [not_e_of_o ho]
    simp only [Bool.false_eq_true, if_false, hcount, ho, if_true]
    exact readPayload_of_reply hn hinp hout
  · rw [if_neg ho] at hdata
    subst hdata
    obtain ⟨fc, hread, hrest⟩ := readUntilPrompt_of_reply quiet_nil hinp hout
    refine ⟨fc, ?_, hrest⟩
    rw [if_neg ho, if_neg ho]
    by_cases he : (ascii "e:").isPrefixOf line = true
    · rw [if_pos he, if_pos he, run_bind, hread]
      rfl
    · rw [if_neg he, if_neg he, run_bind, hread]
      rfl

theorem readAt_refused {fd off n : Int}
    (h : P.recv c.peer (readCmd fd off (clipRead n) ++ [10]) = none) :
    (readAt P fd off n).run c = (([], some (.io .closed)), c) := by
  rw [readAt, run_bind, writeLine_none h]
  rfl

/-- A read request answered by a status line and the data it announces. -/
theorem readAt_of_reply (hc : T.ok c.fc.inp) {fd off n : Int} {l data out : Bytes}
    (h : P.recv c.peer (readCmd fd off (clipRead n) ++ [10]) = some (s, out))
    (hout : StatusReply T l data out) (hdata : Announces (statusLine l) data) :
    ∃ c', (readAt P fd off n).run c = (readResult (statusLine l) data, c') ∧
      After T c s [readCmd fd off (clipRead n)] c' := by
  obtain ⟨a, b, t, r, rfl, hl, ha, hb⟩ := hout
  obtain ⟨fc₁, hline, hinp, hcount₁, -⟩ := readResponseLine_of_reply
    (c := (c.received P s (a ++ (data ++ b))).logged (readCmd fd off (clipRead n)))
    (T.quiet hc) rfl hl ha
  obtain ⟨fc₂, hread, hunread, hcount₂⟩ := readStatus_of_reply
    (c := { (c.received P s (a ++ (data ++ b))).logged (readCmd fd off (clipRead n)) with fc := fc₁ })
    hdata hinp hb
  refine ⟨_, ?_, .of_logged hunread (hcount₂.trans (congrArg (· + 1) hcount₁))⟩
  rw [readAt, run_bind, writeLine_some h]
  show (readResponseLine >>= _).run _ = _
  rw [run_bind, hline]
  exact hread

theorem writeAt_refused {fd off : Int} {data : Bytes}
    (h : P.recv c.peer (writeCmd fd off data.length ++ [10]) = none) :
    (writeAt P fd off data).run c = ((0, some (.io .closed)), c) := by
  rw [writeAt, run_bind, writeLine_none h]
  rfl

/-! The target may take a command and hang up without an answer. -/

theorem readResponseLine_empty (h : c.fc.inp = []) :
    ∃ fc, (readResponseLine (σ := σ)).run c = (([], some c.fc.fin), { c with fc := fc }) ∧
      fc.inp = [] := by
  have hpulls : Pulls c.fc.inp [] [] [] := h ▸ .nil []
  refine ⟨c.fc.advance [] ([] ++ []), ?_, rfl⟩
  show (c.fc.readResponseLine.1, { c with fc := c.fc.readResponseLine.2 }) = _
  rw [FrameConn.readResponseLine_missing (by simp) hpulls pull_nil]

theorem readAt_unanswered (hc : c.fc.inp = []) {fd off n : Int}
    (h : P.recv c.peer (readCmd fd off (clipRead n) ++ [10]) = some (s, [])) :
    ∃ fc, (readAt P fd off n).run c = (([], some (.io (P.fin s))),
        ⟨fc, s, c.current, c.infoMap, c.sent ++ [(c.current, readCmd fd off (clipRead n))]⟩) ∧
      fc.inp = [] := by
  obtain ⟨fc, hline, hinp⟩ := readResponseLine_empty
    (c := (c.received P s []).logged (readCmd fd off (clipRead n))) (by simp [received, logged, hc])
  refine ⟨fc, ?_, hinp⟩
  rw [readAt, run_bind, writeLine_some h]
  show (readResponseLine >>= _).run _ = _
  rw [run_bind, hline]
  rfl

/-- The connection is closed between the command line and its payload. -/
theorem writeAt_cut (hc : c.fc.inp = []) {fd off : Int} {data : Bytes}
    (hreq : P.recv c.peer (writeCmd fd off data.length ++ [10]) = some (s, []))
    (hpay : P.recv s data = none) :
    ∃ fc, (writeAt P fd off data).run c = ((0, some (.io .closed)),
        ⟨fc, s, c.current, c.infoMap, c.sent ++ [(c.current, writeCmd fd off data.length)]⟩) ∧
      fc.inp = [] := by
  refine ⟨(c.received P s []).fc, ?_, by simp [received, hc]⟩
  rw [writeAt, run_bind, writeLine_some hreq]
  show (writeRaw P data >>= _).run _ = _
  rw [run_bind, writeRaw_none (c := (c.received P s []).logged _) hpay]
  rfl

theorem writeAt_unanswered (hc : c.fc.inp = []) {fd off : Int} {data : Bytes} {s₁ : σ}
    (hreq : P.recv c.peer (writeCmd fd off data.length ++ [10]) = some (s₁, []))
    (hpay : P.recv s₁ data = some (s, [])) :
    ∃ fc, (writeAt P fd off data).run c = ((0, some (.io (P.fin s))),
        ⟨fc, s, c.current, c.infoMap, c.sent ++ [(c.current, writeCmd fd off data.length)]⟩) ∧
      fc.inp = [] := by
  have hpay' : P.recv ((c.received P s₁ []).logged (writeCmd fd off data.length)).peer data =
      some (s, []) := hpay
  obtain ⟨fc, hline, hinp⟩ := readResponseLine_empty
    (c := ((c.received P s₁ []).logged (writeCmd fd off data.length)).received P s [])
    (by simp [received, logged, hc])
  refine ⟨fc, ?_, hinp⟩
  rw [writeAt, run_bind, writeLine_some hreq]
  show (writeRaw P data >>= _).run _ = _
  rw [run_bind, writeRaw_some hpay']
  show (readResponseLine >>= _).run _ = _
  rw [run_bind, hline]
  rfl

/-- `writeAt` once the target has sent the status line: what is left is the read of
the prompt behind it. -/
theorem writeAt_status (hc : Quiet c.fc.inp) {fd off : Int} {data l a b r : Bytes} {s₁ : σ}
    (hreq : P.recv c.peer (writeCmd fd off data.length ++ [10]) = some (s₁, []))
    (hpay : P.recv s₁ data = some (s, a ++ b)) (hl : (10 : UInt8) ∉ l)
    (ha : Pulls a (l ++ [10]) [] r) (hok : (ascii "o:").isPrefixOf (statusLine l) = true) :
    ∃ fc : FrameConn, fc.inp = b ∧ fc.promptsRead = c.fc.promptsRead ∧ fc.fin = P.fin s ∧
      (writeAt P fd off data).run c =
        (((statusCount (statusLine l)).1, fc.readUntilPrompt.1.2.map .io),
          ⟨fc.readUntilPrompt.2, s, c.current, c.infoMap,
            c.sent ++ [(c.current, writeCmd fd off data.length)]⟩) := by
  have hpay' : P.recv ((c.received P s₁ []).logged (writeCmd fd off data.length)).peer data =
      some (s, a ++ b) := hpay
  have hunread : (((c.received P s₁ []).logged (writeCmd fd off data.length)).received P s
      (a ++ b)).fc.inp = c.fc.inp ++ (a ++ b) := by
    simp [received, logged]
  obtain ⟨fc, hline, hinp, hcount, hfin⟩ := readResponseLine_of_reply hc hunread hl ha
  refine ⟨fc, hinp, hcount, hfin, ?_⟩
  rw [writeAt, run_bind, writeLine_some hreq]
  show (writeRaw P data >>= _).run _ = _
  rw [run_bind, writeRaw_some hpay']
  show (readResponseLine >>= _).run _ = _
  rw [run_bind, hline]
  show (if (ascii "o:").isPrefixOf (statusLine l) = true then _ else _ : Act σ _).run _ = _
  rw [if_pos hok]
  rfl

/-- An upload that the target acknowledges with an `o:` line. -/
theorem writeAt_of_reply (hc : T.ok c.fc.inp) {fd off : Int} {data l out : Bytes} {s₁ : σ}
    (hreq : P.recv c.peer (writeCmd fd off data.length ++ [10]) = some (s₁, []))
    (hpay : P.recv s₁ data = some (s, out)) (hout : StatusReply T l [] out)
    (hok : (ascii "o:").isPrefixOf (statusLine l) = true) :
    ∃ c', (writeAt P fd off data).run c = (((statusCount (statusLine l)).1, none), c') ∧
      After T c s [writeCmd fd off data.length] c' := by
  obtain ⟨a, b, t, r, rfl, hl, ha, p, rest, r', hp, ht, hpulls, hrest⟩ := hout
  obtain ⟨fc, hinp, hcount, -, hrun⟩ := writeAt_status (T.quiet hc) hreq hpay hl ha hok
  rw [← List.nil_append b, ← hinp] at hpulls
  rw [FrameConn.readUntilPrompt_found hp ht hpulls] at hrun
  exact ⟨_, hrun, .of_logged (T.swallow hrest _) (congrArg (· + 1) hcount)⟩

/-- The loop never uploads an empty chunk. -/
theorem chunk_ne_nil {data : Bytes} {total : Int} (hlt : total < data.length) (hpos : ¬ total < 0) :
    (data.drop total.toNat).take maxWriteChunk ≠ [] := by
  intro h
  have hlen := congrArg List.length h
  simp only [List.length_take, List.length_drop, List.length_nil] at hlen
  have : 0 < maxWriteChunk := by decide
  omega

end Client

end QconnMcp.Qconn
