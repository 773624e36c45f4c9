import QconnMcp.Qnxdbg.Exchange

/-!
# Replies and program output on one stream

The debug agent sends control frames, replies and the output of the debugged
program over one connection. `readResponse` takes the stream apart: it drops the
first kind, returns the second and collects the third, which `Output` hands over
and clears.

`Balanced` keeps the books of a run: every frame that has arrived is either still
unread or was consumed, and what was consumed is found, once and in order, among
the responses, in the texts handed out, or in the text that is pending. Every event
keeps the balance (`Event.exec_balanced`), so `demultiplexed` holds for any
interleaving of arrivals and calls.
-/

namespace QconnMcp.Qnxdbg

open Kit

/-! ## Frames on the wire -/

/-- Bytes that are nothing but valid frames, with the payloads they carry. Delimiters
may be repeated or shared, and bytes may be escaped that need not be. -/
structure Wire where
  bytes : Bytes
  payloads : List Bytes
  /-- The last frame is complete, -/
  closed : stuffing.unclosed bytes = []
  /-- and every checksum is right. -/
  valid : (stuffing.contents bytes).map decode = payloads.map .ok

namespace Wire

def empty : Wire := ⟨[], [], rfl, rfl⟩

def append (w v : Wire) : Wire where
  bytes := w.bytes ++ v.bytes
  payloads := w.payloads ++ v.payloads
  closed := by rw [stuffing.unclosed_append, w.closed, List.nil_append, v.closed]
  valid := by
    rw [stuffing.contents_append_unclosed, w.closed, List.nil_append, List.map_append, w.valid,
      v.valid, List.map_append]

/-- Payloads in the frames that `writeFrame` builds. -/
def framed (ps : List Bytes) : Wire where
  bytes := ps.flatMap frame
  payloads := ps
  closed := by
    induction ps with
    | nil => rfl
    | cons p ps ih => rw [List.flatMap_cons, stuffing.unclosed_of_next (next_frame p _), ih]
  valid := by
    rw [← readAll_eq .eof, readAll_flatMap_frame]

theorem payloads_of_next_none {w : Wire} (h : stuffing.next w.bytes = none) : w.payloads = [] := by
  have hvalid := w.valid
  rw [stuffing.contents_of_next_none h] at hvalid
  exact List.map_eq_nil_iff.mp hvalid.symm

/-- A read takes the first payload off. -/
theorem exists_of_next {w : Wire} {content rest : Bytes}
    (h : stuffing.next w.bytes = some (content, rest)) :
    ∃ p, ∃ v : Wire, decode content = .ok p ∧ v.bytes = rest ∧ w.payloads = p :: v.payloads := by
  have hvalid := w.valid
  rw [(stuffing.contents_of_next h).1, List.map_cons] at hvalid
  obtain ⟨p, ps, hps, hp, hrest⟩ := List.map_eq_cons_iff.mp hvalid.symm
  refine ⟨p, ⟨rest, ps, ?_, hrest.symm⟩, hp.symm, rfl, hps⟩
  rw [← stuffing.unclosed_of_next h, w.closed]

end Wire

/-! ## Text frames -/

/-- A frame that carries program output. -/
def IsText (p : Bytes) : Prop := 4 ≤ p.length ∧ p[3]? = some chanText

instance : DecidablePred IsText := fun p =>
  inferInstanceAs (Decidable (4 ≤ p.length ∧ p[3]? = some chanText))

/-- The bodies of the text frames. -/
def texts (ps : List Bytes) : Bytes := (ps.filter fun p => decide (IsText p)).flatMap (·.drop 4)

theorem texts_append (ps qs : List Bytes) : texts (ps ++ qs) = texts ps ++ texts qs := by
  rw [texts, List.filter_append, List.flatMap_append]
  rfl

/-- Every frame is a control frame, a text frame or a debug frame. -/
theorem frame_cases (p : Bytes) :
    (p.length < 4 ∧ texts [p] = [] ∧ debugFrames [p] = []) ∨
      (¬ p.length < 4 ∧ p[3]? = some chanText ∧ texts [p] = p.drop 4 ∧ debugFrames [p] = []) ∨
      (¬ p.length < 4 ∧ p[3]? ≠ some chanText ∧ texts [p] = [] ∧ debugFrames [p] = [p]) := by
  by_cases hlen : p.length < 4
  · exact .inl ⟨hlen, by simp [texts, IsText, Nat.not_le.mpr hlen],
      by simp [debugFrames, Aside, hlen]⟩
  · by_cases htext : p[3]? = some chanText
    · exact .inr (.inl ⟨hlen, htext, by simp [texts, IsText, Nat.not_lt.mp hlen, htext],
        by simp [debugFrames, Aside, htext]⟩)
    · exact .inr (.inr ⟨hlen, htext, by simp [texts, IsText, htext],
        by simp [debugFrames, Aside, hlen, htext]⟩)

namespace Client

variable {σ : Type}

/-- `Output`: the collected text, which is cleared. -/
def takeOutput : Act σ Bytes := fun c => (c.output, { c with output := [] })

/-! ## One read -/

/-- What a read of a response does to the frames that are there: the frames it
consumes end with the one it returns, or are all that there were. -/
structure Read (c c' : Client σ) (r : Except ReadErr Bytes) (w : Wire) (consumed : List Bytes)
    (rest : Wire) : Prop where
  payloads : w.payloads = consumed ++ rest.payloads
  state : c' = { c with inp := rest.bytes, output := c.output ++ texts consumed }
  result : (∃ p, r = .ok p ∧ debugFrames consumed = [p]) ∨
    (r = .error (.io c.fin) ∧ debugFrames consumed = [] ∧ rest.payloads = [])

/-- A frame in front that was skipped joins the frames consumed. -/
theorem Read.skip {c c' : Client σ} {r : Except ReadErr Bytes} {w v : Wire} {p : Bytes}
    {consumed : List Bytes} {rest : Wire}
    (h : Read { c with inp := v.bytes, output := c.output ++ texts [p] } c' r v consumed rest)
    (hw : w.payloads = p :: v.payloads) (hp : debugFrames [p] = []) :
    Read c c' r w (p :: consumed) rest := by
  have hdebug : debugFrames (p :: consumed) = debugFrames consumed := by
    rw [← List.singleton_append, debugFrames_append, hp, List.nil_append]
  have htexts : texts (p :: consumed) = texts [p] ++ texts consumed := texts_append [p] consumed
  refine ⟨by rw [hw, h.payloads, List.cons_append], ?_, ?_⟩
  · rw [h.state, htexts, ← List.append_assoc]
  · rw [hdebug]
    exact h.result

theorem readResponseLoop_read {fuel : Nat} {c : Client σ} {w : Wire} (hc : c.inp = w.bytes)
    (hfuel : w.bytes.length < fuel) :
    ∃ consumed rest, Read c ((readResponseLoop fuel).run c).2 ((readResponseLoop fuel).run c).1 w
      consumed rest := by
  -- every frame that is skipped costs at least one byte
  induction fuel generalizing c w with
  | zero => omega
  | succ fuel ih =>
      rw [readResponseLoop, run_bind]
      cases hnext : stuffing.next w.bytes with
      | none =>
          have hframe : readFrame.run c = (.error (.io c.fin), { c with inp := [] }) := by
            show ((Qnxdbg.readFrame c.fin c.inp).1, _) = _
            rw [hc, Qnxdbg.readFrame, hnext]
          rw [hframe]
          refine ⟨[], Wire.empty, Wire.payloads_of_next_none hnext, ?_, .inr ⟨rfl, rfl, rfl⟩⟩
          show { c with inp := [] } = { c with inp := [], output := c.output ++ [] }
          rw [List.append_nil]
      | some r =>
          obtain ⟨content, rest⟩ := r
          obtain ⟨p, v, hdecode, rfl, hw⟩ := Wire.exists_of_next hnext
          have hlen := (stuffing.contents_of_next hnext).2
          have hframe : readFrame.run c = (.ok p, { c with inp := v.bytes }) := by
            show ((Qnxdbg.readFrame c.fin c.inp).1, _) = _
            rw [hc, Qnxdbg.readFrame, hnext]
            exact congrArg (·, _) hdecode
          rw [hframe]
          rcases frame_cases p with ⟨hshort, htexts, hdebug⟩ | ⟨hlong, htext, htexts, hdebug⟩ |
            ⟨hlong, htext, htexts, hdebug⟩
          · obtain ⟨consumed, rest, hread⟩ :=
              ih (c := { c with inp := v.bytes, output := c.output ++ texts [p] }) rfl (by omega)
            refine ⟨p :: consumed, rest, ?_⟩
            have hskip := hread.skip hw hdebug
            rw [htexts, List.append_nil] at hskip
            simp only [if_pos hshort]
            exact hskip
          · obtain ⟨consumed, rest, hread⟩ :=
              ih (c := { c with inp := v.bytes, output := c.output ++ texts [p] }) rfl (by omega)
            refine ⟨p :: consumed, rest, ?_⟩
            have hskip := hread.skip hw hdebug
            rw [htexts] at hskip
            simp only [if_neg hlong, if_pos htext]
            exact hskip
          · refine ⟨[p], v, hw, ?_, .inl ⟨p, ?_, hdebug⟩⟩
            · simp only [if_neg hlong, if_neg htext, htexts, List.append_nil]
              rfl
            · simp only [if_neg hlong, if_neg htext]
              rfl

theorem readResponse_read {c : Client σ} {w : Wire} (hc : c.inp = w.bytes) :
    ∃ consumed rest, Read c (readResponse.run c).2 (readResponse.run c).1 w consumed rest :=
  readResponseLoop_read hc (by rw [hc]; exact Nat.lt_succ_self _)

/-- A read returns the first debug frame that is there, if there is one. -/
theorem readResponse_head {c : Client σ} {w : Wire} (hc : c.inp = w.bytes) :
    (readResponse.run c).1 =
      match debugFrames w.payloads with
      | p :: _ => .ok p
      | [] => .error (.io c.fin) := by
  obtain ⟨consumed, rest, hread⟩ := readResponse_read hc
  rw [hread.payloads, debugFrames_append]
  rcases hread.result with ⟨p, hr, hdebug⟩ | ⟨hr, hdebug, hrest⟩
  · rw [hr, hdebug]
    rfl
  · rw [hr, hdebug, hrest]
    rfl

end Client

/-! ## Runs -/

inductive Event where
  | arrives (w : Wire)
  | readResponse
  | output

/-- What a call has returned. -/
inductive Result where
  | response (r : Except ReadErr Bytes)
  | output (b : Bytes)

namespace Result

/-- The payloads that `readResponse` has returned. -/
def returned (rs : List Result) : List Bytes :=
  rs.filterMap fun
    | .response (.ok p) => some p
    | _ => none

/-- What `Output` has returned, all together. -/
def outputs (rs : List Result) : Bytes :=
  rs.flatMap fun
    | .output b => b
    | _ => []

theorem returned_append (rs ts : List Result) :
    returned (rs ++ ts) = returned rs ++ returned ts := List.filterMap_append

theorem outputs_append (rs ts : List Result) : outputs (rs ++ ts) = outputs rs ++ outputs ts :=
  List.flatMap_append

end Result

namespace Event

variable {σ : Type}

def payloads : Event → List Bytes
  | .arrives w => w.payloads
  | _ => []

def exec : Event → Act σ (List Result)
  | .arrives w => fun c => ([], { c with inp := c.inp ++ w.bytes })
  | .readResponse => do
      let r ← Client.readResponse
      pure [.response r]
  | .output => do
      let b ← Client.takeOutput
      pure [.output b]

def execAll : List Event → Act σ (List Result)
  | [] => pure []
  | e :: es => do
      let r ← e.exec
      let rs ← execAll es
      pure (r ++ rs)

/-- The books of a run that started with the text `text`: `arrived` are all frames so
far, `rs` the results. -/
structure Balanced (text : Bytes) (arrived : List Bytes) (rs : List Result) (c : Client σ)
    (consumed : List Bytes) (rest : Wire) : Prop where
  frames : arrived = consumed ++ rest.payloads
  unread : c.inp = rest.bytes
  responses : Result.returned rs = debugFrames consumed
  output : Result.outputs rs ++ c.output = text ++ texts consumed

/-- The step lemma: an event keeps the balance. -/
theorem exec_balanced {text : Bytes} {arrived consumed : List Bytes} {rs : List Result}
    {c : Client σ} {rest : Wire} (h : Balanced text arrived rs c consumed rest) (e : Event) :
    ∃ consumed' rest', Balanced text (arrived ++ e.payloads) (rs ++ (e.exec.run c).1)
      (e.exec.run c).2 consumed' rest' := by
  cases e with
  | arrives w =>
      refine ⟨consumed, rest.append w, ?_, ?_, ?_, ?_⟩
      · rw [h.frames, List.append_assoc]
        rfl
      · show c.inp ++ w.bytes = rest.bytes ++ w.bytes
        rw [h.unread]
      · show Result.returned (rs ++ []) = _
        rw [List.append_nil, h.responses]
      · show Result.outputs (rs ++ []) ++ c.output = _
        rw [List.append_nil, h.output]
  | readResponse =>
      obtain ⟨now, rest', hread⟩ := Client.readResponse_read h.unread
      refine ⟨consumed ++ now, rest', ?_, ?_, ?_, ?_⟩
      · rw [h.frames, hread.payloads, ← List.append_assoc]
        exact List.append_nil _
      · exact congrArg Client.inp hread.state
      · show Result.returned (rs ++ [.response (Client.readResponse.run c).1]) = _
        rw [Result.returned_append, debugFrames_append, h.responses]
        rcases hread.result with ⟨p, hr, hdebug⟩ | ⟨hr, hdebug, -⟩
        · rw [hr, hdebug]
          rfl
        · rw [hr, hdebug]
          rfl
      · show Result.outputs (rs ++ [.response (Client.readResponse.run c).1]) ++
          (Client.readResponse.run c).2.output = _
        have hnone : Result.outputs [.response (Client.readResponse.run c).1] = [] := rfl
        rw [hread.state, texts_append, ← List.append_assoc, ← List.append_assoc, ← h.output,
          Result.outputs_append, hnone, List.append_nil]
  | output =>
      refine ⟨consumed, rest, ?_, h.unread, ?_, ?_⟩
      · rw [h.frames]
        exact List.append_nil _
      · show Result.returned (rs ++ [.output c.output]) = _
        rw [Result.returned_append, h.responses]
        exact List.append_nil _
      · show Result.outputs (rs ++ [.output c.output]) ++ [] = _
        rw [← h.output, Result.outputs_append, List.append_nil]
        exact congrArg (Result.outputs rs ++ ·) (List.append_nil c.output)

/-- The run lemma, by induction over the events. -/
theorem execAll_balanced (es : List Event) {text : Bytes} {arrived consumed : List Bytes}
    {rs : List Result} {c : Client σ} {rest : Wire}
    (h : Balanced text arrived rs c consumed rest) :
    ∃ consumed' rest', Balanced text (arrived ++ es.flatMap payloads)
      (rs ++ ((execAll es).run c).1) ((execAll es).run c).2 consumed' rest' := by
  induction es generalizing arrived consumed rs c rest with
  | nil =>
      refine ⟨consumed, rest, ?_⟩
      show Balanced text (arrived ++ []) (rs ++ []) c consumed rest
      rw [List.append_nil, List.append_nil]
      exact h
  | cons e es ih =>
      obtain ⟨consumed₁, rest₁, h₁⟩ := exec_balanced h e
      obtain ⟨consumed₂, rest₂, h₂⟩ := ih h₁
      rw [List.append_assoc, List.append_assoc] at h₂
      exact ⟨consumed₂, rest₂, h₂⟩

/-- **Nothing is lost and nothing comes twice.** Whatever valid frames are there at
first and arrive between the calls, what has been consumed at any point is a beginning
of all of them: the responses are its debug frames, and the texts handed out and the
pending one are the bodies of its text frames. The next response is the first debug
frame behind it. -/
theorem demultiplexed (c : Client σ) (w : Wire) (es : List Event) :
    let r := (execAll es).run { c with inp := w.bytes }
    ∃ (consumed : List Bytes) (rest : Wire),
      w.payloads ++ es.flatMap payloads = consumed ++ rest.payloads ∧ r.2.inp = rest.bytes ∧
      Result.returned r.1 = debugFrames consumed ∧
      Result.outputs r.1 ++ r.2.output = c.output ++ texts consumed ∧
      (Client.readResponse.run r.2).1 =
        match debugFrames rest.payloads with
        | p :: _ => .ok p
        | [] => .error (.io r.2.fin) := by
  intro r
  have hstart : Balanced c.output w.payloads [] { c with inp := w.bytes } [] w :=
    ⟨rfl, rfl, rfl, (List.append_nil _).symm⟩
  obtain ⟨consumed, rest, h⟩ := execAll_balanced es hstart
  exact ⟨consumed, rest, h.frames, h.unread, h.responses, h.output, Client.readResponse_head h.unread⟩

/-- Output before and between two replies, drained twice; a control frame in front. -/
example :
    let w := Wire.framed [[0x01], [0, 0, 0, 2, 65], [0x20, 0, 7, 1], [0, 0, 0, 2, 66]]
    let c : Client Unit := ⟨w.bytes, .eof, (), 0, [], []⟩
    Result.outputs ((execAll [.readResponse, .output, .readResponse, .output]).run c).1 =
      [65, 66] := by
  decide +kernel

end Event

end QconnMcp.Qnxdbg
