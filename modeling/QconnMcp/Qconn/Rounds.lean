import QconnMcp.Qconn.Sync

/-!
# The rounds of the chunking loops

`ReadFileRange`, `WriteFile` and `WriteFileAt` send one request after another, each
with an offset behind the bytes that have been moved. `readRequests` and
`writeRequests` are these requests, each with the number of bytes moved before it, on
any peer; they are the command lines that the loops send (`rangeLoop_lines`,
`writeLoop_lines`). `EachRead` says that something holds at the start of every round.

The first property stated in this way is the bound on what is read. The count in a
status line comes from the target and is passed to `readN` as it is; a read is
bounded by what was asked for exactly when the target announces no more
(`reads_bounded`).
-/

namespace QconnMcp.Qconn

open Kit

namespace Client

variable {σ : Type} (P : Peer σ)

/-! ## Opening -/

/-- The part of an operation before its loop: enter the file service and open the
path. -/
def opened (path : Bytes) (flags mode : Int) : Act σ (Except Err FileHandle) := do
  match ← ensure P .file with
  | some e => pure (.error e)
  | none => openFile P path flags mode

variable {P}

section Opened

variable {α : Type} {path : Bytes} {flags mode : Int} {failed : Err → α}
  {body : FileHandle → Act σ α} {c c' : Client σ}

theorem withFile_eq : withFile P path flags mode failed body = (do
    match ← opened P path flags mode with
    | .error e => pure (failed e)
    | .ok h =>
        let r ← body h
        let _ ← closeFile P h.fd
        pure r) := by
  funext c
  rw [withFile, opened, bind_assoc]
  show (ensure P .file >>= _).run c = (ensure P .file >>= _).run c
  rw [run_bind, run_bind]
  cases ((ensure P .file).run c).1 <;> rfl

theorem withFile_ok {h : FileHandle} (hopen : (opened P path flags mode).run c = (.ok h, c')) :
    (withFile P path flags mode failed body).run c =
      (((body h).run c').1, ((closeFile P h.fd).run ((body h).run c').2).2) := by
  rw [withFile_eq, run_bind, hopen]
  rfl

theorem withFile_error {e : Err} (hopen : (opened P path flags mode).run c = (.error e, c')) :
    (withFile P path flags mode failed body).run c = (failed e, c') := by
  rw [withFile_eq, run_bind, hopen]
  rfl

end Opened

/-! ## Rounds -/

variable (P)

/-- The request of the round with `out` read. -/
def readRound (fd off n : Int) (out : Bytes) : Act σ (Bytes × Option Err) :=
  readAt P fd (wrap64 (off + out.length)) (clipRead (n - out.length))

/-- `Q` holds at the start of every round of the loop of `ReadFileRange`. -/
def EachRead (fd off n : Int) (Q : Bytes → Client σ → Prop) : Nat → Bytes → Client σ → Prop
  | 0, _, _ => True
  | fuel + 1, out, c =>
      (out.length : Int) < n →
        Q out c ∧
          ∀ chunk c', (readRound P fd off n out).run c = ((chunk, none), c') → chunk ≠ [] →
            EachRead fd off n Q fuel (out ++ chunk) c'

/-- The request of the round with `total` bytes written. -/
def writeRound (fd off : Int) (data : Bytes) (total : Int) : Act σ (Int × Option Err) :=
  writeAt P fd (wrap64 (off + total)) ((data.drop total.toNat).take maxWriteChunk)

variable {P}

/-- A round that fails or finds nothing more ends the loop with what has been
read, any other one is followed by the next. -/
theorem rangeLoop_round {fd off n : Int} {out : Bytes} (h : (out.length : Int) < n) {c : Client σ}
    (fuel : Nat) :
    ((rangeLoop P fd off n (fuel + 1) out).run c).1.1 = out ∨
      ∃ chunk c', (readRound P fd off n out).run c = ((chunk, none), c') ∧ chunk ≠ [] ∧
        (rangeLoop P fd off n (fuel + 1) out).run c =
          (rangeLoop P fd off n fuel (out ++ chunk)).run c' := by
  rw [rangeLoop, if_pos h, ← readRound, run_bind]
  rcases hround : (readRound P fd off n out).run c with ⟨⟨chunk, e⟩, c'⟩
  cases e with
  | some e => exact .inl rfl
  | none =>
      by_cases hempty : chunk = []
      · simp only [if_pos hempty]
        exact .inl rfl
      · simp only [if_neg hempty]
        exact .inr ⟨chunk, c', rfl, hempty, rfl⟩

/-! ## What a round sends -/

/-- The command lines that a program sends. -/
def newLines {α : Type} (m : Act σ α) (c : Client σ) : List Bytes :=
  ((m.run c).2.sent.drop c.sent.length).map Prod.snd

/-- The program sends no command line. -/
def SendsNoLine {α : Type} (m : Act σ α) : Prop := ∀ c, (m.run c).2.sent = c.sent

theorem SendsNoLine.pure {α : Type} (a : α) : SendsNoLine (Pure.pure a : Act σ α) := fun _ => rfl

theorem SendsNoLine.onConn {α : Type} (rd : FrameConn → α × FrameConn) :
    SendsNoLine (onConn rd : Act σ α) := fun _ => rfl

theorem SendsNoLine.bind {α β : Type} {m : Act σ α} {f : α → Act σ β} (hm : SendsNoLine m)
    (hf : ∀ a, SendsNoLine (f a)) : SendsNoLine (m >>= f) := by
  intro c
  rw [run_bind, hf, hm]

theorem writeRaw_sendsNoLine (b : Bytes) : SendsNoLine (writeRaw P b) := by
  intro c
  show (writeRaw P b c).2.sent = c.sent
  rw [writeRaw]
  cases P.recv c.peer b <;> rfl

theorem readStatus_sendsNoLine (line : Bytes) : SendsNoLine (readStatus (σ := σ) line) := by
  have hprompt : SendsNoLine (readUntilPrompt (σ := σ)) := .onConn _
  rw [readStatus]
  split
  · exact hprompt.bind fun _ => .pure _
  · split
    · rcases statusCount line with ⟨numread, e⟩
      cases e with
      | some e => exact .pure _
      | none =>
          refine SendsNoLine.bind ?_ ?_
          · split
            · exact .onConn _
            · exact .pure _
          · rintro ⟨data, e⟩
            cases e with
            | some e => exact .pure _
            | none => exact hprompt.bind fun _ => .pure _
    · exact hprompt.bind fun _ => .pure _

/-- A command line is sent, whatever is read behind it, or refused. -/
theorem sent_of_writeLine {α : Type} {cmd : Bytes} {f : Option IoErr → Act σ α}
    (hrefused : ∀ e, SendsNoLine (f (some e))) (hf : SendsNoLine (f none)) (c : Client σ) :
    ((writeLine P cmd >>= f).run c).2.sent =
      if P.recv c.peer (cmd ++ [10]) = none then c.sent else c.sent ++ [(c.current, cmd)] := by
  rw [run_bind]
  cases hrecv : P.recv c.peer (cmd ++ [10]) with
  | none =>
      rw [writeLine_none hrecv, if_pos rfl]
      exact hrefused _ c
  | some r =>
      rw [writeLine_some (show P.recv c.peer (cmd ++ [10]) = some (r.1, r.2) from hrecv),
        if_neg (by simp)]
      exact hf _

theorem readAt_sent (fd off n : Int) (c : Client σ) :
    ((readAt P fd off n).run c).2.sent =
      if P.recv c.peer (readCmd fd off (clipRead n) ++ [10]) = none then c.sent
      else c.sent ++ [(c.current, readCmd fd off (clipRead n))] := by
  rw [readAt]
  apply sent_of_writeLine
  · exact fun e => .pure _
  · refine SendsNoLine.bind (.onConn _) ?_
    rintro ⟨line, e⟩
    cases e with
    | some e => exact .pure _
    | none => exact readStatus_sendsNoLine line

theorem writeAt_sent (fd off : Int) (data : Bytes) (c : Client σ) :
    ((writeAt P fd off data).run c).2.sent =
      if P.recv c.peer (writeCmd fd off data.length ++ [10]) = none then c.sent
      else c.sent ++ [(c.current, writeCmd fd off data.length)] := by
  rw [writeAt]
  apply sent_of_writeLine
  · exact fun e => .pure _
  · refine (writeRaw_sendsNoLine data).bind ?_
    intro e
    cases e with
    | some e => exact .pure _
    | none =>
        refine SendsNoLine.bind (.onConn _) ?_
        rintro ⟨line, e⟩
        cases e with
        | some e => exact .pure _
        | none =>
            dsimp only
            split
            · exact SendsNoLine.bind (.onConn _) fun _ => .pure _
            · exact .pure _

/-! ## The lines of a program -/

/-- The program sends command lines with `S` only. -/
def Sends {α : Type} (S : Bytes → Prop) (m : Act σ α) : Prop :=
  ∀ c, ∃ ls : List (Service × Bytes), (m.run c).2.sent = c.sent ++ ls ∧ ∀ l ∈ ls, S l.2

section Sends

variable {α β : Type} {S T : Bytes → Prop} {m : Act σ α} {f : α → Act σ β}

theorem SendsNoLine.sends (h : SendsNoLine m) : Sends S m :=
  fun c => ⟨[], by rw [h c, List.append_nil], by simp⟩

theorem Sends.bind (hm : Sends S m) (hf : ∀ a, Sends S (f a)) : Sends S (m >>= f) := by
  intro c
  obtain ⟨ls, hls, hall⟩ := hm c
  obtain ⟨ls', hls', hall'⟩ := hf (m.run c).1 (m.run c).2
  refine ⟨ls ++ ls', ?_, ?_⟩
  · rw [run_bind, hls', hls, List.append_assoc]
  · intro l hl
    rcases List.mem_append.mp hl with hl | hl
    · exact hall l hl
    · exact hall' l hl

theorem newLines_eq {c : Client σ} {ls : List (Service × Bytes)}
    (h : (m.run c).2.sent = c.sent ++ ls) : newLines m c = ls.map Prod.snd := by
  rw [newLines, h, List.drop_left]

theorem Sends.newLines (h : Sends S m) (c : Client σ) : ∀ l ∈ newLines m c, S l := by
  obtain ⟨ls, hls, hall⟩ := h c
  rw [newLines_eq hls]
  intro l hl
  obtain ⟨x, hx, rfl⟩ := List.mem_map.mp hl
  exact hall x hx

/-- A sequence sends the lines of its parts one after another. -/
theorem newLines_bind (hm : Sends S m) (hf : ∀ a, Sends T (f a)) (c : Client σ) :
    Client.newLines (m >>= f) c =
      Client.newLines m c ++ Client.newLines (f (m.run c).1) (m.run c).2 := by
  obtain ⟨ls, hls, -⟩ := hm c
  obtain ⟨ls', hls', -⟩ := hf (m.run c).1 (m.run c).2
  rw [newLines_eq hls, newLines_eq hls', ← List.map_append]
  refine newLines_eq ?_
  rw [run_bind, hls', hls, List.append_assoc]

/-- A program that sends one line and then reads. -/
theorem sends_of_sent {cmd : Bytes}
    (h : ∀ c, (m.run c).2.sent = if P.recv c.peer (cmd ++ [10]) = none then c.sent
      else c.sent ++ [(c.current, cmd)]) (hcmd : S cmd) : Sends S m := by
  intro c
  rw [h c]
  split
  · exact ⟨[], by simp, by simp⟩
  · exact ⟨[(c.current, cmd)], rfl, by simpa using hcmd⟩

theorem raw_sends {cmd : Bytes} (h : S cmd) : Sends S (raw P cmd) := by
  refine sends_of_sent (P := P) (fun c => ?_) h
  rw [raw]
  refine sent_of_writeLine ?_ ?_ c
  · exact fun e => .pure _
  · exact SendsNoLine.bind (.onConn _) fun _ => .pure _

theorem readAt_sends {fd off n : Int} (h : S (readCmd fd off (clipRead n))) :
    Sends S (readAt P fd off n) :=
  sends_of_sent (readAt_sent fd off n) h

theorem writeAt_sends {fd off : Int} {data : Bytes} (h : S (writeCmd fd off data.length)) :
    Sends S (writeAt P fd off data) :=
  sends_of_sent (writeAt_sent fd off data) h

end Sends

/-! Entering the file service, opening and closing take text commands only. -/

theorem leaveService_sends : Sends TextCmd (leaveService P) := by
  refine (SendsNoLine.sends fun _ => rfl).bind fun cur => ?_
  refine (raw_sends (textCmd_fixed ?_)).bind fun r => ?_
  · split <;> simp
  · rcases r with ⟨_, _ | e⟩
    · exact (SendsNoLine.sends fun _ => rfl).bind fun _ => (SendsNoLine.pure _).sends
    · exact (SendsNoLine.pure _).sends

theorem ensure_sends (svc : Service) : Sends TextCmd (ensure P svc) := by
  refine (SendsNoLine.sends fun _ => rfl).bind fun cur => ?_
  split
  · exact (SendsNoLine.pure _).sends
  · refine Sends.bind ?_ fun left => ?_
    · split
      · exact (SendsNoLine.pure _).sends
      · exact leaveService_sends
    · cases left with
      | some e => exact (SendsNoLine.pure _).sends
      | none =>
          dsimp only
          split
          · exact (SendsNoLine.pure _).sends
          · refine (raw_sends (textCmd_service svc)).bind fun r => ?_
            rcases r with ⟨resp, _ | e⟩
            · dsimp only
              split
              · exact (SendsNoLine.sends fun _ => rfl).bind fun _ => (SendsNoLine.pure _).sends
              · exact (SendsNoLine.pure _).sends
            · exact (SendsNoLine.pure _).sends

theorem opened_sends {path : Bytes} (hpath : (10 : UInt8) ∉ path) (flags mode : Int) :
    Sends TextCmd (opened P path flags mode) := by
  refine (ensure_sends .file).bind fun left => ?_
  cases left with
  | some e => exact (SendsNoLine.pure _).sends
  | none =>
      refine (raw_sends (textCmd_open hpath flags mode)).bind fun r => ?_
      rcases r with ⟨resp, _ | e⟩
      · dsimp only
        split
        · exact (SendsNoLine.pure _).sends
        · exact (SendsNoLine.pure _).sends
      · exact (SendsNoLine.pure _).sends

/-- What a close leaves behind is what its command leaves behind. -/
theorem closeFile_raw (fd : Int) (c : Client σ) :
    ((closeFile P fd).run c).2 = ((raw P (closeCmd fd)).run c).2 := by
  rw [closeFile, run_bind]
  rcases ((raw P (closeCmd fd)).run c).1 with ⟨resp, e⟩
  cases e <;> rfl

theorem closeFile_sends (fd : Int) : Sends TextCmd (closeFile P fd) := by
  refine (raw_sends (textCmd_close fd)).bind fun r => ?_
  rcases r with ⟨resp, _ | e⟩
  · exact (SendsNoLine.pure _).sends
  · exact (SendsNoLine.pure _).sends

/-! ## The requests of the loops -/

variable (P)

/-- The requests of the loop of `ReadFileRange`, each with the number of bytes read
before it. -/
def readRequests (fd off n : Int) : Nat → Bytes → Client σ → List (Nat × Bytes)
  | 0, _, _ => []
  | fuel + 1, out, c =>
      if (out.length : Int) < n then
        (newLines (readRound P fd off n out) c).map (out.length, ·) ++
          match (readRound P fd off n out).run c with
          | ((chunk, none), c') => if chunk = [] then [] else readRequests fd off n fuel (out ++ chunk) c'
          | ((_, some _), _) => []
      else []

/-- The requests of the loop of `WriteFile` and `WriteFileAt`, each with the number of
bytes written before it. -/
def writeRequests (fd off : Int) (data : Bytes) : Nat → Int → Client σ → List (Nat × Bytes)
  | 0, _, _ => []
  | fuel + 1, total, c =>
      if total < data.length then
        if total < 0 then []
        else
          (newLines (writeRound P fd off data total) c).map (total.toNat, ·) ++
            match (writeRound P fd off data total).run c with
            | ((nw, none), c') =>
                if nw ≤ 0 then [] else writeRequests fd off data fuel (wrap64 (total + nw)) c'
            | ((_, some _), _) => []
      else []

variable {P}

theorem readRound_sends (fd off n : Int) (out : Bytes) :
    Sends (fun l => ∃ k, l = readCmd fd (wrap64 (off + out.length)) k) (readRound P fd off n out) :=
  readAt_sends ⟨_, rfl⟩

theorem writeRound_sends (fd off : Int) (data : Bytes) (total : Int) :
    Sends (fun l => ∃ k, l = writeCmd fd (wrap64 (off + total)) k) (writeRound P fd off data total) :=
  writeAt_sends ⟨_, rfl⟩

/-- Each request is for what follows the bytes read before it, of which some are
missing. -/
theorem mem_readRequests {fd off n : Int} {fuel : Nat} {out : Bytes} {c : Client σ} {r : Nat × Bytes}
    (h : r ∈ readRequests P fd off n fuel out c) :
    (r.1 : Int) < n ∧ ∃ k, r.2 = readCmd fd (wrap64 (off + r.1)) k := by
  induction fuel generalizing out c with
  | zero => simp [readRequests] at h
  | succ fuel ih =>
      rw [readRequests] at h
      split at h
      · rename_i hlt
        rcases List.mem_append.mp h with h | h
        · obtain ⟨l, hl, rfl⟩ := List.mem_map.mp h
          exact ⟨hlt, (readRound_sends fd off n out).newLines c l hl⟩
        · split at h
          · split at h
            · simp at h
            · exact ih h
          · simp at h
      · simp at h

theorem mem_writeRequests {fd off : Int} {data : Bytes} {fuel : Nat} {total : Int} {c : Client σ}
    {r : Nat × Bytes} (h : r ∈ writeRequests P fd off data fuel total c) :
    r.1 < data.length ∧ ∃ k, r.2 = writeCmd fd (wrap64 (off + r.1)) k := by
  induction fuel generalizing total c with
  | zero => simp [writeRequests] at h
  | succ fuel ih =>
      rw [writeRequests] at h
      split at h
      · split at h
        · simp at h
        · rename_i hlt hpos
          rcases List.mem_append.mp h with h | h
          · obtain ⟨l, hl, rfl⟩ := List.mem_map.mp h
            have hround := (writeRound_sends fd off data total).newLines c l hl
            rw [← Int.toNat_of_nonneg (Int.not_lt.mp hpos)] at hround
            exact ⟨by omega, hround⟩
          · split at h
            · split at h
              · simp at h
              · exact ih h
            · simp at h
      · simp at h

theorem rangeLoop_sends (fd off n : Int) (fuel : Nat) (out : Bytes) :
    Sends (fun _ => True) (rangeLoop P fd off n fuel out) := by
  induction fuel generalizing out with
  | zero => exact (SendsNoLine.pure _).sends
  | succ fuel ih =>
      rw [rangeLoop]
      split
      · refine (readAt_sends trivial).bind fun r => ?_
        rcases r with ⟨chunk, _ | e⟩
        · dsimp only
          split
          · exact (SendsNoLine.pure _).sends
          · exact ih _
        · exact (SendsNoLine.pure _).sends
      · exact (SendsNoLine.pure _).sends

theorem writeLoop_sends (fd off : Int) (data : Bytes) (fuel : Nat) (total : Int) :
    Sends (fun _ => True) (writeLoop P fd off data fuel total) := by
  induction fuel generalizing total with
  | zero => exact (SendsNoLine.pure _).sends
  | succ fuel ih =>
      rw [writeLoop]
      split
      · split
        · exact (SendsNoLine.pure _).sends
        · refine (writeAt_sends trivial).bind fun r => ?_
          rcases r with ⟨nw, _ | e⟩
          · dsimp only
            split
            · exact (SendsNoLine.pure _).sends
            · exact ih _
          · exact (SendsNoLine.pure _).sends
      · exact (SendsNoLine.pure _).sends

theorem newLines_pure {α : Type} (a : α) (c : Client σ) : newLines (pure a : Act σ α) c = [] :=
  @newLines_eq _ _ (pure a) c [] (List.append_nil c.sent).symm

/-- The lines of the loop are its requests. -/
theorem rangeLoop_lines (fd off n : Int) (fuel : Nat) (out : Bytes) (c : Client σ) :
    newLines (rangeLoop P fd off n fuel out) c = (readRequests P fd off n fuel out c).map Prod.snd := by
  induction fuel generalizing out c with
  | zero => exact newLines_pure _ c
  | succ fuel ih =>
      rw [rangeLoop, readRequests]
      by_cases hlt : (out.length : Int) < n
      · rw [if_pos hlt, if_pos hlt, List.map_append, List.map_map,
          show Prod.snd ∘ (out.length, ·) = (id : Bytes → Bytes) from rfl, List.map_id]
        refine (newLines_bind (T := fun _ => True) (readRound_sends fd off n out)
          (fun r => ?_) c).trans (congrArg _ ?_)
        · rcases r with ⟨chunk, _ | e⟩
          · dsimp only
            split
            · exact (SendsNoLine.pure _).sends
            · exact rangeLoop_sends fd off n fuel _
          · exact (SendsNoLine.pure _).sends
        · rcases (readRound P fd off n out).run c with ⟨⟨chunk, _ | e⟩, c'⟩
          · dsimp only
            by_cases hempty : chunk = []
            · rw [if_pos hempty, if_pos hempty]
              exact newLines_pure _ c'
            · rw [if_neg hempty, if_neg hempty]
              exact ih (out ++ chunk) c'
          · exact newLines_pure _ c'
      · rw [if_neg hlt, if_neg hlt]
        exact newLines_pure _ c

theorem writeLoop_lines (fd off : Int) (data : Bytes) (fuel : Nat) (total : Int) (c : Client σ) :
    newLines (writeLoop P fd off data fuel total) c =
      (writeRequests P fd off data fuel total c).map Prod.snd := by
  induction fuel generalizing total c with
  | zero => exact newLines_pure _ c
  | succ fuel ih =>
      rw [writeLoop, writeRequests]
      by_cases hlt : total < data.length
      · rw [if_pos hlt, if_pos hlt]
        by_cases hneg : total < 0
        · rw [if_pos hneg, if_pos hneg]
          exact newLines_pure _ c
        · rw [if_neg hneg, if_neg hneg, List.map_append, List.map_map,
            show Prod.snd ∘ (total.toNat, ·) = (id : Bytes → Bytes) from rfl, List.map_id]
          refine (newLines_bind (T := fun _ => True) (writeRound_sends fd off data total)
            (fun r => ?_) c).trans (congrArg _ ?_)
          · rcases r with ⟨nw, _ | e⟩
            · dsimp only
              split
              · exact (SendsNoLine.pure _).sends
              · exact writeLoop_sends fd off data fuel _
            · exact (SendsNoLine.pure _).sends
          · rcases (writeRound P fd off data total).run c with ⟨⟨nw, _ | e⟩, c'⟩
            · dsimp only
              by_cases hdone : nw ≤ 0
              · rw [if_pos hdone, if_pos hdone]
                exact newLines_pure _ c'
              · rw [if_neg hdone, if_neg hdone]
                exact ih (wrap64 (total + nw)) c'
            · exact newLines_pure _ c'
      · rw [if_neg hlt, if_neg hlt]
        exact newLines_pure _ c

/-- What holds of the lines of every round holds of every request. -/
theorem EachRead.requests {R : Nat → Bytes → Prop} {fd off n : Int} {fuel : Nat} {out : Bytes}
    {c : Client σ} :
    EachRead P fd off n (fun out c => ∀ l ∈ newLines (readRound P fd off n out) c, R out.length l)
        fuel out c ↔
      ∀ r ∈ readRequests P fd off n fuel out c, R r.1 r.2 := by
  induction fuel generalizing out c with
  | zero => simp [EachRead, readRequests]
  | succ fuel ih =>
      rw [EachRead, readRequests]
      by_cases hlt : (out.length : Int) < n
      · rw [if_pos hlt, forall_prop_of_true hlt]
        simp only [List.forall_mem_append, List.forall_mem_map]
        refine and_congr Iff.rfl ?_
        rcases hrun : (readRound P fd off n out).run c with ⟨⟨chunk, _ | e⟩, c'⟩
        · dsimp only
          by_cases hempty : chunk = []
          · rw [if_pos hempty]
            refine iff_of_true ?_ (by simp)
            intro chunk' c'' h hne
            obtain ⟨hchunk, -⟩ := Prod.mk.inj h
            exact absurd ((Prod.mk.inj hchunk).1.symm.trans hempty) hne
          · rw [if_neg hempty, ← ih]
            refine ⟨fun h => h chunk c' rfl hempty, ?_⟩
            intro h chunk' c'' hsame _
            obtain ⟨hchunk, rfl⟩ := Prod.mk.inj hsame
            obtain ⟨rfl, -⟩ := Prod.mk.inj hchunk
            exact h
        · refine iff_of_true ?_ (by simp)
          intro chunk' c'' h
          exact absurd (Prod.mk.inj (Prod.mk.inj h).1).2 (Option.some_ne_none e)
      · rw [if_neg hlt]
        exact iff_of_true (fun h => absurd h hlt) (by simp)

section Requests

variable {α : Type} {path : Bytes} {flags mode : Int} {failed : Err → α}
  {body : FileHandle → Act σ α} {c c' : Client σ} {p : Bytes → Bool}

theorem filter_textCmd (hp : ∀ l, TextCmd l → p l = false) {ls : List (Service × Bytes)}
    (hall : ∀ l ∈ ls, TextCmd l.2) : (ls.map Prod.snd).filter p = [] := by
  rw [List.filter_eq_nil_iff]
  intro l hl
  obtain ⟨x, hx, rfl⟩ := List.mem_map.mp hl
  simp [hp _ (hall x hx)]

/-- Of the lines of an operation on a file, those that are no text commands are its
loop's. -/
theorem withFile_lines_ok (hpath : (10 : UInt8) ∉ path) (hp : ∀ l, TextCmd l → p l = false)
    (hbody : ∀ h, Sends (fun _ => True) (body h)) {h : FileHandle}
    (hopen : (opened P path flags mode).run c = (.ok h, c')) :
    (newLines (withFile P path flags mode failed body) c).filter p =
      (newLines (body h) c').filter p := by
  obtain ⟨ls₁, h₁, hall₁⟩ := opened_sends (P := P) hpath flags mode c
  obtain ⟨ls₂, h₂, -⟩ := hbody h c'
  obtain ⟨ls₃, h₃, hall₃⟩ := closeFile_sends (P := P) h.fd ((body h).run c').2
  rw [hopen] at h₁
  have hsent : ((withFile P path flags mode failed body).run c).2.sent =
      c.sent ++ (ls₁ ++ ls₂ ++ ls₃) := by
    rw [withFile_ok hopen]
    dsimp only at h₁ ⊢
    rw [h₃, h₂, h₁]
    simp only [List.append_assoc]
  rw [newLines_eq hsent, newLines_eq h₂, List.map_append, List.map_append, List.filter_append,
    List.filter_append, filter_textCmd hp hall₁, filter_textCmd hp hall₃, List.nil_append,
    List.append_nil]

theorem withFile_lines_error (hpath : (10 : UInt8) ∉ path) (hp : ∀ l, TextCmd l → p l = false)
    {e : Err} (hopen : (opened P path flags mode).run c = (.error e, c')) :
    (newLines (withFile P path flags mode failed body) c).filter p = [] := by
  obtain ⟨ls, hls, hall⟩ := opened_sends (P := P) hpath flags mode c
  rw [hopen] at hls
  have hsent : ((withFile P path flags mode failed body).run c).2.sent = c.sent ++ ls := by
    rw [withFile_error hopen]
    exact hls
  rw [newLines_eq hsent, filter_textCmd hp hall]

end Requests

/-! ## What a status line makes the client read -/

variable (P)

/-- The first half of `readAt`: the request and the status line that answers it. -/
def askStatus (fd off n : Int) : Act σ (Except IoErr Bytes) := do
  match ← writeLine P (readCmd fd off (clipRead n)) with
  | some e => pure (.error e)
  | none =>
      match ← readResponseLine with
      | (_, some e) => pure (.error e)
      | (line, none) => pure (.ok line)

theorem readAt_eq (fd off n : Int) : readAt P fd off n = (do
    match ← askStatus P fd off n with
    | .error e => pure ([], some (.io e))
    | .ok line => readStatus line) := by
  funext c
  rw [readAt, askStatus, bind_assoc]
  show (writeLine P _ >>= _).run c = (writeLine P _ >>= _).run c
  rw [run_bind, run_bind]
  cases ((writeLine P (readCmd fd off (clipRead n))).run c).1 with
  | some e => rfl
  | none =>
      show (readResponseLine >>= _).run _ = ((readResponseLine >>= _) >>= _).run _
      rw [bind_assoc, run_bind, run_bind]
      rcases (readResponseLine.run ((writeLine P (readCmd fd off (clipRead n))).run c).2).1 with
        ⟨line, e⟩
      cases e <;> rfl

/-- The buffer that `readAt` allocates behind a status line and fills from the
connection, as `readN` leaves it. -/
def payloadBuffer (line : Bytes) : Act σ Bytes :=
  if (ascii "o:").isPrefixOf line then
    match statusCount line with
    | (_, some _) => pure []
    | (numread, none) =>
        if 0 < numread then do
          let r ← readN numread.toNat
          pure r.1
        else pure []
  else pure []

/-- The count that a status line announces. -/
def announced (line : Bytes) : Int :=
  if (ascii "o:").isPrefixOf line then
    match statusCount line with
    | (_, some _) => 0
    | (numread, none) => numread
  else 0

theorem readN_length (n : Nat) (f : FrameConn) : (f.readN n).1.1.length = n := by
  rw [FrameConn.readN]
  split
  · rename_i h
    exact List.length_take_of_le h
  · rw [List.length_append, List.length_replicate]
    omega

/-- Nothing bounds the buffer but the count on the wire. -/
theorem payloadBuffer_length (line : Bytes) (c : Client σ) :
    ((payloadBuffer line).run c).1.length = (announced line).toNat := by
  rw [payloadBuffer, announced]
  by_cases ho : (ascii "o:").isPrefixOf line = true
  · rw [if_pos ho, if_pos ho]
    rcases statusCount line with ⟨numread, e⟩
    cases e with
    | some e => rfl
    | none =>
        by_cases hpos : 0 < numread
        · simp only [if_pos hpos]
          exact readN_length numread.toNat c.fc
        · simp only [if_neg hpos]
          show 0 = _
          omega
  · rw [if_neg ho, if_neg ho]
    rfl

/-- What `readAt` returns without an error is that buffer. -/
theorem readStatus_returns {line : Bytes} {c : Client σ}
    (h : ((readStatus line).run c).1.2 = none) :
    ((readStatus line).run c).1.1 = ((payloadBuffer line).run c).1 := by
  by_cases ho : (ascii "o:").isPrefixOf line = true
  · revert h
    rw [readStatus, payloadBuffer, not_e_of_o ho]
    simp only [Bool.false_eq_true, if_false, if_pos ho]
    rcases statusCount line with ⟨numread, e⟩
    cases e with
    | some e => exact fun _ => rfl
    | none =>
        dsimp only
        rw [readPayload, run_bind]
        by_cases hpos : 0 < numread
        · rw [if_pos hpos, if_pos hpos, run_bind]
          rcases (readN numread.toNat).run c with ⟨⟨data, e⟩, c'⟩
          cases e with
          | some e => exact fun h => absurd h (by simp)
          | none => exact fun _ => rfl
        · rw [if_neg hpos, if_neg hpos]
          exact fun _ => rfl
  · -- every other status line is an error
    revert h
    rw [readStatus, if_neg ho]
    by_cases he : (ascii "e:").isPrefixOf line = true
    · rw [if_pos he, run_bind]
      exact fun h => absurd h (by simp)
    · rw [if_neg he, run_bind]
      exact fun h => absurd h (by simp)

/-! ## Bounded reads -/

/-- `readAt` allocates and reads no more payload than it asks for, and returns an
error or no more than that. -/
def BoundedRead (fd off n : Int) (c : Client σ) : Prop :=
  (∀ line c', (askStatus P fd off n).run c = (.ok line, c') →
      ((payloadBuffer line).run c').1.length ≤ (clipRead n).toNat) ∧
    (((readAt P fd off n).run c).1.2 ≠ none ∨
      ((readAt P fd off n).run c).1.1.length ≤ (clipRead n).toNat)

/-- The target announces no more bytes than it was asked for. -/
def CountFits (fd off n : Int) (c : Client σ) : Prop :=
  ∀ line c', (askStatus P fd off n).run c = (.ok line, c') → announced line ≤ max (clipRead n) 0

theorem boundedRead_iff (fd off n : Int) (c : Client σ) :
    BoundedRead P fd off n c ↔ CountFits P fd off n c := by
  rw [BoundedRead, CountFits]
  refine ⟨?_, ?_⟩
  · rintro ⟨hbuffer, -⟩ line c' hask
    have hle := hbuffer line c' hask
    rw [payloadBuffer_length] at hle
    omega
  · intro hfits
    have hbuffer : ∀ line c', (askStatus P fd off n).run c = (.ok line, c') →
        ((payloadBuffer line).run c').1.length ≤ (clipRead n).toNat := by
      intro line c' hask
      have hle := hfits line c' hask
      rw [payloadBuffer_length]
      omega
    refine ⟨hbuffer, ?_⟩
    rw [readAt_eq, run_bind]
    rcases hask : (askStatus P fd off n).run c with ⟨e | line, c'⟩
    · refine .inl ?_
      show some (Err.io e) ≠ none
      simp
    · by_cases hnone : ((readStatus line).run c').1.2 = none
      · refine .inr ?_
        show ((readStatus line).run c').1.1.length ≤ _
        rw [readStatus_returns hnone]
        exact hbuffer line c' hask
      · exact .inl hnone

variable {P}

theorem rangeLoop_bounded {fd off n : Int} {fuel : Nat} {out : Bytes} {c : Client σ}
    (hrounds : EachRead P fd off n
      (fun out => CountFits P fd (wrap64 (off + out.length)) (clipRead (n - out.length))) fuel out c)
    (hlen : (out.length : Int) ≤ max n 0) :
    (((rangeLoop P fd off n fuel out).run c).1.1.length : Int) ≤ max n 0 := by
  induction fuel generalizing out c with
  | zero => exact hlen
  | succ fuel ih =>
      by_cases hlt : (out.length : Int) < n
      · obtain ⟨hfits, hnext⟩ := hrounds hlt
        rcases rangeLoop_round hlt fuel with hdone | ⟨chunk, c', hround, hempty, hrun⟩
        · rw [hdone]
          exact hlen
        · rw [hrun]
          refine ih (hnext chunk c' hround hempty) ?_
          -- a round adds no more than is missing
          have hbound := ((boundedRead_iff P _ _ _ c).mpr hfits).2
          rw [show (readAt P fd (wrap64 (off + out.length)) (clipRead (n - out.length))).run c =
            ((chunk, none), c') from hround] at hbound
          have hchunk := hbound.resolve_left (by simp)
          rw [List.length_append]
          simp only [clipRead] at hchunk
          split_ifs at hchunk <;> omega
      · rw [rangeLoop, if_neg hlt]
        exact hlen

/-- The status lines in a run of `ReadFileRange` announce no more than was asked
for. -/
def CountsFit (P : Peer σ) (path : Bytes) (off n : Int) (c : Client σ) : Prop :=
  ∀ h c', (opened P path oRdonly 0).run c = (.ok h, c') →
    EachRead P h.fd off n
      (fun out => CountFits P h.fd (wrap64 (off + out.length)) (clipRead (n - out.length)))
      n.toNat [] c'

/-- **Reads are bounded by honest counts.** A read is bounded by what it asks for
exactly when the status line announces no more than that; and in every run of
`ReadFileRange` whose status lines do so, at most `max n 0` bytes are returned. -/
theorem reads_bounded (P : Peer σ) :
    (∀ fd off n c, BoundedRead P fd off n c ↔ CountFits P fd off n c) ∧
      ∀ path off n c, CountsFit P path off n c →
        (((readFileRange P path off n).run c).1.1.length : Int) ≤ max n 0 := by
  refine ⟨boundedRead_iff P, ?_⟩
  intro path off n c hfits
  rcases hopen : (opened P path oRdonly 0).run c with ⟨e | h, c'⟩
  · rw [readFileRange, withFile_error hopen]
    exact le_max_right n 0
  · rw [readFileRange, withFile_ok hopen]
    exact rangeLoop_bounded (hfits h c' hopen) (le_max_right n 0)

/-- A target that answers every read request with four bytes. -/
def eagerLine (cmd : Bytes) : Bytes :=
  if (ascii "r:").isPrefixOf cmd then ascii "o:4\nABCD" else stubLine cmd

/-- Asked for one byte, the client allocates and returns four. -/
theorem readFileRange_exceeds :
    let c : Client Bool := ⟨⟨[], .timeout, [], [], 1⟩, false, .file, none, []⟩
    ((readFileRange (scripted eagerLine []) (ascii "/tmp/x") 0 1).run c).1 =
        (ascii "ABCD", none) ∧
      ((readAt (scripted eagerLine []) 3 0 1).run c).1 = (ascii "ABCD", none) ∧
      ¬ BoundedRead (scripted eagerLine []) 3 0 1 c := by
  intro c
  have hrange : ((readFileRange (scripted eagerLine []) (ascii "/tmp/x") 0 1).run c).1 =
      (ascii "ABCD", none) := by
    decide +kernel
  have hread : ((readAt (scripted eagerLine []) 3 0 1).run c).1 = (ascii "ABCD", none) := by
    decide +kernel
  refine ⟨hrange, hread, ?_⟩
  rintro ⟨-, hresult⟩
  rw [hread] at hresult
  exact absurd hresult (by decide)

end Client

end QconnMcp.Qconn
