import QconnMcp.Qconn.Rounds

/-!
# Acknowledged writes

`WriteFile` and `WriteFileAt` add up the counts with which the target acknowledges
their chunks. A count of zero ends the loop without an error, and a count field that
is no number counts as zero. And when the prompt behind a status line does not come,
`writeAt` returns the count beside the error, which the loop drops. So an upload
reports what was acknowledged only if each status line acknowledges something, and
none does whose prompt is missing (`uploads_reported_iff`).
-/

namespace QconnMcp.Qconn

open Kit

/-! ## Status lines -/

/-- The bytes that a status line acknowledges, none if its count field is not a
number. -/
def acknowledged (l : Bytes) : Nat :=
  match Client.statusCount (statusLine l) with
  | (n, none) => n.toNat
  | (_, some _) => 0

/-- A count from 0 to the requested length, or a count field that is not a
hexadecimal number. -/
def CountOk (requested : Nat) (l : Bytes) : Prop :=
  match Client.statusCount (statusLine l) with
  | (n, none) => 0 ≤ n ∧ n ≤ requested
  | (_, some e) => e = .invalid

instance (requested : Nat) (l : Bytes) : Decidable (CountOk requested l) :=
  match h : Client.statusCount (statusLine l) with
  | (n, none) => decidable_of_iff (0 ≤ n ∧ n ≤ requested) (by simp [CountOk, h])
  | (_, some e) => decidable_of_iff (e = .invalid) (by simp [CountOk, h])

theorem clampInt_invalid {neg : Bool} {r : Nat × Option NumErr} {v : Int}
    (h : clampInt neg r = (v, some .invalid)) : v = 0 := by
  revert h
  unfold clampInt
  split
  · simp only [Prod.mk.injEq]
    exact fun h => h.1.symm
  · split_ifs <;> simp

theorem parseInt_invalid {base : Nat} {s : Bytes} {v : Int}
    (h : parseInt base s = (v, some .invalid)) : v = 0 := by
  unfold parseInt at h
  split at h <;> exact clampInt_invalid h

/-- What `writeAt` makes of such a line: the field that is no number is a zero. -/
theorem CountOk.count_eq {requested : Nat} {l : Bytes} (h : CountOk requested l) :
    (Client.statusCount (statusLine l)).1 = acknowledged l ∧ acknowledged l ≤ requested := by
  rw [CountOk] at h
  rw [acknowledged]
  rcases hcount : Client.statusCount (statusLine l) with ⟨n, e⟩
  rw [hcount] at h
  cases e with
  | none =>
      obtain ⟨hpos, hle⟩ := h
      dsimp only
      omega
  | some e =>
      dsimp only at h
      subst h
      exact ⟨parseInt_invalid hcount, Nat.zero_le _⟩

/-- What a target sends in answer to a write request: a status line with the rest of
a complete response, or a status line and a text without a prompt, behind which the
stream stops with `fin`. -/
inductive Ack where
  | whole (l : Bytes)
  | cut (l t : Bytes) (fin : IoErr)
  deriving DecidableEq, Repr

namespace Ack

def line : Ack → Bytes
  | .whole l => l
  | .cut l _ _ => l

/-- The bytes acknowledged. -/
def count (a : Ack) : Nat := acknowledged a.line

/-- The prompt cannot be read. At the end of the stream a text without a prompt is
taken for one with it. -/
def failed : Ack → Bool
  | .whole _ => false
  | .cut _ t fin => !(fin == .eof && decide (0 < t.length))

/-- The bytes `out` are this answer, of a target that is then in the state `s`. -/
def Sent {σ : Type} (P : Peer σ) (s : σ) (out : Bytes) : Ack → Prop
  | .whole l => StatusReply .blanks l [] out
  | .cut l t fin => P.fin s = fin ∧ NoPrompt t ∧ (10 : UInt8) ∉ l ∧
      ∃ a b v r r₁ r₂, out = a ++ b ∧ Pulls a (l ++ [10]) [] r ∧ Pulls b t v r₁ ∧
        pull v = (none, [], r₂)

end Ack

/-- The answers to the chunks of an upload of `len` bytes, with `total` bytes
acknowledged before them, are plausible. -/
def Plausible (len : Nat) : Nat → List Ack → Prop
  | _, [] => True
  | total, a :: as =>
      total < len →
        CountOk (min maxWriteChunk (len - total)) a.line ∧ Plausible len (total + a.count) as

/-- While bytes are missing, each status line acknowledges some, unless its prompt
cannot be read: then it acknowledges none. -/
def Settles (len : Nat) : Nat → List Ack → Prop
  | _, [] => True
  | total, a :: as =>
      total < len →
        if a.failed then a.count = 0 else 0 < a.count ∧ Settles len (total + a.count) as

theorem Settles.of_le {len total : Nat} (h : len ≤ total) (as : List Ack) :
    Settles len total as := by
  cases as with
  | nil => trivial
  | cons a as => exact fun hlt => absurd hlt (by omega)

/-- All bytes that the answers acknowledge. -/
def acknowledgedSum (as : List Ack) : Nat := (as.map Ack.count).sum

/-- A loop over `len` bytes that starts with `total` of them acknowledged, uses the
answers `used` and returns `n` and `err`, tells what was acknowledged. -/
def Tells (len total : Nat) (used : List Ack) (n : Nat) (err : Option Err) : Prop :=
  (err = none → total + acknowledgedSum used = len) ∧
    (err ≠ none → n = total + acknowledgedSum used)

section Tells

variable {len total : Nat} {a : Ack} {as : List Ack}

theorem acknowledgedSum_cons (a : Ack) (as : List Ack) :
    acknowledgedSum (a :: as) = a.count + acknowledgedSum as := List.sum_cons

theorem acknowledgedSum_singleton (a : Ack) : acknowledgedSum [a] = a.count := by
  simp [acknowledgedSum]

theorem tells_done (h : total = len) : Tells len total [] total none ↔ Settles len total as :=
  iff_of_true ⟨fun _ => h, fun hne => absurd rfl hne⟩ (.of_le h.ge as)

theorem tells_refused (e : Err) : Tells len total [] total (some e) ↔ Settles len total [] :=
  iff_of_true ⟨nofun, fun _ => rfl⟩ trivial

variable (h : total < len)

include h

/-- The count is dropped with the error. -/
theorem tells_failed (hfailed : a.failed = true) (e : Err) :
    Tells len total [a] total (some e) ↔ Settles len total (a :: as) := by
  rw [Tells, acknowledgedSum_singleton, Settles, hfailed, if_pos rfl]
  constructor
  · intro htells _
    have := htells.2 nofun
    omega
  · intro hsettles
    have := hsettles h
    exact ⟨nofun, fun _ => by omega⟩

/-- No error, and bytes are missing. -/
theorem tells_stalled (hfailed : a.failed = false) (hzero : a.count = 0) :
    Tells len total [a] total none ↔ Settles len total (a :: as) := by
  rw [Tells, acknowledgedSum_singleton, Settles, hfailed, if_neg (by decide)]
  refine iff_of_false (fun htells => ?_) (fun hsettles => ?_)
  · have := htells.1 rfl
    omega
  · have := (hsettles h).1
    omega

theorem tells_next (hfailed : a.failed = false) (hpos : 0 < a.count) {used : List Ack} {n : Nat}
    {err : Option Err} (hrest : Tells len (total + a.count) used n err ↔
      Settles len (total + a.count) as) :
    Tells len total (a :: used) n err ↔ Settles len total (a :: as) := by
  rw [Settles, hfailed, if_neg (by decide), ← hrest, Tells, Tells, acknowledgedSum_cons,
    ← Nat.add_assoc]
  exact ⟨fun htells _ => ⟨hpos, htells⟩, fun hsettles => (hsettles h).2⟩

end Tells

/-! ## Targets -/

/-- A target that answers write requests with `answers`, one after the other, and
closes the connection when they are used up. -/
structure Acknowledges {σ : Type} (P : Peer σ) (ready : σ → Prop) (answers : σ → List Ack) :
    Prop where
  answer : ∀ {s a as}, ready s → answers s = a :: as → ∀ fd off chunk, chunk ≠ [] →
    ∃ s₁ s₂ out, P.recv s (writeCmd fd off chunk.length ++ [10]) = some (s₁, []) ∧
      P.recv s₁ chunk = some (s₂, out) ∧ a.Sent P s₂ out ∧
      (ascii "o:").isPrefixOf (statusLine a.line) = true ∧ ready s₂ ∧ answers s₂ = as
  closed : ∀ {s}, ready s → answers s = [] → ∀ fd off n, P.recv s (writeCmd fd off n ++ [10]) = none
  close : ∀ {s}, ready s → ∀ fd s' out, P.recv s (closeCmd fd ++ [10]) = some (s', out) →
    answers s' = answers s

namespace Client

variable {σ : Type} {P : Peer σ} {ready : σ → Prop} {answers : σ → List Ack}

theorem raw_peer (cmd : Bytes) (c : Client σ) :
    ((raw P cmd).run c).2.peer = c.peer ∨
      ∃ s out, P.recv c.peer (cmd ++ [10]) = some (s, out) ∧ ((raw P cmd).run c).2.peer = s := by
  cases hrecv : P.recv c.peer (cmd ++ [10]) with
  | none =>
      rw [raw_refused hrecv]
      exact .inl rfl
  | some r =>
      exact .inr ⟨r.1, r.2, rfl, raw_peer_some hrecv⟩

theorem closeFile_answers (hP : Acknowledges P ready answers) (fd : Int) {c : Client σ}
    (hready : ready c.peer) :
    answers ((closeFile P fd).run c).2.peer = answers c.peer := by
  rw [closeFile_raw]
  rcases raw_peer (P := P) (closeCmd fd) c with hsame | ⟨s, out, hrecv, hpeer⟩
  · rw [hsame]
  · rw [hpeer]
    exact hP.close hready _ _ _ hrecv

/-! ## The loop -/

section Loop

variable {fd off : Int} {data : Bytes} {total : Nat} {c c' : Client σ}

theorem writeLoop_done (h : data.length ≤ total) (fuel : Nat) :
    (writeLoop P fd off data fuel total).run c = (((total : Int), none), c) := by
  cases fuel with
  | zero => rfl
  | succ fuel =>
      rw [writeLoop, if_neg (by omega)]
      rfl

variable (h : total < data.length)

include h

theorem writeLoop_round (fuel : Nat) : writeLoop P fd off data (fuel + 1) total = (do
    match ← writeRound P fd off data total with
    | (_, some e) => pure ((total : Int), some e)
    | (nw, none) =>
        if nw ≤ 0 then pure ((total : Int), none)
        else writeLoop P fd off data fuel (wrap64 (total + nw))) := by
  rw [writeLoop, if_pos (by omega), if_neg (by omega)]
  rfl

theorem writeLoop_failed {nw : Int} {e : Err}
    (hround : (writeRound P fd off data total).run c = ((nw, some e), c')) (fuel : Nat) :
    (writeLoop P fd off data (fuel + 1) total).run c = (((total : Int), some e), c') := by
  rw [writeLoop_round h, run_bind, hround]
  rfl

/-- A count of zero looks like the end of the upload. -/
theorem writeLoop_stalled (hround : (writeRound P fd off data total).run c = ((0, none), c'))
    (fuel : Nat) :
    (writeLoop P fd off data (fuel + 1) total).run c = (((total : Int), none), c') := by
  rw [writeLoop_round h, run_bind, hround]
  rfl

theorem writeLoop_next {k : Nat} (hpos : 0 < k) (hle : total + k < 2 ^ 63)
    (hround : (writeRound P fd off data total).run c = (((k : Int), none), c')) (fuel : Nat) :
    (writeLoop P fd off data (fuel + 1) total).run c =
      (writeLoop P fd off data fuel ((total + k : Nat) : Int)).run c' := by
  rw [writeLoop_round h, run_bind, hround]
  show (if (k : Int) ≤ 0 then _ else _ : Act σ _).run c' = _
  rw [if_neg (by omega), wrap64_of_bounds (by omega) (by omega), Nat.cast_add]

end Loop

/-- A write request answered in full, or by a status line without its prompt. -/
theorem writeAt_of_ack {c : Client σ} (hc : Quiet c.fc.inp) {fd off : Int} {data out : Bytes}
    {s₁ s : σ} {a : Ack} (hreq : P.recv c.peer (writeCmd fd off data.length ++ [10]) = some (s₁, []))
    (hpay : P.recv s₁ data = some (s, out)) (hout : a.Sent P s out)
    (hok : (ascii "o:").isPrefixOf (statusLine a.line) = true) :
    ∃ err c', (writeAt P fd off data).run c = (((statusCount (statusLine a.line)).1, err), c') ∧
      (err = none ↔ a.failed = false) ∧ c'.peer = s ∧ Quiet c'.fc.inp := by
  cases a with
  | whole l =>
      obtain ⟨c', hrun, hafter⟩ := writeAt_of_reply (T := .blanks) hc hreq hpay hout hok
      exact ⟨none, c', hrun, iff_of_true rfl rfl, hafter.peer, hafter.unread⟩
  | cut l t fin =>
      obtain ⟨hfin, ht, hl, x, y, v, r, r₁, r₂, rfl, hx, hy, hend⟩ := hout
      obtain ⟨fc, hinp, -, hfc, hrun⟩ := writeAt_status hc hreq hpay hl hx hok
      rw [FrameConn.readUntilPrompt_missing ht (hinp ▸ hy) hend, hfc, hfin] at hrun
      refine ⟨_, _, hrun, ?_, rfl, quiet_nil⟩
      simp only [Ack.failed]
      split <;> simp_all

/-- What the loop returns and which answers it has used. It tells what was acknowledged
exactly on a target whose answers settle the upload. -/
theorem writeLoop_acked (hP : Acknowledges P ready answers) (fd off : Int) {data : Bytes}
    (hlen : data.length < 2 ^ 63) {fuel total : Nat} {c : Client σ} (hunread : Quiet c.fc.inp)
    (hready : ready c.peer) (hfuel : data.length ≤ total + fuel) (htotal : total ≤ data.length)
    (hanswers : Plausible data.length total (answers c.peer)) :
    ∃ (used : List Ack) (n : Nat) (err : Option Err) (c' : Client σ),
      (writeLoop P fd off data (fuel + 1) total).run c = (((n : Int), err), c') ∧
      ready c'.peer ∧ answers c.peer = used ++ answers c'.peer ∧
      (Tells data.length total used n err ↔ Settles data.length total (answers c.peer)) := by
  induction fuel generalizing total c with
  | zero => exact ⟨[], total, none, c, writeLoop_done hfuel _, hready, rfl, tells_done (by omega)⟩
  | succ fuel ih =>
      rcases Nat.lt_or_ge total data.length with hlt | hge
      · have hchunk : (data.drop (total : Int).toNat).take maxWriteChunk ≠ [] :=
          chunk_ne_nil (by omega) (by omega)
        cases hscript : answers c.peer with
        | nil =>
            -- the connection is closed
            have hnone := hP.closed hready hscript fd (wrap64 (off + total))
              ((data.drop (total : Int).toNat).take maxWriteChunk).length
            have hround : (writeRound P fd off data total).run c = _ := writeAt_refused hnone
            exact ⟨[], total, _, c, writeLoop_failed hlt hround _, hready, hscript.symm,
              tells_refused _⟩
        | cons a as =>
            rw [hscript] at hanswers
            obtain ⟨hok, htail⟩ := hanswers hlt
            obtain ⟨s₁, s₂, out, hreq, hpay, hout, hprefix, hready', rfl⟩ :=
              hP.answer hready hscript fd (wrap64 (off + total)) _ hchunk
            obtain ⟨err, c', hround, herr, rfl, hunread'⟩ :=
              writeAt_of_ack hunread hreq hpay hout hprefix
            obtain ⟨hcount, hle⟩ : _ = ((a.count : Nat) : Int) ∧ a.count ≤ _ := hok.count_eq
            rw [hcount] at hround
            cases err with
            | some e =>
                have hfailed : a.failed = true := by simpa using herr
                exact ⟨[a], total, some e, c', writeLoop_failed hlt hround _, hready', rfl,
                  tells_failed hlt hfailed e⟩
            | none =>
                have hfailed : a.failed = false := herr.mp rfl
                rcases Nat.eq_zero_or_pos a.count with hzero | hpos
                · rw [hzero] at hround
                  exact ⟨[a], total, none, c', writeLoop_stalled hlt hround _, hready', rfl,
                    tells_stalled hlt hfailed hzero⟩
                · obtain ⟨used, n, err, c'', hrun, hready'', hused, hiff⟩ :=
                    @ih (total + a.count) c' hunread' hready' (by omega) (by omega) htail
                  refine ⟨a :: used, n, err, c'', ?_, hready'', by rw [hused]; rfl,
                    tells_next hlt hfailed hpos hiff⟩
                  rw [writeLoop_next hlt hpos (by omega) hround]
                  exact hrun
      · exact ⟨[], total, none, c, writeLoop_done hge _, hready, rfl, tells_done (by omega)⟩

end Client

/-! ## Uploads -/

/-- A call of `WriteFile` or `WriteFileAt`. -/
inductive Upload where
  | file (path data : Bytes) (mode : Int)
  | fileAt (path : Bytes) (off : Int) (data : Bytes)

namespace Upload

def data : Upload → Bytes
  | .file _ data _ => data
  | .fileAt _ _ data => data

def path : Upload → Bytes
  | .file path _ _ => path
  | .fileAt path _ _ => path

/-- The flags and the mode with which the path is opened. -/
def flags : Upload → Int × Int
  | .file _ _ mode => (orInt (orInt oCreat oTrunc) oWronly, if mode = 0 then modeRWAll else mode)
  | .fileAt _ _ _ => (oRdwr, 0)

/-- The offset of the first byte. -/
def off : Upload → Int
  | .file _ _ _ => 0
  | .fileAt _ off _ => off

variable {σ : Type} (P : Peer σ)

def exec : Upload → Act σ (Int × Option Err)
  | .file path data mode => Client.writeFile P path data mode
  | .fileAt path off data => Client.writeFileAt P path off data

/-- The part of the call before its loop. -/
def opening (u : Upload) : Act σ (Except Err FileHandle) :=
  Client.opened P u.path u.flags.1 u.flags.2

theorem exec_eq (u : Upload) : u.exec P =
    Client.withFile P u.path u.flags.1 u.flags.2 (fun e => (0, some e)) fun h =>
      Client.writeLoop P h.fd u.off u.data (u.data.length + 1) 0 := by
  cases u <;> rfl

/-- The call, which finds the answers `answers c₁.peer` once the file is open, returns
no error only if the answers it has used acknowledge all of the data, and any error
together with the number of bytes they acknowledge. -/
def Reported (answers : σ → List Ack) (u : Upload) (c c₁ : Client σ) : Prop :=
  ∃ used, answers c₁.peer = used ++ answers ((u.exec P).run c).2.peer ∧
    (((u.exec P).run c).1.2 = none → acknowledgedSum used = u.data.length) ∧
    (((u.exec P).run c).1.2 ≠ none → ((u.exec P).run c).1.1 = acknowledgedSum used)

variable {P} {ready : σ → Prop} {answers : σ → List Ack}

/-- **Incomplete writes, where they are reported.** On a target that answers the
write requests with any plausible status lines, each with its prompt or cut off
behind it, a call of `WriteFile` or `WriteFileAt` reports an incomplete write, with
the bytes acknowledged, exactly when, while bytes are missing, each status line
acknowledges some, and none does whose prompt cannot be read. -/
theorem uploads_reported_iff (hP : Acknowledges P ready answers) (u : Upload)
    (hlen : u.data.length < 2 ^ 63) {c c₁ : Client σ} {h : FileHandle}
    (hopen : (u.opening P).run c = (.ok h, c₁)) (hunread : Quiet c₁.fc.inp)
    (hready : ready c₁.peer) (hanswers : Plausible u.data.length 0 (answers c₁.peer)) :
    u.Reported P answers c c₁ ↔ Settles u.data.length 0 (answers c₁.peer) := by
  have hfuel : u.data.length ≤ 0 + u.data.length := by omega
  obtain ⟨used, n, err, c', hrun, hready', hused, hiff⟩ :=
    Client.writeLoop_acked hP h.fd u.off hlen hunread hready hfuel (Nat.zero_le _) hanswers
  have hexec : (u.exec P).run c = (((n : Int), err), ((Client.closeFile P h.fd).run c').2) := by
    rw [exec_eq, Client.withFile_ok hopen]
    rw [Nat.cast_zero] at hrun
    rw [hrun]
  rw [Reported, hexec, Client.closeFile_answers hP h.fd hready', ← hiff, Tells, Nat.zero_add]
  refine ⟨?_, ?_⟩
  · rintro ⟨used', hused', hnone, hsome⟩
    -- the answers used are determined by those that are left
    obtain rfl : used' = used := List.append_cancel_right (hused'.symm.trans hused)
    exact ⟨hnone, fun herr => Int.ofNat_inj.mp (hsome herr)⟩
  · rintro ⟨hnone, hsome⟩
    exact ⟨used, hused, hnone, fun herr => congrArg Nat.cast (hsome herr)⟩

end Upload

/-! ## Three uploads -/

/-- What the target below sends for an answer. -/
def Ack.bytes : Ack → Bytes
  | .whole l => l ++ [10] ++ ([] ++ (ascii "<qconn-file>" ++ [32]))
  | .cut l t _ => l ++ [10] ++ t

/-- How the stream ends behind an answer. -/
def Ack.stops : Ack → IoErr
  | .whole _ => .timeout
  | .cut _ _ fin => fin

/-- A target that answers uploads from a script. Its state says whether a payload is
due, what is left of the script, and how the stream ends. -/
def acking : Peer (Bool × List Ack × IoErr) where
  recv s b :=
    if s.1 then
      match s.2.1 with
      | [] => none
      | a :: as => some ((false, as, a.stops), a.bytes)
    else if (ascii "w:").isPrefixOf b then
      if s.2.1.isEmpty then none else some ((true, s.2.1, s.2.2), [])
    else some ((false, s.2.1, s.2.2), stubReply (stubLine b))
  fin s := s.2.2

/-- An answer that the client can read. -/
structure Ack.Plain (a : Ack) : Prop where
  lf : (10 : UInt8) ∉ a.line
  clean : iac ∉ a.line
  prefixed : (ascii "o:").isPrefixOf (statusLine a.line) = true
  text : ∀ l t fin, a = .cut l t fin → NoPrompt t ∧ iac ∉ t

theorem Ack.Plain.sent {a : Ack} (h : a.Plain) {s : Bool × List Ack × IoErr} (hs : s.2.2 = a.stops) :
    a.Sent acking s a.bytes := by
  cases a with
  | whole l => exact statusReply_of_clean (by decide) h.lf h.clean quiet_blank
  | cut l t fin =>
      obtain ⟨ht, hiac⟩ := h.text l t fin rfl
      have hl : iac ∉ l ++ [10] := by
        simp only [List.mem_append, List.mem_singleton, not_or]
        exact ⟨h.clean, by decide⟩
      refine ⟨hs, ht, h.lf, l ++ [10], t, [], [], [], [], rfl, ?_, ?_, pull_nil⟩
      · simpa using Pulls.of_clean hl []
      · simpa using Pulls.of_clean hiac []

theorem acking_acknowledges :
    Acknowledges acking (fun s => s.1 = false ∧ ∀ a ∈ s.2.1, a.Plain) fun s => s.2.1 where
  answer := by
    rintro ⟨due, script, fin⟩ a as ⟨hdue, hplain⟩ hscript fd off chunk -
    dsimp only at hdue hscript
    subst hdue hscript
    have ha := hplain a List.mem_cons_self
    refine ⟨(true, a :: as, fin), (false, as, a.stops), a.bytes, ?_, rfl, ha.sent rfl, ha.prefixed,
      ⟨rfl, fun x hx => hplain x (List.mem_cons_of_mem _ hx)⟩, rfl⟩
    simp only [writeCmd, List.append_assoc]
    rfl
  closed := by
    rintro ⟨due, script, fin⟩ ⟨hdue, -⟩ hscript fd off n
    dsimp only at hdue hscript
    subst hdue hscript
    simp only [writeCmd, List.append_assoc]
    rfl
  close := by
    rintro ⟨due, script, fin⟩ ⟨hdue, -⟩ fd s' out hrecv
    dsimp only at hdue
    subst hdue
    simp only [closeCmd, List.append_assoc] at hrecv
    obtain ⟨rfl, -⟩ := Prod.mk.inj (Option.some.inj hrecv)
    rfl

/-- A client in the file service of that target. -/
def ackingClient (script : List Ack) : Client (Bool × List Ack × IoErr) :=
  ⟨⟨[], .timeout, [], [], 1⟩, (false, script, .timeout), .file, none, []⟩

/-- An upload of three bytes that the target takes in two parts. -/
theorem uploads_reported_parts :
    let u : Upload := .file (ascii "/tmp/x") [1, 2, 3] 0
    let script := [Ack.whole (ascii "o:2:0\r"), .whole (ascii "o:1:0\r")]
    ∃ h c₁, (u.opening acking).run (ackingClient script) = (.ok h, c₁) ∧
      (u.Reported acking (fun s => s.2.1) (ackingClient script) c₁ ↔ Settles 3 0 script) := by
  intro u script
  obtain ⟨hhandle, hpeer, hunread⟩ :
      ((u.opening acking).run (ackingClient script)).1 = .ok ⟨3, 0x81a4, 0, ascii "/tmp/x"⟩ ∧
        ((u.opening acking).run (ackingClient script)).2.peer = (false, script, .timeout) ∧
        ((u.opening acking).run (ackingClient script)).2.fc.inp = [32] := by
    decide +kernel
  obtain ⟨c₁, hc₁⟩ : ∃ c₁, ((u.opening acking).run (ackingClient script)).2 = c₁ := ⟨_, rfl⟩
  have hopen : (u.opening acking).run (ackingClient script) =
      (.ok ⟨3, 0x81a4, 0, ascii "/tmp/x"⟩, c₁) := Prod.ext hhandle hc₁
  rw [hc₁] at hpeer hunread
  have hready : c₁.peer.1 = false ∧ ∀ a ∈ c₁.peer.2.1, a.Plain := by
    rw [hpeer]
    refine ⟨rfl, ?_⟩
    intro a ha
    rcases List.mem_pair.mp ha with rfl | rfl <;>
      exact ⟨by decide, by decide, by decide, fun l t fin h => by cases h⟩
  have hcounts : Plausible 3 0 c₁.peer.2.1 := by
    rw [hpeer]
    exact fun _ => ⟨by decide, fun _ => ⟨by decide, trivial⟩⟩
  have hiff := Upload.uploads_reported_iff acking_acknowledges u (by decide) hopen
    (by rw [hunread]; exact quiet_blank) hready hcounts
  rw [hpeer] at hiff
  exact ⟨_, c₁, hopen, hiff⟩

/-- What refutes a report on a script of one answer: no error, although it acknowledges
less than the data, or an error with another count. -/
theorem not_reported {u : Upload} {a : Ack} {c c₁ : Client (Bool × List Ack × IoErr)}
    (hc₁ : c₁.peer.2.1 = [a]) (hend : ((u.exec acking).run c).2.peer.2.1 = [])
    (hwrong : (((u.exec acking).run c).1.2 = none ∧ a.count < u.data.length) ∨
      (((u.exec acking).run c).1.2 ≠ none ∧ ((u.exec acking).run c).1.1 ≠ a.count)) :
    ¬ u.Reported acking (fun s => s.2.1) c c₁ := by
  rintro ⟨used, hused, hnone, hsome⟩
  dsimp only at hused
  rw [hc₁, hend, List.append_nil] at hused
  have hsum : acknowledgedSum used = a.count := by
    rw [← hused]
    simp [acknowledgedSum]
  rcases hwrong with ⟨herr, hshort⟩ | ⟨herr, hcount⟩
  · have := hnone herr
    omega
  · exact hcount ((hsome herr).trans (by rw [hsum]))

/-- The target acknowledges none of one byte, or answers with a count that is no
number, and both functions return no error. It acknowledges one of two bytes and
closes the stream before the prompt, and the error comes with a count of zero. -/
theorem uploads_incomplete :
    let u : Upload := .file (ascii "/tmp/x") [1] 0
    let u' : Upload := .fileAt (ascii "/tmp/x") 0 [1]
    let w : Upload := .file (ascii "/tmp/x") [1, 2] 0
    let c := ackingClient [.whole (ascii "o:0:0\r")]
    let c' := ackingClient [.whole (ascii "o:zz:0\r")]
    let d := ackingClient [.cut (ascii "o:1:0\r") [] .eof]
    ((u.exec acking).run c).1 = (0, none) ∧ ((u'.exec acking).run c').1 = (0, none) ∧
      ((w.exec acking).run d).1 = (0, some (.io .eof)) ∧
      ¬ u.Reported acking (fun s => s.2.1) c ((u.opening acking).run c).2 ∧
      ¬ u'.Reported acking (fun s => s.2.1) c' ((u'.opening acking).run c').2 ∧
      ¬ w.Reported acking (fun s => s.2.1) d ((w.opening acking).run d).2 := by
  intro u u' w c c' d
  obtain ⟨hopen, hrun, hend⟩ :
      ((u.opening acking).run c).2.peer.2.1 = [.whole (ascii "o:0:0\r")] ∧
        ((u.exec acking).run c).1 = (0, none) ∧ ((u.exec acking).run c).2.peer.2.1 = [] := by
    decide +kernel
  obtain ⟨hopen', hrun', hend'⟩ :
      ((u'.opening acking).run c').2.peer.2.1 = [.whole (ascii "o:zz:0\r")] ∧
        ((u'.exec acking).run c').1 = (0, none) ∧ ((u'.exec acking).run c').2.peer.2.1 = [] := by
    decide +kernel
  obtain ⟨hopened, hcut, hdone⟩ :
      ((w.opening acking).run d).2.peer.2.1 = [.cut (ascii "o:1:0\r") [] .eof] ∧
        ((w.exec acking).run d).1 = (0, some (.io .eof)) ∧
        ((w.exec acking).run d).2.peer.2.1 = [] := by
    decide +kernel
  refine ⟨hrun, hrun', hcut, ?_, ?_, ?_⟩
  · exact not_reported hopen hend (.inl ⟨by rw [hrun], by decide⟩)
  · exact not_reported hopen' hend' (.inl ⟨by rw [hrun'], by decide⟩)
  · exact not_reported hopened hdone (.inr ⟨by rw [hcut]; exact Option.some_ne_none _, by rw [hcut]; decide⟩)

end QconnMcp.Qconn
