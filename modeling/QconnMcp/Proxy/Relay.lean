import QconnMcp.Kit.Peer
import QconnMcp.Kit.Run

/-!
# The relay of the two proxies

`handle` and `pump` of `internal/proxy/proxy.go` and of `cmd/dsmsg-proxy/main.go`
join two connections with one goroutine for each direction. They differ in the size
of the buffer and in what they log, which is the `Tracer` here.

A session is a system of four parties: the two far ends, which send when they like
and stop when they like, and the two pumps, whose calls on the connections interleave
freely. A `Read` returns any part of what is there; a `Write` may fail half way, and
the pump does not look. Nothing limits how long a `Write` takes: while the far end does
not take any bytes it does not return. A pump that ends closes the connection it writes
to, which is the one the other pump reads from.

* `Flow` is the invariant of one direction, `Relayed` that of the session.
* `relay_transparent` says what was passed on and logged, at any point of any run.
* `relay_ends` says that once one side has ended a pump can be left behind in a write
  only, and that it stays there until the far end takes bytes again.
-/

namespace QconnMcp.Proxy

open Kit

variable {τ ε : Type}

/-! ## Connections -/

/-- The connections that `handle` joins. A direction goes by the side it reads from. -/
inductive Side where
  | client
  | upstream
  deriving DecidableEq, Repr

namespace Side

def other : Side → Side
  | .client => .upstream
  | .upstream => .client

@[simp]
theorem other_other (d : Side) : d.other.other = d := by cases d <;> rfl

theorem other_ne (d : Side) : d.other ≠ d := by cases d <;> decide

theorem eq_or_eq_other (u d : Side) : u = d ∨ u = d.other := by
  cases u <;> cases d <;> decide

end Side

/-- The half of a connection that is read from. -/
structure Inbound where
  /-- Everything the far end has sent, -/
  arrived : Bytes
  /-- of which this part is still to be read. -/
  unread : Bytes
  /-- How reads end, once the far end has stopped sending. -/
  fin : Option IoErr
  deriving DecidableEq, Repr

/-- The half that is written to. -/
structure Outbound where
  /-- What writes have passed on to the far end. -/
  delivered : Bytes
  /-- A write has failed, and so will the next ones. -/
  broken : Bool
  deriving DecidableEq, Repr

/-- `Read(buf)` when it returns `n` bytes; `none` if it cannot return that. An error
other than the end of the stream may overtake bytes that have arrived, and a reader
may hand over the last bytes and the error at once. -/
def Inbound.read (c : Inbound) (closed : Bool) (bufSize n : Nat) (joined : Bool) :
    Option (Bytes × Option IoErr) :=
  if closed then if n = 0 then some ([], some .closed) else none
  else if n = 0 then
    c.fin.bind fun e => if c.unread = [] ∨ e ≠ .eof then some ([], some e) else none
  else if n ≤ bufSize ∧ n ≤ c.unread.length then
    if joined then
      c.fin.bind fun e => if n = c.unread.length then some (c.unread, some e) else none
    else some (c.unread.take n, none)
  else none

/-- `Write(chunk)`, of which the far end gets `n` bytes if it still gets any. -/
def Outbound.write (c : Outbound) (closed : Bool) (chunk : Bytes) (n : Nat) : Outbound :=
  if closed ∨ c.broken then c
  else ⟨c.delivered ++ chunk.take n, decide (n < chunk.length)⟩

/-- A read ends the stream with the connection closed under it, or as the far end
did; otherwise it returns some bytes. -/
theorem Inbound.read_cases {c : Inbound} {closed joined : Bool} {bufSize n : Nat} {b : Bytes}
    {err : Option IoErr} (h : c.read closed bufSize n joined = some (b, err)) :
    (closed = true ∧ b = [] ∧ err = some .closed) ∨
      (b = [] ∧ ∃ e, err = some e ∧ c.fin = some e ∧ (e = .eof → c.unread = [])) ∨
      (b ≠ [] ∧ c.unread = b ++ c.unread.drop b.length ∧ closed = false ∧
        ∀ e, err = some e → c.fin = some e ∧ c.unread.drop b.length = []) := by
  rw [read] at h
  split at h
  case isTrue hclosed =>
    split at h
    case isTrue =>
      obtain ⟨rfl, rfl⟩ := Prod.mk.inj (Option.some.inj h)
      exact .inl ⟨hclosed, rfl, rfl⟩
    case isFalse => cases h
  case isFalse hopen =>
    split at h
    case isTrue =>
      obtain ⟨e, hfin, h⟩ := Option.bind_eq_some_iff.mp h
      split at h
      case isTrue hend =>
        obtain ⟨rfl, rfl⟩ := Prod.mk.inj (Option.some.inj h)
        exact .inr (.inl ⟨rfl, e, rfl, hfin, fun heof => hend.resolve_right (not_not_intro heof)⟩)
      case isFalse => cases h
    case isFalse hn =>
      split at h
      case isFalse => cases h
      case isTrue hle =>
        refine .inr (.inr ?_)
        have hne : c.unread ≠ [] := by
          intro hnil
          rw [hnil] at hle
          exact hn (Nat.le_zero.mp hle.2)
        have hopen : closed = false := Bool.eq_false_iff.mpr hopen
        split at h
        case isTrue =>
          obtain ⟨e, hfin, h⟩ := Option.bind_eq_some_iff.mp h
          split at h
          case isFalse => cases h
          case isTrue =>
            obtain ⟨rfl, rfl⟩ := Prod.mk.inj (Option.some.inj h)
            refine ⟨hne, by simp, hopen, ?_⟩
            rintro e' ⟨⟩
            exact ⟨hfin, by simp⟩
        case isFalse =>
          obtain ⟨rfl, rfl⟩ := Prod.mk.inj (Option.some.inj h)
          refine ⟨?_, ?_, hopen, ?_⟩
          · intro hnil
            rw [List.take_eq_nil_iff] at hnil
            exact hnil.elim hn hne
          · rw [List.length_take, Nat.min_eq_left hle.2, List.take_append_drop]
          · rintro e' ⟨⟩

/-! ## Pumps -/

/-- What a pump logs about the chunks it has written. -/
structure Tracer (τ ε : Type) where
  bufSize : Nat
  bufSize_pos : 0 < bufSize
  start : τ
  feed : τ → Bytes → List ε × τ
  lines_le : ∀ t chunk, chunk ≠ [] → (feed t chunk).1.length ≤ chunk.length

/-- The lines of all chunks, and the state behind them. -/
def Tracer.traced (T : Tracer τ ε) (chunks : List Bytes) : List ε × τ :=
  chunks.foldl (fun r chunk => (r.1 ++ (T.feed r.2 chunk).1, (T.feed r.2 chunk).2)) ([], T.start)

theorem Tracer.traced_concat (T : Tracer τ ε) (chunks : List Bytes) (chunk : Bytes) :
    T.traced (chunks ++ [chunk]) =
      ((T.traced chunks).1 ++ (T.feed (T.traced chunks).2 chunk).1,
        (T.feed (T.traced chunks).2 chunk).2) := by
  rw [Tracer.traced, List.foldl_append]
  rfl

/-- Where a pump is: before which call. The error is the one its last `Read` came
with. -/
inductive At (ε : Type) where
  | reading
  | writing (chunk : Bytes) (err : Option IoErr)
  | logging (line : ε) (rest : List ε) (err : Option IoErr)
  | closing
  | done

namespace At

/-- After the lines that are still to be logged. -/
def next : List ε → Option IoErr → At ε
  | line :: rest, err => .logging line rest err
  | [], some _ => .closing
  | [], none => .reading

/-- Bytes that were read and not yet written. -/
def inFlight : At ε → Bytes
  | .writing chunk _ => chunk
  | _ => []

/-- Lines that are still to be logged. -/
def inHand : At ε → List ε
  | .logging line rest _ => line :: rest
  | _ => []

/-- The pump has left its loop. -/
def ended : At ε → Bool
  | .closing | .done => true
  | _ => false

/-- The error that waits for the chunk to be dealt with. -/
def err : At ε → Option IoErr
  | .writing _ err | .logging _ _ err => err
  | _ => none

@[simp]
theorem inFlight_next (lines : List ε) (err : Option IoErr) : (next lines err).inFlight = [] := by
  cases lines <;> cases err <;> rfl

@[simp]
theorem inHand_next (lines : List ε) (err : Option IoErr) : (next lines err).inHand = lines := by
  cases lines <;> cases err <;> rfl

theorem next_ne_done (lines : List ε) (err : Option IoErr) : next lines err ≠ .done := by
  cases lines <;> cases err <;> simp [next]

theorem err_of_next {lines : List ε} {err : Option IoErr} {e : IoErr}
    (h : (next lines err).err = some e) : err = some e := by
  cases lines <;> cases err <;> simp_all [next, At.err]

/-- The loop is only left for an error. -/
theorem err_of_ended_next {lines : List ε} {err : Option IoErr}
    (h : (next lines err).ended = true) : ∃ e, err = some e := by
  cases lines <;> cases err <;> simp_all [next, ended]

end At

structure Pump (τ ε : Type) where
  pc : At ε
  /-- The chunks it has written, -/
  chunks : List Bytes
  /-- and the tracer behind them. -/
  trace : τ

/-! ## Sessions -/

/-- Where `handle` is. -/
inductive Phase where
  | dialling
  | refused
  | pumping
  | returned
  deriving DecidableEq, Repr

/-- One call of `handle`. A connection is the two halves of its side, and whether
`Close` was called on it. -/
structure Session (τ ε : Type) where
  phase : Phase
  inb : Side → Inbound
  out : Side → Outbound
  closed : Side → Bool
  /-- The far end takes nothing for now, so a write to it does not return. -/
  stalled : Side → Bool
  pump : Side → Pump τ ε
  log : List (Side × ε)

inductive Event where
  /-- The far end sends. -/
  | arrive (d : Side) (data : Bytes)
  /-- The far end stops sending, or the connection fails. -/
  | finish (d : Side) (e : IoErr)
  /-- The far end stops taking what is written to it, or takes it again. -/
  | stall (d : Side) (on : Bool)
  | dial (ok : Bool)
  | read (d : Side) (n : Nat) (joined : Bool)
  | write (d : Side) (n : Nat)
  | log (d : Side)
  | close (d : Side)
  /-- `wg.Wait` returns, and `handle` closes both connections. -/
  | leave
  deriving DecidableEq, Repr

namespace Session

def init (T : Tracer τ ε) : Session τ ε where
  phase := .dialling
  inb := fun _ => ⟨[], [], none⟩
  out := fun _ => ⟨[], false⟩
  closed := fun _ => false
  stalled := fun _ => false
  pump := fun _ => ⟨.reading, [], T.start⟩
  log := []

/-- There is no connection to the target before it is dialled. -/
def present (s : Session τ ε) (d : Side) : Prop :=
  d = .client ∨ s.phase = .pumping ∨ s.phase = .returned

instance (s : Session τ ε) (d : Side) : Decidable (s.present d) :=
  inferInstanceAs (Decidable (_ ∨ _))

@[simp]
def setInb (s : Session τ ε) (d : Side) (c : Inbound) : Session τ ε :=
  { s with inb := Function.update s.inb d c }

@[simp]
def setOut (s : Session τ ε) (d : Side) (c : Outbound) : Session τ ε :=
  { s with out := Function.update s.out d c }

@[simp]
def setPump (s : Session τ ε) (d : Side) (p : Pump τ ε) : Session τ ε :=
  { s with pump := Function.update s.pump d p }

@[simp]
def close (s : Session τ ε) (d : Side) : Session τ ε :=
  { s with closed := Function.update s.closed d true }

/-- A write to this side does not return. -/
def blocked (s : Session τ ε) (d : Side) : Prop :=
  s.stalled d = true ∧ s.closed d = false ∧ (s.out d).broken = false

instance (s : Session τ ε) (d : Side) : Decidable (s.blocked d) :=
  inferInstanceAs (Decidable (_ ∧ _))

def step (T : Tracer τ ε) (s : Session τ ε) : Event → Option (Session τ ε)
  | .arrive d data =>
      if s.present d ∧ (s.inb d).fin = none then
        some (s.setInb d ⟨(s.inb d).arrived ++ data, (s.inb d).unread ++ data, none⟩)
      else none
  | .finish d e =>
      if s.present d ∧ (s.inb d).fin = none then
        some (s.setInb d { s.inb d with fin := some e })
      else none
  | .stall d on => some { s with stalled := Function.update s.stalled d on }
  | .dial ok =>
      if s.phase = .dialling then
        if ok then some { s with phase := .pumping }
        else some { s.close .client with phase := .refused }
      else none
  | .read d n joined =>
      match s.phase, (s.pump d).pc with
      | .pumping, .reading =>
          ((s.inb d).read (s.closed d) T.bufSize n joined).map fun r =>
            (s.setInb d { s.inb d with unread := (s.inb d).unread.drop r.1.length }).setPump d
              { s.pump d with pc := if r.1 = [] then At.next [] r.2 else .writing r.1 r.2 }
      | _, _ => none
  | .write d n =>
      match (s.pump d).pc with
      | .writing chunk err =>
          if s.blocked d.other then none
          else
            -- whether the write went through makes no difference to the pump
            let r := T.feed (s.pump d).trace chunk
            some ((s.setOut d.other ((s.out d.other).write (s.closed d.other) chunk n)).setPump d
              ⟨At.next r.1 err, (s.pump d).chunks ++ [chunk], r.2⟩)
      | _ => none
  | .log d =>
      match (s.pump d).pc with
      | .logging line rest err =>
          some { s.setPump d { s.pump d with pc := At.next rest err } with log := s.log ++ [(d, line)] }
      | _ => none
  | .close d =>
      match (s.pump d).pc with
      | .closing => some ((s.close d.other).setPump d { s.pump d with pc := .done })
      | _ => none
  | .leave =>
      match s.phase, (s.pump .client).pc, (s.pump .upstream).pc with
      | .pumping, .done, .done => some { (s.close .client).close .upstream with phase := .returned }
      | _, _, _ => none

end Session

/-- What was logged about a direction. -/
def linesOf (log : List (Side × ε)) (d : Side) : List ε :=
  (log.filter fun l => decide (l.1 = d)).map Prod.snd

theorem linesOf_concat (log : List (Side × ε)) (d u : Side) (line : ε) :
    linesOf (log ++ [(d, line)]) u = linesOf log u ++ if d = u then [line] else [] := by
  rw [linesOf, List.filter_append, List.map_append]
  by_cases h : d = u <;> simp [linesOf, h]

/-! ## One direction -/

/-- What holds of a direction: where the bytes are that arrived, and what the log
says of those that were written. -/
structure Flow (T : Tracer τ ε) (src : Inbound) (dst : Outbound) (p : Pump τ ε) (lines : List ε) :
    Prop where
  arrived : src.arrived = p.chunks.flatten ++ (p.pc.inFlight ++ src.unread)
  passed : dst.delivered <+: p.chunks.flatten
  whole : dst.broken = false → dst.delivered = p.chunks.flatten
  logged : lines ++ p.pc.inHand = (T.traced p.chunks).1
  trace : p.trace = (T.traced p.chunks).2
  pending : ∀ e, p.pc.err = some e → src.fin = some e ∧ src.unread = []
  filled : ∀ chunk err, p.pc = .writing chunk err → chunk ≠ []

namespace Flow

variable {T : Tracer τ ε} {src : Inbound} {dst : Outbound} {p : Pump τ ε} {lines : List ε}

/-- Nothing can arrive behind an error that a read has returned. -/
theorem arrive (h : Flow T src dst p lines) (hfin : src.fin = none) (data : Bytes) :
    Flow T ⟨src.arrived ++ data, src.unread ++ data, none⟩ dst p lines where
  arrived := by
    show src.arrived ++ data = _
    rw [h.arrived, List.append_assoc, List.append_assoc]
  passed := h.passed
  whole := h.whole
  logged := h.logged
  trace := h.trace
  pending e he := absurd (hfin.symm.trans (h.pending e he).1) (by simp)
  filled := h.filled

theorem finish (h : Flow T src dst p lines) (hfin : src.fin = none) (e : IoErr) :
    Flow T { src with fin := some e } dst p lines where
  arrived := h.arrived
  passed := h.passed
  whole := h.whole
  logged := h.logged
  trace := h.trace
  pending e he := absurd (hfin.symm.trans (h.pending e he).1) (by simp)
  filled := h.filled

/-- A read moves bytes from the connection into the hands of the pump. -/
theorem read (h : Flow T src dst p lines) (hpc : p.pc = .reading) {closed joined : Bool} {n : Nat}
    {r : Bytes × Option IoErr} (hread : src.read closed T.bufSize n joined = some r) :
    Flow T { src with unread := src.unread.drop r.1.length } dst
      { p with pc := if r.1 = [] then At.next [] r.2 else .writing r.1 r.2 } lines := by
  obtain ⟨b, err⟩ := r
  have hlogged := h.logged
  have harrived := h.arrived
  rw [hpc] at hlogged harrived
  rcases Inbound.read_cases hread with ⟨-, rfl, rfl⟩ | ⟨rfl, e, rfl, -⟩ | ⟨hne, hb, -, herr⟩
  · exact ⟨harrived, h.passed, h.whole, hlogged, h.trace, fun e he => absurd he (by simp [At.next, At.err]),
      fun _ _ hw => absurd hw (by simp [At.next])⟩
  · exact ⟨harrived, h.passed, h.whole, hlogged, h.trace, fun e he => absurd he (by simp [At.next, At.err]),
      fun _ _ hw => absurd hw (by simp [At.next])⟩
  · simp only [if_neg hne]
    refine ⟨?_, h.passed, h.whole, hlogged, h.trace, herr, ?_⟩
    · show src.arrived = p.chunks.flatten ++ (b ++ src.unread.drop b.length)
      rw [← hb, harrived]
      rfl
    · rintro chunk err' ⟨⟩
      exact hne

/-- A write brings the bytes over, as far as the other side still takes them. -/
theorem write (h : Flow T src dst p lines) {chunk : Bytes} {err : Option IoErr}
    (hpc : p.pc = .writing chunk err) {closed : Bool} (hopen : closed = false) (n : Nat) :
    Flow T src (dst.write closed chunk n)
      ⟨At.next (T.feed p.trace chunk).1 err, p.chunks ++ [chunk], (T.feed p.trace chunk).2⟩ lines := by
  have hlogged := h.logged
  have harrived := h.arrived
  rw [hpc] at hlogged harrived
  have hflat : (p.chunks ++ [chunk]).flatten = p.chunks.flatten ++ chunk := by simp
  refine ⟨?_, ?_, ?_, ?_, ?_, ?_, ?_⟩
  · rw [At.inFlight_next, hflat, harrived, List.append_assoc]
    rfl
  · rw [hflat, Outbound.write]
    split
    · exact h.passed.trans (List.prefix_append _ _)
    · rename_i hok
      rw [hopen] at hok
      have hall := h.whole (by simpa using hok)
      rw [hall]
      exact (List.prefix_append_right_inj _).mpr (List.take_prefix _ _)
  · rw [hflat, Outbound.write]
    split
    · rename_i hno
      rw [hopen] at hno
      intro hbroken
      exact absurd (hno.resolve_left Bool.false_ne_true) (by simp [hbroken])
    · rename_i hok
      rw [hopen] at hok
      have hall := h.whole (by simpa using hok)
      intro hn
      rw [hall, List.take_of_length_le (Nat.not_lt.mp (of_decide_eq_false hn))]
  · rw [At.inHand_next, T.traced_concat, ← h.trace, ← hlogged]
    simp [At.inHand]
  · rw [T.traced_concat, ← h.trace]
  · intro e he
    exact h.pending e (by rw [hpc]; exact At.err_of_next he)
  · intro c e hw
    cases hl : (T.feed p.trace chunk).1 <;> cases err <;> simp [hl, At.next] at hw

/-- A line goes from the pump's hands into the log. -/
theorem log (h : Flow T src dst p lines) {line : ε} {rest : List ε} {err : Option IoErr}
    (hpc : p.pc = .logging line rest err) :
    Flow T src dst { p with pc := At.next rest err } (lines ++ [line]) := by
  have hlogged := h.logged
  have harrived := h.arrived
  rw [hpc] at hlogged harrived
  refine ⟨?_, h.passed, h.whole, ?_, h.trace, ?_, ?_⟩
  · rw [At.inFlight_next]
    exact harrived
  · rw [At.inHand_next, List.append_assoc]
    exact hlogged
  · intro e he
    exact h.pending e (by rw [hpc]; exact At.err_of_next he)
  · intro c e hw
    cases rest <;> cases err <;> simp [At.next] at hw

theorem close (h : Flow T src dst p lines) (hpc : p.pc = .closing) :
    Flow T src dst { p with pc := .done } lines := by
  have hlogged := h.logged
  have harrived := h.arrived
  rw [hpc] at hlogged harrived
  exact ⟨harrived, h.passed, h.whole, hlogged, h.trace, fun e he => absurd he (by simp [At.err]),
    fun _ _ hw => absurd hw (by simp)⟩

end Flow

/-! ## The session -/

namespace Session

variable {T : Tracer τ ε} {s s' : Session τ ε}

/-- What an event does, with what enables it. -/
inductive Steps (T : Tracer τ ε) (s : Session τ ε) : Event → Session τ ε → Prop where
  | arrive {d data} (hd : s.present d) (hfin : (s.inb d).fin = none) :
      Steps T s (.arrive d data)
        (s.setInb d ⟨(s.inb d).arrived ++ data, (s.inb d).unread ++ data, none⟩)
  | finish {d e} (hd : s.present d) (hfin : (s.inb d).fin = none) :
      Steps T s (.finish d e) (s.setInb d { s.inb d with fin := some e })
  | stall {d on} : Steps T s (.stall d on) { s with stalled := Function.update s.stalled d on }
  | dialled (hs : s.phase = .dialling) : Steps T s (.dial true) { s with phase := .pumping }
  | refused (hs : s.phase = .dialling) :
      Steps T s (.dial false) { s.close .client with phase := .refused }
  | read {d n joined r} (hs : s.phase = .pumping) (hpc : (s.pump d).pc = .reading)
      (hr : (s.inb d).read (s.closed d) T.bufSize n joined = some r) :
      Steps T s (.read d n joined)
        ((s.setInb d { s.inb d with unread := (s.inb d).unread.drop r.1.length }).setPump d
          { s.pump d with pc := if r.1 = [] then At.next [] r.2 else .writing r.1 r.2 })
  | write {d n chunk err} (hpc : (s.pump d).pc = .writing chunk err)
      (hfree : ¬ s.blocked d.other) :
      Steps T s (.write d n)
        ((s.setOut d.other ((s.out d.other).write (s.closed d.other) chunk n)).setPump d
          ⟨At.next (T.feed (s.pump d).trace chunk).1 err, (s.pump d).chunks ++ [chunk],
            (T.feed (s.pump d).trace chunk).2⟩)
  | log {d line rest err} (hpc : (s.pump d).pc = .logging line rest err) :
      Steps T s (.log d)
        { s.setPump d { s.pump d with pc := At.next rest err } with log := s.log ++ [(d, line)] }
  | close {d} (hpc : (s.pump d).pc = .closing) :
      Steps T s (.close d) ((s.close d.other).setPump d { s.pump d with pc := .done })
  | leave (hs : s.phase = .pumping) (hdone : ∀ d, (s.pump d).pc = .done) :
      Steps T s .leave { (s.close .client).close .upstream with phase := .returned }

theorem steps_of_step {e : Event} (h : s.step T e = some s') : Steps T s e s' := by
  cases e with
  | arrive d data =>
      simp only [step, Option.ite_none_right_eq_some, Option.some.injEq] at h
      obtain ⟨⟨hd, hfin⟩, rfl⟩ := h
      exact .arrive hd hfin
  | finish d e =>
      simp only [step, Option.ite_none_right_eq_some, Option.some.injEq] at h
      obtain ⟨⟨hd, hfin⟩, rfl⟩ := h
      exact .finish hd hfin
  | stall d on => exact Option.some.inj h ▸ .stall
  | dial ok =>
      simp only [step, Option.ite_none_right_eq_some] at h
      obtain ⟨hs, h⟩ := h
      cases ok with
      | true => exact Option.some.inj h ▸ .dialled hs
      | false => exact Option.some.inj h ▸ .refused hs
  | read d n joined =>
      simp only [step] at h
      split at h
      case h_1 hs hpc =>
        obtain ⟨r, hr, rfl⟩ := Option.map_eq_some_iff.mp h
        exact .read hs hpc hr
      case h_2 => cases h
  | write d n =>
      simp only [step] at h
      split at h
      case h_1 hpc =>
        obtain ⟨hfree, h⟩ := Option.ite_none_left_eq_some.mp h
        exact Option.some.inj h ▸ .write hpc hfree
      case h_2 => cases h
  | log d =>
      simp only [step] at h
      split at h
      case h_1 hpc => exact Option.some.inj h ▸ .log hpc
      case h_2 => cases h
  | close d =>
      simp only [step] at h
      split at h
      case h_1 hpc => exact Option.some.inj h ▸ .close hpc
      case h_2 => cases h
  | leave =>
      simp only [step] at h
      split at h
      case h_1 hs hclient hupstream =>
        exact Option.some.inj h ▸ .leave hs (by rintro (_ | _); exacts [hclient, hupstream])
      case h_2 => cases h

end Session

/-- The invariant of a session. A connection is closed by the pump that writes to
it, and by no one else before both have ended. Whenever a pump has ended, one of
them did so because its far end had. -/
structure Relayed (T : Tracer τ ε) (s : Session τ ε) : Prop where
  flow : ∀ d, Flow T (s.inb d) (s.out d.other) (s.pump d) (linesOf s.log d)
  idle : s.phase = .dialling ∨ s.phase = .refused → ∀ d, (s.pump d).pc = .reading
  closed_of_done : ∀ d, (s.pump d).pc = .done → s.closed d.other = true
  done_of_closed : s.phase ≠ .refused → ∀ d, s.closed d.other = true → (s.pump d).pc = .done
  returned : s.phase = .returned → ∀ d, (s.pump d).pc = .done
  first : ∀ d, (s.pump d).pc.ended = true → ∃ u e, (s.pump u).pc.ended = true ∧
    (s.inb u).fin = some e ∧ (e = .eof → (s.inb u).unread = [])

namespace Relayed

open Session

variable {T : Tracer τ ε} {s s' : Session τ ε}

theorem init (T : Tracer τ ε) : Relayed T (.init T) where
  flow _ := ⟨rfl, List.prefix_rfl, fun _ => rfl, rfl, rfl, fun _ h => absurd h (by simp [Session.init, At.err]),
    fun _ _ h => absurd h (by simp [Session.init])⟩
  idle _ _ := rfl
  closed_of_done _ h := absurd h (by simp [Session.init])
  done_of_closed _ _ h := absurd h (by simp [Session.init])
  returned h := absurd h (by simp [Session.init])
  first _ h := absurd h (by simp [Session.init, At.ended])

/-- A pump that is neither waiting to read nor done belongs to a session that runs. -/
theorem phase_of_busy (hs : Relayed T s) {d : Side} {pc : At ε} (hpc : (s.pump d).pc = pc)
    (hread : pc ≠ .reading) (hdone : pc ≠ .done) : s.phase = .pumping := by
  rw [← hpc] at hread hdone
  cases hphase : s.phase with
  | dialling => exact absurd (hs.idle (.inl hphase) d) hread
  | refused => exact absurd (hs.idle (.inr hphase) d) hread
  | pumping => rfl
  | returned => exact absurd (hs.returned hphase d) hdone

/-- A change of what arrives on one side, behind a stream that has not ended. -/
theorem setInb (hs : Relayed T s) {d : Side} {c : Inbound} (hfin : (s.inb d).fin = none)
    (hflow : Flow T c (s.out d.other) (s.pump d) (linesOf s.log d)) : Relayed T (s.setInb d c) where
  flow u := by
    by_cases hu : u = d
    · subst hu
      simpa using hflow
    · simpa [Function.update_of_ne hu] using hs.flow u
  idle := hs.idle
  closed_of_done := hs.closed_of_done
  done_of_closed := hs.done_of_closed
  returned := hs.returned
  first u hu := by
    obtain ⟨v, e, hv, hfinv, hunread⟩ := hs.first u hu
    have hne : v ≠ d := by
      rintro rfl
      rw [hfin] at hfinv
      cases hfinv
    refine ⟨v, e, hv, ?_⟩
    simp only [Session.setInb, Function.update_of_ne hne]
    exact ⟨hfinv, hunread⟩

/-- A call of a pump that is in its loop: its own direction goes on, and if it leaves
the loop then for an end of the stream, its own or the other's. -/
theorem call (hs : Relayed T s) {d : Side} {src : Inbound} {dst : Outbound} {p : Pump τ ε}
    {log : List (Side × ε)} (hphase : s.phase = .pumping) (hpc : (s.pump d).pc.ended = false)
    (hflow : Flow T src dst p (linesOf log d))
    (hlog : ∀ u, u ≠ d → linesOf log u = linesOf s.log u)
    (hp : p.pc ≠ .done)
    (hend : p.pc.ended = true → s.closed d = true ∨
      ∃ e, src.fin = some e ∧ (e = .eof → src.unread = [])) :
    Relayed T { (((s.setInb d src).setOut d.other dst).setPump d p) with log := log } := by
  have hdone : (s.pump d).pc ≠ .done := by
    intro h
    rw [h] at hpc
    cases hpc
  have hopen : s.closed d.other = false := by
    rw [← Bool.not_eq_true]
    exact fun h => hdone (hs.done_of_closed (by simp [hphase]) d h)
  -- the witness that the other pump has for its end
  have hkeep : ∀ v, (s.pump v).pc.ended = true → v ≠ d := by
    rintro v hv rfl
    rw [hpc] at hv
    cases hv
  have hwitness : ∀ v, (s.pump v).pc.ended = true → ∃ u e,
      ((Function.update s.pump d p) u).pc.ended = true ∧
        ((Function.update s.inb d src) u).fin = some e ∧
        (e = .eof → ((Function.update s.inb d src) u).unread = []) := by
    intro v hv
    obtain ⟨u, e, hu, hfin⟩ := hs.first v hv
    refine ⟨u, e, ?_⟩
    rw [Function.update_of_ne (hkeep u hu), Function.update_of_ne (hkeep u hu)]
    exact ⟨hu, hfin⟩
  constructor
  case flow =>
    intro u
    rcases u.eq_or_eq_other d with rfl | rfl
    · simpa using hflow
    · have hlines := hlog d.other d.other_ne
      have h := hs.flow d.other
      rw [← hlines] at h
      simpa [Function.update_of_ne d.other_ne,
        Function.update_of_ne d.other_ne.symm] using h
  case idle =>
    intro h
    exact absurd h (by simp [hphase])
  case closed_of_done =>
    intro u hu
    rcases u.eq_or_eq_other d with rfl | rfl
    · exact absurd (by simpa using hu) hp
    · exact hs.closed_of_done d.other (by simpa [Function.update_of_ne d.other_ne] using hu)
  case done_of_closed =>
    intro _ u hu
    rcases u.eq_or_eq_other d with rfl | rfl
    · exact absurd hu (by simp [hopen])
    · simpa [Function.update_of_ne d.other_ne] using
        hs.done_of_closed (by simp [hphase]) d.other hu
  case returned =>
    intro h
    exact absurd h (by simp [hphase])
  case first =>
    intro u hu
    rcases u.eq_or_eq_other d with rfl | rfl
    · have hu : p.pc.ended = true := by simpa using hu
      rcases hend hu with hclosed | ⟨e, hfin, hunread⟩
      · have hother := hs.done_of_closed (by simp [hphase]) u.other (by rw [u.other_other]; exact hclosed)
        exact hwitness u.other (by rw [hother]; rfl)
      · exact ⟨u, e, by simpa using hu, by simpa using hfin,
          by simpa using hunread⟩
    · exact hwitness d.other (by simpa [Function.update_of_ne d.other_ne] using hu)

theorem close (hs : Relayed T s) {d : Side} (hpc : (s.pump d).pc = .closing) :
    Relayed T ((s.close d.other).setPump d { s.pump d with pc := .done }) := by
  have hphase : s.phase = .pumping := hs.phase_of_busy hpc (by simp) (by simp)
  constructor
  case flow =>
    intro u
    rcases u.eq_or_eq_other d with rfl | rfl
    · simpa using (hs.flow u).close hpc
    · simpa [Function.update_of_ne d.other_ne] using hs.flow d.other
  case idle =>
    intro h
    exact absurd h (by simp [hphase])
  case closed_of_done =>
    intro u hu
    rcases u.eq_or_eq_other d with rfl | rfl
    · simp
    · rw [Side.other_other]
      have hu : (s.pump d.other).pc = .done := by simpa [Function.update_of_ne d.other_ne] using hu
      simpa [Function.update_of_ne d.other_ne.symm] using hs.closed_of_done d.other hu
  case done_of_closed =>
    intro _ u hu
    rcases u.eq_or_eq_other d with rfl | rfl
    · simp
    · have hu : s.closed d = true := by simpa [Function.update_of_ne d.other_ne.symm] using hu
      simpa [Function.update_of_ne d.other_ne] using
        hs.done_of_closed (by simp [hphase]) d.other (by simpa using hu)
  case returned =>
    intro h
    exact absurd h (by simp [hphase])
  case first =>
    intro u _
    have hstill : ∀ v, (s.pump v).pc.ended = true →
        ((Function.update s.pump d { s.pump d with pc := .done }) v).pc.ended = true := by
      intro v hv
      rcases v.eq_or_eq_other d with rfl | rfl
      · simp [At.ended]
      · simpa [Function.update_of_ne d.other_ne] using hv
    obtain ⟨v, e, hv, hfin⟩ := hs.first d (by rw [hpc]; rfl)
    exact ⟨v, e, hstill v hv, hfin⟩

theorem leave (hs : Relayed T s) (hdone : ∀ d, (s.pump d).pc = .done) :
    Relayed T { (s.close .client).close .upstream with phase := .returned } where
  flow := hs.flow
  idle h := absurd h (by simp)
  closed_of_done d _ := by cases d <;> simp [Side.other]
  done_of_closed _ d _ := hdone d
  returned _ := hdone
  first := hs.first

theorem stall (hs : Relayed T s) (stalled : Side → Bool) :
    Relayed T { s with stalled := stalled } where
  flow := hs.flow
  idle := hs.idle
  closed_of_done := hs.closed_of_done
  done_of_closed := hs.done_of_closed
  returned := hs.returned
  first := hs.first

theorem dialled (hs : Relayed T s) (hphase : s.phase = .dialling) :
    Relayed T { s with phase := .pumping } where
  flow := hs.flow
  idle h := absurd h (by simp)
  closed_of_done := hs.closed_of_done
  done_of_closed _ := hs.done_of_closed (by simp [hphase])
  returned h := absurd h (by simp)
  first := hs.first

theorem refused (hs : Relayed T s) (hphase : s.phase = .dialling) :
    Relayed T { s.close .client with phase := .refused } where
  flow := hs.flow
  idle _ := hs.idle (.inl hphase)
  closed_of_done d hd := absurd hd (by simp [hs.idle (.inl hphase) d])
  done_of_closed h := absurd rfl h
  returned h := absurd h (by simp)
  first := hs.first

theorem step {e : Event} (hs : Relayed T s) (h : s.step T e = some s') : Relayed T s' := by
  cases steps_of_step h with
  | @arrive d data _ hfin => exact hs.setInb hfin ((hs.flow d).arrive hfin data)
  | @finish d e _ hfin => exact hs.setInb hfin ((hs.flow d).finish hfin e)
  | stall => exact hs.stall _
  | dialled hphase => exact hs.dialled hphase
  | refused hphase => exact hs.refused hphase
  | @read d n joined r hphase hpc hr =>
      have hflow := (hs.flow d).read hpc hr
      have hcall := hs.call hphase (by rw [hpc]; rfl) hflow (fun _ _ => rfl) ?_ ?_
      · simpa using hcall
      · dsimp only
        split
        · exact At.next_ne_done _ _
        · simp
      · intro hended
        rcases Inbound.read_cases hr with ⟨hclosed, -⟩ | ⟨hb, e, -, hfin, hunread⟩ | ⟨hne, -⟩
        · exact .inl hclosed
        · exact .inr ⟨e, hfin, by simpa [hb] using hunread⟩
        · simp [hne, At.ended] at hended
  | @write d n chunk err hpc _ =>
      have hphase : s.phase = .pumping := hs.phase_of_busy hpc (by simp) (by simp)
      have hopen : s.closed d.other = false := by
        rw [← Bool.not_eq_true]
        intro hclosed
        have hdone := hs.done_of_closed (by simp [hphase]) d hclosed
        rw [hpc] at hdone
        cases hdone
      have hflow := (hs.flow d).write hpc hopen n
      have hcall := hs.call hphase (by rw [hpc]; rfl) hflow (fun _ _ => rfl) (At.next_ne_done _ _) ?_
      · simpa using hcall
      · intro hended
        obtain ⟨e, rfl⟩ := At.err_of_ended_next hended
        obtain ⟨hfin, hunread⟩ := (hs.flow d).pending e (by rw [hpc]; rfl)
        exact .inr ⟨e, hfin, fun _ => hunread⟩
  | @log d line rest err hpc =>
      have hphase : s.phase = .pumping := hs.phase_of_busy hpc (by simp) (by simp)
      have hflow := (hs.flow d).log hpc
      have hlines : linesOf (s.log ++ [(d, line)]) d = linesOf s.log d ++ [line] := by
        rw [linesOf_concat, if_pos rfl]
      rw [← hlines] at hflow
      have hcall := hs.call hphase (by rw [hpc]; rfl) hflow ?_ (At.next_ne_done _ _) ?_
      · simpa using hcall
      · intro u hu
        rw [linesOf_concat, if_neg hu.symm, List.append_nil]
      · intro hended
        obtain ⟨e, rfl⟩ := At.err_of_ended_next hended
        obtain ⟨hfin, hunread⟩ := (hs.flow d).pending e (by rw [hpc]; rfl)
        exact .inr ⟨e, hfin, fun _ => hunread⟩
  | close hpc => exact hs.close hpc
  | leave _ hdone => exact hs.leave hdone

theorem run (hs : Relayed T s) {es : List Event} (h : runFrom (Session.step T) s es = some s') :
    Relayed T s' :=
  invariant_of_runFrom (Relayed T) (fun _ _ _ hs hstep => hs.step hstep) hs h

end Relayed

/-- A tracer that logs the sizes of the chunks. -/
def sizes : Tracer Unit Nat where
  bufSize := 16
  bufSize_pos := by decide
  start := ()
  feed _ chunk := ([chunk.length], ())
  lines_le _ _ hne := List.length_pos_iff.mpr hne

/-- The client sends its request, half of which is forwarded before it stops sending. -/
def request : List Event :=
  [.arrive .client [1, 2, 3], .dial true, .read .client 2 false, .write .client 2, .log .client,
    .arrive .upstream [9], .finish .client .eof]

/-- The rest is forwarded, and the connection to the target closed with the reply unread. -/
def unanswered : List Event :=
  [.read .client 1 true, .write .client 1, .log .client, .close .client, .read .upstream 0 false,
    .close .upstream, .leave]

/-- The pump whose call an event is. -/
def Event.caller : Event → Option Side
  | .read d .. | .write d _ | .log d | .close d => some d
  | _ => none

/-- A bound for the calls that are left to a pump, if nothing more arrives. -/
def At.work : At ε → Nat
  | .reading => 2
  | .writing chunk _ => chunk.length + 3
  | .logging _ rest _ => rest.length + 3
  | .closing => 1
  | .done => 0

theorem At.work_next_le (lines : List ε) (err : Option IoErr) :
    (At.next lines err).work ≤ lines.length + 2 := by
  cases lines <;> cases err <;> simp [At.next, At.work]

namespace Session

variable {T : Tracer τ ε} {s s' : Session τ ε}

/-- Bytes are only read from a connection that is open. -/
def work (s : Session τ ε) (d : Side) : Nat :=
  (bif s.closed d then 0 else 3 * (s.inb d).unread.length) + (s.pump d).pc.work

/-- The reads of a direction cannot go on for ever. -/
def stopped (s : Session τ ε) (d : Side) : Prop := (s.inb d).fin ≠ none ∨ s.closed d = true

/-- A read costs less than the bytes it returns were worth. -/
theorem work_read {d : Side} {n : Nat} {joined : Bool} {r : Bytes × Option IoErr}
    (hpc : (s.pump d).pc = .reading)
    (hr : (s.inb d).read (s.closed d) T.bufSize n joined = some r) :
    (bif s.closed d then 0 else 3 * ((s.inb d).unread.drop r.1.length).length) +
      (if r.1 = [] then At.next [] r.2 else At.writing r.1 r.2 : At ε).work < s.work d := by
  rw [work, hpc]
  rcases Inbound.read_cases hr with ⟨hclosed, hb, herr⟩ | ⟨hb, e, herr, -⟩ | ⟨hne, hunread, hopen, -⟩
  · simp [hb, herr, hclosed, At.next, At.work]
  · simp [hb, herr, At.next, At.work]
  · have hpos := List.length_pos_iff.mpr hne
    have hlen := congrArg List.length hunread
    rw [List.length_append] at hlen
    rw [if_neg hne, hopen]
    simp only [cond_false, At.work]
    omega

/-- Every call of a pump takes from its work, and nothing adds to it once its reads
are bound to end. -/
theorem work_step (hs : Relayed T s) {e : Event} (h : s.step T e = some s') {d : Side}
    (hstop : s.stopped d) :
    s'.stopped d ∧ s'.work d + (if e.caller = some d then 1 else 0) ≤ s.work d := by
  cases steps_of_step h with
  | @arrive u data _ hfin =>
      rcases d.eq_or_eq_other u with rfl | rfl
      · have hclosed : s.closed d = true := hstop.resolve_left (not_not_intro hfin)
        simp [stopped, work, hclosed, Event.caller]
      · simpa [stopped, work, Event.caller, Function.update_of_ne u.other_ne] using hstop
  | @finish u e _ hfin =>
      rcases d.eq_or_eq_other u with rfl | rfl
      · simp [stopped, work, Event.caller]
      · simpa [stopped, work, Event.caller, Function.update_of_ne u.other_ne] using hstop
  | stall => simpa [stopped, work, Event.caller] using hstop
  | dialled _ => simpa [stopped, work, Event.caller] using hstop
  | refused _ =>
      cases d with
      | client => simp [stopped, work, Event.caller]
      | upstream => simpa [stopped, work, Event.caller] using hstop
  | @read u n joined r _ hpc hr =>
      rcases d.eq_or_eq_other u with rfl | rfl
      · have hlt := work_read hpc hr
        refine ⟨by simpa [stopped] using hstop, ?_⟩
        simpa [work, Event.caller] using hlt
      · simpa [stopped, work, Event.caller, Function.update_of_ne u.other_ne, u.other_ne.symm] using hstop
  | @write u n chunk err hpc _ =>
      rcases d.eq_or_eq_other u with rfl | rfl
      · have hlines := T.lines_le (s.pump d).trace chunk ((hs.flow d).filled chunk err hpc)
        have hnext := At.work_next_le (T.feed (s.pump d).trace chunk).1 err
        have hbefore : (s.pump d).pc.work = chunk.length + 3 := by
          rw [hpc]
          rfl
        refine ⟨by simpa [stopped] using hstop, ?_⟩
        simp only [work, Event.caller, setPump, setOut, Function.update_self, hbefore, if_true]
        omega
      · simpa [stopped, work, Event.caller, Function.update_of_ne u.other_ne, u.other_ne.symm] using hstop
  | @log u line rest err hpc =>
      rcases d.eq_or_eq_other u with rfl | rfl
      · have hnext := At.work_next_le rest err
        have hbefore : (s.pump d).pc.work = rest.length + 3 := by
          rw [hpc]
          rfl
        refine ⟨by simpa [stopped] using hstop, ?_⟩
        simp only [work, Event.caller, setPump, Function.update_self, hbefore, if_true]
        omega
      · simpa [stopped, work, Event.caller, Function.update_of_ne u.other_ne, u.other_ne.symm] using hstop
  | @close u hpc =>
      rcases d.eq_or_eq_other u with rfl | rfl
      · refine ⟨by simpa [stopped, Function.update_of_ne d.other_ne.symm] using hstop, ?_⟩
        simp [work, Event.caller, hpc, At.work, Function.update_of_ne d.other_ne.symm]
      · simp [stopped, work, Event.caller, Function.update_of_ne u.other_ne, u.other_ne.symm]
  | leave _ _ => cases d <;> simp [stopped, work, Event.caller]

/-- So the calls of a pump are bounded, over any run. -/
theorem work_run (hs : Relayed T s) {d : Side} (hstop : s.stopped d) {es : List Event}
    (h : runFrom (step T) s es = some s') :
    s'.stopped d ∧ s'.work d + es.countP (fun e => e.caller = some d) ≤ s.work d := by
  induction es generalizing s with
  | nil =>
      obtain rfl := Option.some.inj h
      exact ⟨hstop, le_rfl⟩
  | cons e es ih =>
      obtain ⟨s₁, hstep, hrest⟩ := Option.bind_eq_some_iff.mp h
      obtain ⟨hstop₁, hwork⟩ := work_step hs hstep hstop
      obtain ⟨hstop', hle⟩ := ih (hs.step hstep) hstop₁ hrest
      refine ⟨hstop', ?_⟩
      rw [List.countP_cons]
      by_cases he : e.caller = some d <;> simp only [he, decide_true, decide_false, if_true, if_false,
        Bool.false_eq_true] at hwork ⊢ <;> omega

/-- The pump is in a write that does not return. -/
def Stuck (s : Session τ ε) (d : Side) : Prop :=
  s.blocked d.other ∧ ∃ chunk err, (s.pump d).pc = .writing chunk err

/-- A pump whose reads are bound to end can go on, unless it is in such a write. -/
theorem exists_call (hphase : s.phase = .pumping) {d : Side} (hstop : s.stopped d)
    (hdone : (s.pump d).pc ≠ .done) (hfree : ¬ s.Stuck d) :
    ∃ e : Event, e.caller = some d ∧ (s.step T e).isSome := by
  cases hpc : (s.pump d).pc with
  | reading =>
      by_cases hclosed : s.closed d = true
      · exact ⟨.read d 0 false, rfl, by simp [step, hphase, hpc, Inbound.read, hclosed]⟩
      · obtain ⟨e, hfin⟩ := Option.ne_none_iff_exists'.mp (hstop.resolve_right hclosed)
        by_cases hunread : (s.inb d).unread = []
        · exact ⟨.read d 0 false, rfl, by simp [step, hphase, hpc, Inbound.read, hclosed, hfin, hunread]⟩
        · have hpos := List.length_pos_iff.mpr hunread
          have hbuf := T.bufSize_pos
          have hfits : 1 ≤ T.bufSize ∧ 1 ≤ (s.inb d).unread.length := ⟨hbuf, hpos⟩
          exact ⟨.read d 1 false, rfl, by simp [step, hphase, hpc, Inbound.read, hclosed, hfits]⟩
  | writing chunk err =>
      have hunblocked : ¬ s.blocked d.other := fun h => hfree ⟨h, chunk, err, hpc⟩
      exact ⟨.write d 0, rfl, by simp [step, hpc, hunblocked]⟩
  | logging line rest err => exact ⟨.log d, rfl, by simp [step, hpc]⟩
  | closing => exact ⟨.close d, rfl, by simp [step, hpc]⟩
  | done => exact absurd hpc hdone

/-- Only the far end gets a pump out of a write that does not return: the connection is
closed by the pump itself, and by `handle` when both pumps have ended. -/
theorem stuck_step (hs : Relayed T s) {e : Event} {d : Side} (h : s.step T e = some s')
    (hstuck : s.Stuck d) (he : e ≠ .stall d.other false) : s'.Stuck d := by
  obtain ⟨⟨hstalled, hopen, hwhole⟩, chunk, err, hpc⟩ := hstuck
  -- another pump's call is about the other connections
  have hother : ∀ {u pc}, (s.pump u).pc = pc → (∀ chunk err, pc ≠ .writing chunk err) →
      u = d.other := by
    intro u pc hu hne
    refine (u.eq_or_eq_other d).resolve_left ?_
    rintro rfl
    exact hne chunk err (hu.symm.trans hpc)
  cases steps_of_step h with
  | arrive | finish | dialled => exact ⟨⟨hstalled, hopen, hwhole⟩, chunk, err, hpc⟩
  | @stall u on =>
      refine ⟨⟨?_, hopen, hwhole⟩, chunk, err, hpc⟩
      by_cases hu : u = d.other
      · subst hu
        cases on with
        | true => simp
        | false => exact absurd rfl he
      · simpa [Function.update_of_ne (Ne.symm hu)] using hstalled
  | refused hphase =>
      rw [hs.idle (.inl hphase) d] at hpc
      cases hpc
  | @read u _ _ _ _ hpcu _ =>
      obtain rfl := hother hpcu (by simp)
      exact ⟨⟨hstalled, hopen, hwhole⟩, chunk, err, by simpa [Function.update_of_ne d.other_ne.symm] using hpc⟩
  | @write u _ _ _ hpcu hfree =>
      have hu : u = d.other := by
        refine (u.eq_or_eq_other d).resolve_left ?_
        rintro rfl
        exact hfree ⟨hstalled, hopen, hwhole⟩
      subst hu
      refine ⟨⟨hstalled, hopen, ?_⟩, chunk, err, ?_⟩
      · simpa [Function.update_of_ne d.other_ne] using hwhole
      · simpa [Function.update_of_ne d.other_ne.symm] using hpc
  | @log u _ _ _ hpcu =>
      obtain rfl := hother hpcu (by simp)
      exact ⟨⟨hstalled, hopen, hwhole⟩, chunk, err, by simpa [Function.update_of_ne d.other_ne.symm] using hpc⟩
  | @close u hpcu =>
      obtain rfl := hother hpcu (by simp)
      refine ⟨⟨hstalled, ?_, hwhole⟩, chunk, err, ?_⟩
      · simpa [Function.update_of_ne d.other_ne] using hopen
      · simpa [Function.update_of_ne d.other_ne.symm] using hpc
  | leave _ hdone =>
      rw [hdone d] at hpc
      cases hpc

theorem stuck_run (hs : Relayed T s) {es : List Event} {d : Side}
    (h : runFrom (step T) s es = some s') (hstuck : s.Stuck d)
    (hes : Event.stall d.other false ∉ es) : s'.Stuck d := by
  induction es generalizing s with
  | nil =>
      obtain rfl := Option.some.inj h
      exact hstuck
  | cons e es ih =>
      obtain ⟨s₁, hstep, hrest⟩ := Option.bind_eq_some_iff.mp h
      obtain ⟨he, hes⟩ := List.ne_and_not_mem_of_not_mem_cons hes
      exact ih (hs.step hstep) hrest (stuck_step hs hstep hstuck he.symm) hes

/-- The target has been dialled. -/
def running (s : Session τ ε) : Prop := s.phase = .pumping ∨ s.phase = .returned

theorem running_step {e : Event} (h : s.step T e = some s') (hs : s.running) : s'.running := by
  cases steps_of_step h with
  | refused hphase => exact absurd hs (by simp [running, hphase])
  | dialled _ => exact .inl rfl
  | leave _ _ => exact .inr rfl
  | arrive | finish | stall | read | write | log | close => exact hs

theorem running_run {es : List Event} (h : runFrom (step T) s es = some s') (hs : s.running) :
    s'.running :=
  invariant_of_runFrom running (fun _ _ _ hs hstep => running_step hstep hs) hs h

theorem done_step {e : Event} (h : s.step T e = some s') {d : Side}
    (hdone : (s.pump d).pc = .done) : (s'.pump d).pc = .done := by
  -- a call of the pump itself would find it elsewhere
  cases steps_of_step h with
  | arrive | finish | stall | dialled | refused | leave => exact hdone
  | @read u _ _ _ _ hpc | @write u _ _ _ hpc _ | @log u _ _ _ hpc | @close u hpc =>
      have hne : d ≠ u := by
        rintro rfl
        rw [hpc] at hdone
        cases hdone
      simpa [Function.update_of_ne hne] using hdone

theorem done_run {es : List Event} (h : runFrom (step T) s es = some s') {d : Side}
    (hdone : (s.pump d).pc = .done) : (s'.pump d).pc = .done :=
  invariant_of_runFrom (fun s : Session τ ε => (s.pump d).pc = .done)
    (fun _ _ _ hs hstep => done_step hstep hs) hdone h

end Session

/-- **Termination.** Once the far end of a direction has stopped, the pump of that
direction makes a bounded number of further calls, whatever else happens in between,
and until it is done there is always one that it can make, unless it is in a write that
does not return. From then on the same holds of the other pump, even if its far end goes
on sending, until `handle` has returned. A pump in such a write stays there, and `handle`
does not return, for as long as the far end of that write takes nothing. -/
theorem relay_ends (T : Tracer τ ε) {es es' : List Event} {s s' : Session τ ε} {d : Side}
    (h : runFrom (Session.step T) (.init T) es = some s) (hphase : s.phase = .pumping)
    (hfin : (s.inb d).fin ≠ none) (h' : runFrom (Session.step T) s es' = some s') :
    es'.countP (fun e => e.caller = some d) ≤ s.work d ∧
      ((s'.pump d).pc ≠ .done →
        s'.Stuck d ∨ ∃ e : Event, e.caller = some d ∧ (s'.step T e).isSome) ∧
      ((s'.pump d).pc = .done → ∀ es'' s'', runFrom (Session.step T) s' es'' = some s'' →
        es''.countP (fun e => e.caller = some d.other) ≤ s'.work d.other ∧
          (s''.phase = .returned ∨ s''.Stuck d.other ∨
            ∃ e : Event, (e = .leave ∨ e.caller = some d.other) ∧ (s''.step T e).isSome)) ∧
      ∀ u, s'.Stuck u → ∀ es'' s'', runFrom (Session.step T) s' es'' = some s'' →
        Event.stall u.other false ∉ es'' → s''.phase = .pumping := by
  have hs := (Relayed.init T).run h
  have hs' := hs.run h'
  have hrunning' := Session.running_run h' (.inl hphase)
  obtain ⟨hstop, hcount⟩ := Session.work_run hs (.inl hfin) h'
  refine ⟨by omega, ?_, ?_, ?_⟩
  · intro hnot
    have hpumping := hrunning'.resolve_right fun hret => hnot (hs'.returned hret d)
    by_cases hstuck : s'.Stuck d
    · exact .inl hstuck
    · exact .inr (Session.exists_call hpumping hstop hnot hstuck)
  · intro hdone es'' s'' h''
    have hdone'' := Session.done_run h'' hdone
    -- the pump that is done has closed the connection the other one reads from
    have hclosed := hs'.closed_of_done d hdone
    obtain ⟨hstop', hcount'⟩ := Session.work_run hs' (.inr hclosed) h''
    refine ⟨by omega, ?_⟩
    refine (Session.running_run h'' hrunning').symm.imp_right fun hpumping => ?_
    by_cases hother : (s''.pump d.other).pc = .done
    · refine .inr ⟨.leave, .inl rfl, ?_⟩
      have hclient : (s''.pump .client).pc = .done := by cases d <;> [exact hdone''; exact hother]
      have hupstream : (s''.pump .upstream).pc = .done := by cases d <;> [exact hother; exact hdone'']
      simp [Session.step, hpumping, hclient, hupstream]
    · by_cases hstuck : s''.Stuck d.other
      · exact .inl hstuck
      · obtain ⟨e, he, hsome⟩ := Session.exists_call hpumping hstop' hother hstuck
        exact .inr ⟨e, .inr he, hsome⟩
  · intro u hstuck es'' s'' h'' hes
    obtain ⟨-, chunk, err, hpc⟩ := Session.stuck_run hs' h'' hstuck hes
    exact (hs'.run h'').phase_of_busy hpc (by simp) (by simp)

/-- The same request, and a client that does not take the reply: the client's direction
ends, and the reply is stuck. -/
def untaken : List Event :=
  [.stall .client true, .read .upstream 1 false, .read .client 1 true, .write .client 1,
    .log .client, .close .client]

/-- With the reply unread the session ends; with a client that takes nothing it does not,
in any run in which that does not change. -/
theorem relay_ends_unanswered :
    ∃ s, runFrom (Session.step sizes) (.init sizes) request = some s ∧ s.phase = .pumping ∧
      (s.inb .client).fin ≠ none ∧
      (∃ s', runFrom (Session.step sizes) s unanswered = some s' ∧
        unanswered.countP (fun e => e.caller = some .client) ≤ s.work .client ∧
        s'.phase = .returned) ∧
      ∃ s', runFrom (Session.step sizes) s untaken = some s' ∧ (s'.pump .client).pc = .done ∧
        ∀ es s'', runFrom (Session.step sizes) s' es = some s'' →
          Event.stall .client false ∉ es → s''.phase = .pumping := by
  have hruns : ∃ s, runFrom (Session.step sizes) (.init sizes) request = some s ∧
      s.phase = .pumping ∧ (s.inb .client).fin ≠ none ∧
      (∃ s', runFrom (Session.step sizes) s unanswered = some s' ∧ s'.phase = .returned) ∧
      ∃ s', runFrom (Session.step sizes) s untaken = some s' ∧ (s'.pump .client).pc = .done ∧
        s'.Stuck .upstream :=
    ⟨_, rfl, rfl, by simp, ⟨_, rfl, rfl⟩, _, rfl, rfl, ⟨rfl, rfl, rfl⟩, _, _, rfl⟩
  obtain ⟨s, hrun, hphase, hfin, ⟨s₁, hends, hreturned⟩, s₂, huntaken, hdone, hstuck⟩ := hruns
  refine ⟨s, hrun, hphase, hfin, ⟨s₁, hends, ?_, hreturned⟩, s₂, huntaken, hdone, ?_⟩
  · exact (relay_ends sizes hrun hphase hfin hends).1
  · exact (relay_ends sizes hrun hphase hfin huntaken).2.2.2 .upstream hstuck

end QconnMcp.Proxy
