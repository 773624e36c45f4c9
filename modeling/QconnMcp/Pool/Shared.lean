import QconnMcp.Kit.Mutex
import QconnMcp.Mock.Calls

/-!
# The pooled client between concurrent calls

Every method of the qconn client locks the client's mutex for as long as it runs, and
nothing else touches the connection, the current service or the cached information. Tool
calls that share the pooled client therefore take turns, whatever the scheduler does
inside and between them (`Kit.Mutex`). Against the mock daemon the shared client is then
the daemon's own table of files (`FileOp.spec`, with the writes that do not truncate and the
deletes that remove nothing) with one user at a time (`shared_client_serial`).
-/

namespace QconnMcp.Pool

open Kit Qconn Mock

/-- A call of a file operation that the daemon can serve. -/
abbrev FileCall (host : Host) := { o : FileOp // o.Fits host }

/-- The method behind a call, on the shared client. -/
def FileCall.exec (host : Host) (fuel : Nat) (o : FileCall host) :
    Act (Served Session) (Option (Value × Option Err)) :=
  o.1.op.exec (mockPeer host) fuel

/-- What the mock daemon does with it. -/
def FileCall.spec {host : Host} (o : FileCall host) :
    StateM (Bytes → Bytes) (Option (Value × Option Err)) :=
  some <$> o.1.spec

/-- The client and the files, with at most `k` descriptors handed out. Before the first
call the line behind the greeting is still unread. -/
def Agree (host : Host) (k : Nat) (c : Client (Served Session)) (g : Bytes → Bytes) : Prop :=
  (∃ n ≤ k, Holding host g n c) ∨ k = 0 ∧ Fresh c ∧ g = fun _ => []

theorem exec_agrees {host : Host} {fuel : Nat} (hfuel : host.maxAlloc < fuel) {k : Nat}
    (hk : k < 2 ^ 62) (o : FileCall host) {c : Client (Served Session)} {g : Bytes → Bytes}
    (h : Agree host k c g) :
    ((o.exec host fuel).run c).1 = (o.spec.run g).1 ∧
      ∃ n ≤ k + 1, Holding host (o.spec.run g).2 n ((o.exec host fuel).run c).2 := by
  have hexec : ∀ n ≤ k, ∀ c, Holding host g n c → ((o.exec host fuel).run c).1 = (o.spec.run g).1 ∧
      ∃ n ≤ k + 1, Holding host (o.spec.run g).2 n ((o.exec host fuel).run c).2 := by
    intro n hn c hc
    obtain ⟨hresult, n', hn', hholding⟩ := exec_spec o.2 (by omega) hfuel c hc
    exact ⟨hresult, n', by omega, hholding⟩
  rcases h with ⟨n, hn, hc⟩ | ⟨-, hc, rfl⟩
  · exact hexec n hn c hc
  · -- the unread line changes nothing
    rw [show (o.exec host fuel).run c = (o.exec host fuel).run (cleared c) from exec_noise hc fuel o.1.op]
    exact hexec 0 (Nat.zero_le k) _ (hc.holding host)

/-- **The shared client is serial.** However the steps of any number of concurrent file
operations on one dialled client are interleaved: the operations that are done, in the
order in which they let go of the mutex, have returned what they return on the mock
daemon's table of files one after another. An operation that comes before another in this order was called
before that one was done, so the order respects time; every call that returns is in it;
and whenever nobody holds the mutex the daemon has the files of the table, with nothing
unread and client and daemon in the same service. -/
theorem shared_client_serial (host : Host) (buffered : List Nat) {fuel : Nat}
    (hfuel : host.maxAlloc < fuel) :
    ∃ c₀, Client.dial ⟨Session.start, []⟩ (greeted host buffered) = (none, c₀) ∧
      ∀ s, Mutex.Steps (FileCall.exec host fuel) (Mutex.start c₀) s → s.calls.length ≤ 2 ^ 62 →
        let table := (sequentially FileCall.spec (s.calls.map Mutex.Call.op)).run fun _ => []
        s.calls.map Mutex.Call.result = table.1 ∧
          s.calls.Pairwise (fun x y => x.called < y.left) ∧
          (∀ t a, s.phase t = .leaving a → ∃ x ∈ s.calls, x.thread = t ∧ x.result = a) ∧
          (s.holder = none → s.calls ≠ [] → s.shared.peer.state.files = table.2 ∧
            s.shared.fc.inp = [] ∧ s.shared.current = s.shared.peer.state.svc) := by
  obtain ⟨c₀, hdial, hfresh⟩ := dial_greeted host buffered
  refine ⟨c₀, hdial, ?_⟩
  intro s hsteps hcount
  have hs := Mutex.serialized_of_steps hsteps
  obtain ⟨hresults, hagree⟩ := sequentially_follows (R := Agree host)
    (fun k hk o c g h => ⟨(exec_agrees hfuel hk o h).1, .inl (exec_agrees hfuel hk o h).2⟩)
    (s.calls.map Mutex.Call.op) 0 c₀ (fun _ => []) (by simpa using hcount) (.inr ⟨rfl, hfresh, rfl⟩)
  refine ⟨hs.results.symm.trans hresults, ?_, hs.answered, ?_⟩
  · refine hs.order.imp_of_mem ?_
    intro x y hx _ hlt
    exact (hs.called x hx).1.trans hlt
  · intro hfree hne
    obtain ⟨n, -, hholding⟩ := hagree.resolve_right fun h => hne (by simpa using h.1)
    rw [show s.shared = _ from hs.free hfree]
    refine ⟨hholding.files, hholding.unread, ?_⟩
    rcases hholding.service with ⟨hcur, hsvc⟩ | ⟨hcur, hsvc⟩
    · exact hcur.trans hsvc.symm
    · exact hcur.trans hsvc.symm

/-! Two calls: the second one is made while the first is inside. -/

theorem named_f : Change.Named (ascii "/f") :=
  ⟨⟨by decide, by decide, by decide, by decide, by decide, by decide⟩, by decide⟩

def writeF : FileCall smallHost := ⟨.write (ascii "/f") [1, 2, 3] 0, named_f, by decide, by decide⟩

def readF : FileCall smallHost := ⟨.read (ascii "/f"), named_f, trivial⟩

theorem shared_client_serial_two :
    ∃ c₀ s, Client.dial ⟨Session.start, []⟩ (greeted smallHost []) = (none, c₀) ∧
      Mutex.Steps (FileCall.exec smallHost (2 ^ 20 + 1)) (Mutex.start c₀) s ∧
      s.calls.map (fun x => (x.thread, x.op.1)) = [(0, writeF.1), (1, readF.1)] ∧
      s.calls.map Mutex.Call.result = [some (.count 3, none), some (.bytes [1, 2, 3], none)] ∧
      s.shared.fc.inp = [] := by
  obtain ⟨c₀, hdial, hserial⟩ := shared_client_serial smallHost [] (by decide : 2 ^ 20 < 2 ^ 20 + 1)
  have hrun : ∃ s, Mutex.Steps (FileCall.exec smallHost (2 ^ 20 + 1)) (Mutex.start c₀) s ∧
      s.calls.map Mutex.Call.op = [writeF, readF] ∧
      s.calls.map (fun x => (x.thread, x.op.1)) = [(0, writeF.1), (1, readF.1)] ∧ s.holder = none := by
    have hcalled : Mutex.Steps (FileCall.exec smallHost (2 ^ 20 + 1)) (Mutex.start c₀) _ :=
      .single (.call 0 writeF rfl)
    have hinside := (hcalled.tail (.lock 0 rfl rfl)).tail (.call 1 readF rfl)
    have hwritten := (hinside.tail (.work 0
      (Client.writeFile (mockPeer smallHost) (ascii "/f") [1, 2, 3] 0)
      (fun r => pure (some (.count r.1, r.2))) rfl)).tail (.unlock 0 rfl)
    have hread := ((hwritten.tail (.lock 1 rfl rfl)).tail (.work 1
      (Client.readFile (mockPeer smallHost) (2 ^ 20 + 1) (ascii "/f"))
      (fun r => pure (r.map fun x => (.bytes x.1, x.2))) rfl)).tail (.unlock 1 rfl)
    exact ⟨_, hread, rfl, rfl, rfl⟩
  obtain ⟨s, hsteps, hops, hmap, hfree⟩ := hrun
  have hlen : s.calls.length = 2 := by
    rw [← List.length_map (f := Mutex.Call.op), hops]
    rfl
  obtain ⟨hresults, -, -, hend⟩ := hserial s hsteps (by rw [hlen]; decide)
  refine ⟨c₀, s, hdial, hsteps, hmap, ?_, ?_⟩
  · rw [hresults, hops]
    rfl
  · exact (hend hfree (by rintro hnil; rw [hnil] at hlen; cases hlen)).2.1

end QconnMcp.Pool
