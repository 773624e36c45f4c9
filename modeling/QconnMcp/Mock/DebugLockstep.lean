import QconnMcp.Mock.Pdebug

/-!
# The pdebug client against the mock agent

The debug client and `ServeDSMSG` composed: handshake, then any sequence of
operations. The agent answers in order, so the connection stays settled with
nothing unread; on top of that, what it keeps about the debugged process is the
number of the last Attach or Launch, cut to 32 bits by the wire format.
-/

namespace QconnMcp.Mock

open Kit Qnxdbg

/-! ## The process being debugged -/

/-- Between requests, with the process `pid`. -/
structure Debugging (pid : Nat) (s : Served Pdebug) : Prop where
  pending : s.pending = []
  attachedPID : s.state.attachedPID = pid

/-- The process after an operation. -/
def pidAfter (pid : Nat) : Op → Nat
  | .attach p => uint32 p
  | .launch _ _ _ => 0x2000
  | _ => pid

/-- The process after a run of operations on a new connection. -/
def lastPid (ops : List Op) : Nat := ops.foldl pidAfter Pdebug.start.attachedPID

theorem uint32_lt (v : Int) : uint32 v < 2 ^ 32 := by
  have := Int.emod_lt_of_pos v (by decide : (0 : Int) < 2 ^ 32)
  unfold uint32
  omega

theorem leNat_le32 (v : Int) : leNat (le32 (uint32 v)) = uint32 v := by
  rw [le32, leNat_leBytes]
  exact Nat.mod_eq_of_lt (uint32_lt v)

theorem pidAfter_lt {pid : Nat} (h : pid < 2 ^ 32) (op : Op) : pidAfter pid op < 2 ^ 32 := by
  cases op with
  | attach p => exact uint32_lt p
  | launch path args env => exact (by decide : 0x2000 < 2 ^ 32)
  | _ => exact h

theorem lastPid_lt (ops : List Op) : lastPid ops < 2 ^ 32 := by
  have hfold : ∀ pid, pid < 2 ^ 32 → ops.foldl pidAfter pid < 2 ^ 32 := by
    induction ops with
    | nil => exact fun _ h => h
    | cons op ops ih => exact fun pid h => ih _ (pidAfter_lt h op)
  exact hfold _ (by decide)

/-! ## Operations -/

abbrev InLockstep (pid : Nat) : Client (Served Pdebug) → Prop := Settled NoFrame (Debugging pid)

theorem noFrame_aside : ∀ p, NoFrame p → Aside p := fun _ h => h.elim

theorem InLockstep.unread_eq {pid : Nat} {c : Client (Served Pdebug)} (hc : InLockstep pid c) :
    c.inp = [] := by
  obtain ⟨as, has, hinp⟩ := hc.unread
  cases as with
  | nil => exact hinp
  | cons a as => exact (has a List.mem_cons_self).elim

theorem InLockstep.peer_eq {pid : Nat} {c : Client (Served Pdebug)} (hc : InLockstep pid c) :
    ∃ s : Pdebug, c.peer = ⟨s, []⟩ ∧ s.attachedPID = pid :=
  ⟨c.peer.state, by rw [← hc.idle.pending], hc.idle.attachedPID⟩

theorem debugging_kept {pid : Nat} {cmd : UInt8} (hattach : cmd ≠ cmdAttach) (hload : cmd ≠ cmdLoad)
    (subcmd : UInt8) (body : Bytes) :
    Answered serveDSMSG (Debugging pid) (Debugging pid) (Orderly NoFrame cmd) cmd subcmd body :=
  serveDSMSG_answers (fun _ h => h.pending) fun s mid h =>
    ⟨rfl, (s.request_attachedPID hattach hload mid body).trans h.attachedPID⟩

theorem debugging_attached (pid : Nat) (p : Int) :
    Answered serveDSMSG (Debugging pid) (Debugging (uint32 p)) (Orderly NoFrame cmdAttach) cmdAttach
      0 (le32 (uint32 p)) := by
  refine serveDSMSG_answers (fun _ h => h.pending) fun s mid _ => ⟨rfl, ?_⟩
  have hfield : field (le32 (uint32 p)) 0 4 = uint32 p := by
    rw [field, List.drop_zero, List.take_of_length_le (by simp [le32]), leNat_le32]
  show (if 4 ≤ (le32 (uint32 p)).length then { s with attachedPID := _ } else s).attachedPID = _
  rw [if_pos (by simp [le32])]
  exact hfield

theorem debugging_loaded (pid : Nat) (body : Bytes) :
    Answered serveDSMSG (Debugging pid) (Debugging 0x2000) (Orderly NoFrame cmdLoad) cmdLoad
      0 body :=
  serveDSMSG_answers (fun _ h => h.pending) fun _ _ _ => ⟨rfl, rfl⟩

/-- One request in lockstep, when the answers of the agent are known. -/
theorem transactSub_mock {c : Client (Served Pdebug)} {s : Pdebug} (hinp : c.inp = [])
    (hpeer : c.peer = ⟨s, []⟩) (cmd subcmd : UInt8) (body : Bytes) {p : Bytes} {post : List Bytes}
    (hreq : (s.request cmd (c.mid + 1) body).2 = p :: post) (hp : ¬ Aside p) :
    (Client.transactSub serveDSMSG cmd subcmd body).run c =
      (.ok p, ⟨post.flatMap frame, .timeout, ⟨(s.request cmd (c.mid + 1) body).1, []⟩, c.mid + 1,
        c.output, c.replies ++ [(c.mid + 1, p)]⟩) := by
  have hrecv := recv_frame s (message cmd subcmd (c.mid + 1) body)
  rw [show s.serve (message cmd subcmd (c.mid + 1) body) = s.request cmd (c.mid + 1) body from rfl,
    hreq, ← hpeer] at hrecv
  have hnone : c.inp = ([] : List Bytes).flatMap frame := hinp
  have hsent : serveDSMSG.recv c.peer (frame (message cmd subcmd (c.mid + 1) body)) =
      some (⟨(s.request cmd (c.mid + 1) body).1, []⟩, ([] ++ p :: post).flatMap frame) := hrecv
  rw [Client.transactSub_run hnone nofun hsent nofun hp, List.append_nil, List.flatMap_nil,
    List.append_nil]
  rfl

/-! ### Launch -/

theorem envCmd_accepted (pid : Nat) (sub : UInt8) (body : Bytes) :
    Holds (InLockstep pid) (Client.envCmd serveDSMSG sub body) fun e c =>
      e = none ∧ InLockstep pid c := by
  intro c hc
  refine ⟨?_, (Client.acked_settled (.refl _) noFrame_aside _ (by decide)
    (debugging_kept (by decide) (by decide) _ _).under).holds c hc⟩
  obtain ⟨s, hpeer, -⟩ := InLockstep.peer_eq hc
  have hrun := transactSub_mock (InLockstep.unread_eq hc) hpeer cmdEnv sub body rfl
    (not_aside_message 0x21 0 _ _)
  rw [Client.envCmd, Client.acked, run_bind, Client.command, run_bind, hrun]
  rfl

theorem envEach_accepted (pid : Nat) (sub : UInt8) (strings : List Bytes) :
    Holds (InLockstep pid) (Client.envEach serveDSMSG sub strings) fun e c =>
      e = none ∧ InLockstep pid c := by
  induction strings with
  | nil => exact .pure fun _ hc => ⟨rfl, hc⟩
  | cons e es ih => exact (envCmd_accepted pid sub _).bind_value ih

theorem stage_accepted (pid : Nat) (reset sub : UInt8) (strings : List Bytes) :
    Holds (InLockstep pid) (Client.stage serveDSMSG reset sub strings) fun e c =>
      e = none ∧ InLockstep pid c :=
  (envCmd_accepted pid reset _).bind_value (envEach_accepted pid sub strings)

theorem launch_inLockstep (pid : Nat) (path : Bytes) (args : List Bytes)
    (env : Option (List Bytes)) :
    Holds (InLockstep pid) (Client.launch serveDSMSG path args env) fun _ c =>
      InLockstep 0x2000 c := by
  refine (stage_accepted pid _ _ _).bind_value ?_
  refine (stage_accepted pid _ _ _).bind_value ?_
  refine (Client.fetched_settled (.refl _) noFrame_aside _ (by decide)
    (debugging_loaded pid _).under).holds.bind ?_
  intro r
  rcases r with ⟨b, _ | e⟩ <;> exact .pure fun _ hc => hc

/-! ### Runs -/

theorem exec_inLockstep (pid : Nat) (op : Op) :
    Holds (InLockstep pid) (op.exec serveDSMSG) fun _ c => InLockstep (pidAfter pid op) c := by
  cases op with
  | attach p => exact (exec_attach_settled (.refl _) noFrame_aside (debugging_attached pid p).under).holds
  | launch path args env => exact launch_inLockstep pid path args env
  | _ =>
    refine Keeps.holds ?_
    exact exec_settled (.refl _) noFrame_aside
      (fun _ subcmd body h h' => (debugging_kept h h' subcmd body).under) nofun nofun

theorem runOps_inLockstep (ops : List Op) : ∀ pid,
    Holds (InLockstep pid) (runOps serveDSMSG ops) fun _ c =>
      InLockstep (ops.foldl pidAfter pid) c := by
  induction ops with
  | nil => exact fun _ => .pure fun _ hc => hc
  | cons op ops ih =>
      intro pid
      exact (exec_inLockstep pid op).bind fun _ => (ih _).bind fun _ => .pure fun _ hc => hc

/-! ## Results -/

/-- The agent's memory, read in pieces. -/
theorem memory_append (addr m n : Nat) :
    Pdebug.memory addr m ++ Pdebug.memory (addr + m) n = Pdebug.memory addr (m + n) := by
  simp [Pdebug.memory, List.range_add, Nat.add_assoc]

/-- Addresses count modulo 256 only, so it does not matter that they wrap. -/
theorem memory_mod (addr n : Nat) : Pdebug.memory (addr % 2 ^ 64) n = Pdebug.memory addr n := by
  unfold Pdebug.memory
  refine List.map_congr_left ?_
  intro i _
  rw [← UInt8.toNat_inj, UInt8.toNat_ofNat', UInt8.toNat_ofNat']
  omega

/-- One round of `ReadMemory` continues the bytes read so far. -/
theorem memory_chunk (addr : UInt64) (m : Nat) {want : Nat} (hwant : want < 2 ^ 16) :
    Pdebug.memory addr.toNat m ++
        Pdebug.memrd (memrdBody (addr + UInt64.ofNat m) want) =
      Pdebug.memory addr.toNat (m + want) := by
  have hwrap : (addr + UInt64.ofNat m).toNat = (addr.toNat + m) % 2 ^ 64 := by
    rw [UInt64.toNat_add, UInt64.toNat_ofNat', Nat.add_mod_mod]
  rw [Pdebug.memrd_memrdBody _ hwant, hwrap, memory_mod, memory_append]

@[simp] theorem memory_length (addr n : Nat) : (Pdebug.memory addr n).length = n := by
  simp [Pdebug.memory]

/-- The loop of `ReadMemory` reads to the end: no reply is short. -/
theorem readMemoryLoop_mock (addr : UInt64) (n : Int) (fuel : Nat) :
    ∀ (m : Nat) (c : Client (Served Pdebug)) (s : Pdebug), c.inp = [] → c.peer = ⟨s, []⟩ →
      m ≤ n.toNat → n.toNat ≤ m + fuel →
      ((Client.readMemoryLoop serveDSMSG addr n fuel (Pdebug.memory addr.toNat m)).run c).1 =
        (Pdebug.memory addr.toNat n.toNat, none) := by
  induction fuel with
  | zero =>
      intro m c s _ _ hm hfuel
      obtain rfl : m = n.toNat := by omega
      rfl
  | succ fuel ih =>
      intro m c s hinp hpeer hm hfuel
      rw [Client.readMemoryLoop, memory_length]
      by_cases hmore : (m : Int) < n
      · rw [if_pos hmore]
        generalize hwant : min (n - m).toNat maxChunk = want
        have hpos : 0 < want := by rw [← hwant, maxChunk]; omega
        have hle : want ≤ n.toNat - m := by rw [← hwant]; omega
        have hsmall : want < 2 ^ 16 := by rw [← hwant, maxChunk]; omega
        generalize hdata : Pdebug.memrd (memrdBody (addr + UInt64.ofNat m) want) = data
        have hlen : data.length = want := by
          rw [← hdata, Pdebug.memrd_memrdBody _ hsmall, memory_length]
        have hne : data ≠ [] := by
          intro hnil
          rw [hnil] at hlen
          exact absurd hlen (by simpa using hpos.ne)
        have hrun := transactSub_mock hinp hpeer cmdMemrd 0
          (memrdBody (addr + UInt64.ofNat m) want) rfl (not_aside_message 0x23 0 _ _)
        rw [hdata] at hrun
        dsimp only
        rw [run_bind, Client.transact, hrun]
        have hcode : respCode (reply 0x23 (c.mid + 1) data) ≠ respErr := (by decide : (0x23 : UInt8) ≠ respErr)
        have hbody : respBody (reply 0x23 (c.mid + 1) data) = data := rfl
        dsimp only
        rw [if_neg hcode, hbody, if_neg hne, List.take_of_length_le hlen.le, hlen,
          if_neg (lt_irrefl want), ← hdata, memory_chunk addr m hsmall]
        exact ih _ _ s rfl rfl (by omega) (by omega)
      · rw [if_neg hmore]
        obtain rfl : m = n.toNat := by omega
        rfl

/-- The stop that a Run request leads to. -/
theorem resume_mock {c : Client (Served Pdebug)} {s : Pdebug} (hinp : c.inp = [])
    (hpeer : c.peer = ⟨s, []⟩) (hpid : s.attachedPID < 2 ^ 32) (subcmd : UInt8) (tid : Nat) :
    ((Client.resume serveDSMSG subcmd tid).run c).1 =
      (.stop ⟨0x40, s.attachedPID, 1, s.stopped (c.mid + 1)⟩, none) := by
  have hrun := transactSub_mock hinp hpeer cmdRun subcmd (runMsg 0 tid) rfl
    (not_aside_message 0x21 0 _ _)
  have hids : pidTid (respBody (s.stopped (c.mid + 1))) = ((s.attachedPID : Int), 1) := by
    have hfirst : leNat ((respBody (s.stopped (c.mid + 1))).take 4) = s.attachedPID := by
      show leNat (leBytes 4 s.attachedPID) = _
      rw [leNat_leBytes]
      exact Nat.mod_eq_of_lt hpid
    rw [pidTid, if_pos (by simp [Pdebug.stopped, respBody, appendLE32, appendLE64]), hfirst]
    rfl
  rw [Client.resume, run_bind, hrun]
  show (Client.waitStop.run _).1 = _
  rw [Client.waitStop_frames (List.forall_mem_nil Aside) (s.stopped_isNotice (c.mid + 1)).debug _ rfl,
    hids]
  rfl

/-- The handshake: the reset frame is echoed, Connect and Protover are answered. -/
theorem newClient_mock : Client.newClient serveDSMSG ⟨.start, []⟩ reset =
    (none, ⟨[], .timeout, ⟨.start, []⟩, 1, [], []⟩) := by
  decide +kernel

/-- **Lockstep.** After any sequence of operations on a new connection to the
mock, every reply returned was the reply to its request, nothing is unread at
either end, memory is read in full, and a process that is resumed stops as the
one attached or launched last, with its number cut to 32 bits. -/
theorem debug_lockstep (ops : List Op) :
    let r := Client.newClient serveDSMSG ⟨.start, []⟩ reset
    let c := ((runOps serveDSMSG ops).run r.2).2
    r.1 = none ∧ c.inp = [] ∧ c.peer.pending = [] ∧ (∀ m ∈ c.replies, IsReply m.1 m.2) ∧
      (∀ base n, (((Op.readMemory base n).exec serveDSMSG).run c).1 =
        (.data ((List.range n.toNat).map fun i => UInt8.ofNat (base.toNat + i)), none)) ∧
      (∃ raw, ((Op.cont.exec serveDSMSG).run c).1 = (.stop ⟨0x40, lastPid ops, 1, raw⟩, none)) ∧
      ∀ tid, ∃ raw,
        (((Op.step tid).exec serveDSMSG).run c).1 = (.stop ⟨0x40, lastPid ops, 1, raw⟩, none) := by
  rw [newClient_mock]
  have hstart : InLockstep Pdebug.start.attachedPID
      (⟨[], .timeout, ⟨.start, []⟩, 1, [], []⟩ : Client (Served Pdebug)) :=
    ⟨⟨[], nofun, rfl⟩, ⟨rfl, rfl⟩, nofun⟩
  have hend := runOps_inLockstep ops _ _ hstart
  dsimp only
  generalize ((runOps serveDSMSG ops).run _).2 = c at hend ⊢
  have hinp := InLockstep.unread_eq hend
  obtain ⟨s, hpeer, hpid⟩ := InLockstep.peer_eq hend
  have hlt : s.attachedPID < 2 ^ 32 := by
    rw [hpid]
    exact lastPid_lt ops
  have hresume := resume_mock hinp hpeer hlt
  rw [hpid] at hresume
  refine ⟨rfl, hinp, hend.idle.pending, hend.matched, ?_, ⟨_, hresume _ _⟩,
    fun tid => ⟨_, hresume _ _⟩⟩
  intro base n
  have hread := readMemoryLoop_mock base n n.toNat 0 c s hinp hpeer (Nat.zero_le _) (by omega)
  show (Value.data ((Client.readMemory serveDSMSG base n).run c).1.1, _) = _
  exact congrArg (fun r : Bytes × Option Err => (Value.data r.1, r.2)) hread

/-- A negative process number comes back as another number. -/
theorem attach_negative_stop :
    let c := (Client.newClient serveDSMSG ⟨.start, []⟩ reset).2
    ((runOps serveDSMSG [.attach (-1), .cont]).run c).1 =
        [(.nothing, none), (.stop ⟨0x40, 4294967295, 1, Pdebug.stopped ⟨4294967295, 0⟩ 3⟩, none)] ∧
      (4294967295 : Int) ≠ -1 := by
  decide +kernel

end QconnMcp.Mock
