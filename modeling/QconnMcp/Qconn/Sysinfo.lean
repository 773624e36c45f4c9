import QconnMcp.Kit.Grouping
import QconnMcp.Qconn.Framing

/-!
# Process listings

`parsePidinThreads` of `internal/qconn/sysinfo.go`. `pidin` prints a line for each
thread, in any order and between headers and noise; the parser groups the threads by
process. It is the one-pass grouping of `Kit.Grouping` over the data lines, so the
grouping is a stable partition of these lines (`parsePidinThreads_partition`).
-/

namespace QconnMcp.Qconn

open Kit

structure Thread where
  tid : Int
  priority : Bytes
  state : Bytes
  blocked : Bytes
  deriving DecidableEq, Repr

structure Process where
  pid : Int
  name : Bytes
  numThreads : Int
  threads : List Thread
  deriving DecidableEq, Repr

/-- `strconv.Atoi`. -/
def atoi (s : Bytes) : Option Int :=
  match parseInt 10 s with
  | (v, none) => some v
  | (_, some _) => none

/-- A line of the listing that stands for a thread. -/
structure DataLine where
  pid : Int
  name : Bytes
  thread : Thread
  deriving DecidableEq, Repr

/-- What the loop makes of a line: five columns at least, and numbers in the first
two. -/
def dataLine (ln : Bytes) : Option DataLine :=
  match fields ln with
  | f0 :: f1 :: name :: prio :: state :: rest =>
      match atoi f0, atoi f1 with
      | some pid, some tid => some ⟨pid, name, ⟨tid, prio, state, [32].intercalate rest⟩⟩
      | _, _ => none
  | _ => none

/-- `&Process{PID: pid, Name: name}`. -/
def DataLine.newProcess (l : DataLine) : Process := ⟨l.pid, l.name, 0, []⟩

def DataLine.addThread (l : DataLine) (p : Process) : Process :=
  { p with
    threads := p.threads ++ [l.thread]
    numThreads := ((p.threads ++ [l.thread]).length : Nat) }

/-- One round of the loop. -/
def pidinLine (g : Groups Int Process) (ln : Bytes) : Groups Int Process :=
  match dataLine ln with
  | none => g
  | some l => g.put l.pid l.newProcess l.addThread

def parsePidinThreads (out : Bytes) : List Process :=
  ((splitLines out).foldl pidinLine Groups.empty).values

/-! ## The partition -/

/-- The data lines of a listing. -/
def dataLines (out : Bytes) : List DataLine := (splitLines out).filterMap dataLine

theorem foldl_pidinLine (lines : List Bytes) (g : Groups Int Process) :
    lines.foldl pidinLine g =
      (lines.filterMap dataLine).foldl
        (fun g l => g.put l.pid l.newProcess l.addThread) g := by
  induction lines generalizing g with
  | nil => rfl
  | cons ln lines ih =>
      rw [List.foldl_cons, ih, pidinLine]
      cases hln : dataLine ln with
      | none => rw [List.filterMap_cons_none hln]
      | some l => rw [List.filterMap_cons_some hln, List.foldl_cons]

/-- The process that lines add up to. -/
theorem foldl_addThread (ls : List DataLine) {p : Process}
    (h : p.numThreads = p.threads.length) :
    let q := ls.foldl (fun p l => l.addThread p) p
    q.pid = p.pid ∧ q.name = p.name ∧ q.threads = p.threads ++ ls.map DataLine.thread ∧
      q.numThreads = q.threads.length := by
  induction ls generalizing p with
  | nil => exact ⟨rfl, rfl, (List.append_nil _).symm, h⟩
  | cons l ls ih =>
      obtain ⟨hpid, hname, hthreads, hnum⟩ := ih (p := l.addThread p) rfl
      refine ⟨hpid, hname, ?_, hnum⟩
      rw [List.foldl_cons, hthreads, DataLine.addThread, List.append_assoc]
      rfl

/-- The groups of a listing. -/
def pidinGroups (out : Bytes) : Groups Int Process :=
  Groups.collect DataLine.pid DataLine.newProcess DataLine.addThread (dataLines out)

theorem parsePidinThreads_eq (out : Bytes) : parsePidinThreads out = (pidinGroups out).values := by
  rw [parsePidinThreads, foldl_pidinLine]
  rfl

/-- The process of a number: its lines, in order, and the name on the first. -/
theorem lookup_pidinGroups {out : Bytes} {pid : Int} {p : Process}
    (h : (pidinGroups out).entries.lookup pid = some p) :
    p.pid = pid ∧ p.threads = ((dataLines out).filter (·.pid = pid)).map DataLine.thread ∧
      p.numThreads = p.threads.length ∧
      ((dataLines out).find? (·.pid = pid)).map DataLine.name = some p.name := by
  rw [pidinGroups, Groups.lookup_collect] at h
  obtain ⟨l, hl, rfl⟩ := Option.map_eq_some_iff.mp h
  have hpid : l.pid = pid := by simpa using List.find?_some hl
  obtain ⟨hp, hname, hthreads, hnum⟩ :=
    foldl_addThread ((dataLines out).filter (·.pid = pid)) (p := l.newProcess) rfl
  refine ⟨hp.trans hpid, hthreads, hnum, ?_⟩
  rw [hname, hl]
  rfl

/-- **A stable partition.** The processes of a listing have different numbers and come
in the order in which these first appear; each holds exactly the threads of its own
lines, in line order, under the name of the first of them; and no line is lost. -/
theorem parsePidinThreads_partition (out : Bytes) :
    let lines := dataLines out
    let procs := parsePidinThreads out
    (procs.map Process.pid).Nodup ∧
      (procs.map Process.pid).Pairwise (fun a b =>
        (lines.map DataLine.pid).idxOf a < (lines.map DataLine.pid).idxOf b) ∧
      (∀ pid, pid ∈ procs.map Process.pid ↔ pid ∈ lines.map DataLine.pid) ∧
      (∀ p ∈ procs, p.threads = (lines.filter (·.pid = p.pid)).map DataLine.thread ∧
        p.numThreads = p.threads.length ∧
        (lines.find? (·.pid = p.pid)).map DataLine.name = some p.name) ∧
      (procs.map fun p => p.threads.length).sum = lines.length := by
  intro lines procs
  have hprocs : procs = (pidinGroups out).values := parsePidinThreads_eq out
  have hpids : procs.map Process.pid = (pidinGroups out).order := by
    rw [hprocs, Groups.map_values _ Process.pid id fun _ _ h => (lookup_pidinGroups h).1, List.map_id]
  rw [hpids]
  refine ⟨Groups.nodup_order_collect _ _ _ _, Groups.order_collect _ _ _ _,
    Groups.mem_order_collect _ _ _ _, ?_, ?_⟩
  · intro p hp
    rw [hprocs] at hp
    obtain ⟨pid, -, hlookup⟩ := List.mem_filterMap.mp hp
    obtain ⟨rfl, hthreads, hnum, hname⟩ := lookup_pidinGroups hlookup
    exact ⟨hthreads, hnum, hname⟩
  · rw [hprocs, Groups.map_values _ _ fun pid => (lines.filter (·.pid = pid)).length]
    · exact Groups.sum_length_collect _ _ _ _
    · intro pid p hlookup
      rw [(lookup_pidinGroups hlookup).2.1, List.length_map]

/-- Two processes in turns, with a header and a blocked thread. -/
example : parsePidinThreads
      (ascii "pid tid name prio STATE\n1 1 a 10r READY\r\n2 1 b 10r RECEIVE 1\n1 2 x 9f RUNNING") =
    [⟨1, ascii "a", 2, [⟨1, ascii "10r", ascii "READY", []⟩, ⟨2, ascii "9f", ascii "RUNNING", []⟩]⟩,
      ⟨2, ascii "b", 1, [⟨1, ascii "10r", ascii "RECEIVE", ascii "1"⟩]⟩] := by
  decide +kernel

end QconnMcp.Qconn
