import QconnMcp.Kit.Bytes

/-!
# A plain file store

What a file service is for, without any of its texts: a map from paths to byte
strings, and descriptors that stand for paths. Opening may empty the file, a write
zero-extends and overwrites, a delete removes the path, a read returns the stored
slice. A descriptor that was never handed out stands for no path. Closing one has no
effect on the files.
-/

namespace QconnMcp.Kit

/-- Files under paths of type `α`, and the path behind each descriptor. -/
structure Store (α : Type) where
  files : α → Option Bytes
  fds : Nat → Option α
  /-- The number of the next descriptor. -/
  next : Nat
  fresh : ∀ fd, next ≤ fd → fds fd = none

namespace Store

inductive Request (α : Type) where
  | openFile (path : α) (trunc : Bool)
  | read (fd off n : Nat)
  | write (fd off : Nat) (data : Bytes)
  | delete (path : α)
  | close (fd : Nat)
  deriving DecidableEq, Repr

inductive Report (α : Type) where
  | opened (fd size : Nat) (path : α)
  | data (d : Bytes)
  | count (n : Nat)
  | done
  deriving DecidableEq, Repr

variable {α : Type}

/-- Nothing stored, and descriptors counted from `first`. -/
def empty (first : Nat) : Store α := ⟨fun _ => none, fun _ => none, first, fun _ _ => rfl⟩

/-- A path that is not there holds nothing. -/
def content (st : Store α) (path : α) : Bytes := (st.files path).getD []

/-- The content a descriptor gives access to. -/
def contentAt (st : Store α) (fd : Nat) : Bytes :=
  match st.fds fd with
  | none => []
  | some path => st.content path

variable [DecidableEq α]

def put (st : Store α) (path : α) (b : Option Bytes) : Store α :=
  { st with files := Function.update st.files path b }

/-- Hand out the next descriptor. -/
def assign (st : Store α) (path : α) : Store α where
  files := st.files
  fds := Function.update st.fds st.next (some path)
  next := st.next + 1
  fresh := by
    intro fd hfd
    rw [Function.update_of_ne (Nat.ne_of_gt hfd)]
    exact st.fresh fd (Nat.le_of_succ_le hfd)

def step (st : Store α) : Request α → Store α × Report α
  | .openFile path trunc =>
      let st' := if trunc then st.put path (some []) else st
      (st'.assign path, .opened st.next (st'.content path).length path)
  | .read fd off n => (st, .data (((st.contentAt fd).drop off).take n))
  | .write fd off data =>
      (match st.fds fd with
        | none => st
        | some path => st.put path (some (overwrite (st.content path) off data)),
        .count data.length)
  | .delete path => (st.put path none, .done)
  | .close _ => (st, .done)

/-- The reports on a sequence of requests. -/
def reports (st : Store α) : List (Request α) → List (Report α)
  | [] => []
  | r :: rs => (st.step r).2 :: reports (st.step r).1 rs

/-- A path that is removed reads as one that is emptied. -/
theorem getD_update (files : α → Option Bytes) (path : α) (b : Option Bytes) :
    (fun q => (Function.update files path b q).getD []) =
      Function.update (fun q => (files q).getD []) path (b.getD []) :=
  Function.comp_update (Option.getD · []) files path b

theorem content_put (st : Store α) (path : α) (b : Option Bytes) :
    (st.put path b).content = Function.update st.content path (b.getD []) :=
  getD_update st.files path b

/-- Emptying a file that holds nothing changes no content. -/
theorem content_put_nil {st : Store α} {path : α} {b : Option Bytes} (hb : b.getD [] = [])
    (h : st.content path = []) : (st.put path b).content = st.content := by
  rw [content_put, hb, ← h, Function.update_eq_self]

end Store

end QconnMcp.Kit
