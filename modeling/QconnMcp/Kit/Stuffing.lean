import QconnMcp.Kit.Peer

/-!
# Byte stuffing

Frames on a byte stream, in the manner of HDLC: a delimiter byte stands before
and after each content, and inside a content the delimiter and the escape byte
are replaced by the escape byte and a masked copy. `Stuffing` is such a code for
any three bytes for which it works; `next` is the reader's double loop, which
skips delimiters up to the first byte of a content and then collects the content
up to the delimiter that closes it.

A delimiter is a synchronisation point (`contents_append`): whatever stood before
it, the reader starts afresh behind it.
-/

namespace QconnMcp.Kit

structure Stuffing where
  delim : UInt8
  esc : UInt8
  mask : UInt8
  delim_ne_esc : delim ≠ esc
  /-- The masked copies are no delimiters. -/
  delim_masked : delim ^^^ mask ≠ delim
  esc_masked : esc ^^^ mask ≠ delim

namespace Stuffing

variable (c : Stuffing)

/-! ## Escaping -/

def escape (b : Bytes) : Bytes :=
  b.flatMap fun x => if x = c.delim ∨ x = c.esc then [c.esc, x ^^^ c.mask] else [x]

/-- An escape byte at the very end stands for itself. -/
def unescape : Bytes → Bytes
  | [] => []
  | [x] => [x]
  | x :: y :: rest => if x = c.esc then (y ^^^ c.mask) :: unescape rest else x :: unescape (y :: rest)

theorem escape_append (b b' : Bytes) : c.escape (b ++ b') = c.escape b ++ c.escape b' :=
  List.flatMap_append

theorem delim_not_mem_escape (b : Bytes) : c.delim ∉ c.escape b := by
  intro h
  obtain ⟨x, -, hx⟩ := List.mem_flatMap.mp h
  split at hx
  · rename_i hspecial
    rcases List.mem_pair.mp hx with heq | heq
    · exact c.delim_ne_esc heq
    · rcases hspecial with rfl | rfl
      · exact c.delim_masked heq.symm
      · exact c.esc_masked heq.symm
  · rename_i hplain
    exact hplain (.inl (List.mem_singleton.mp hx).symm)

theorem unescape_masked (y : UInt8) (rest : Bytes) :
    c.unescape (c.esc :: y :: rest) = (y ^^^ c.mask) :: c.unescape rest := by
  simp [unescape]

theorem unescape_plain {x : UInt8} (hx : x ≠ c.esc) (rest : Bytes) :
    c.unescape (x :: rest) = x :: c.unescape rest := by
  cases rest with
  | nil => rfl
  | cons y rest => simp [unescape, hx]

theorem unescape_escape (b : Bytes) : c.unescape (c.escape b) = b := by
  induction b with
  | nil => rfl
  | cons x b ih =>
      have hcons : c.escape (x :: b) =
          (if x = c.delim ∨ x = c.esc then [c.esc, x ^^^ c.mask] else [x]) ++ c.escape b :=
        List.flatMap_cons
      rw [hcons]
      split
      · rw [List.cons_append, List.singleton_append, unescape_masked, ih, UInt8.xor_assoc,
          UInt8.xor_self, UInt8.xor_zero]
      · rename_i hplain
        rw [List.singleton_append, unescape_plain c (fun h => hplain (.inr h)), ih]

/-- Escaping loses nothing, so only the empty string has an empty escape. -/
theorem escape_ne_nil {b : Bytes} (hb : b ≠ []) : c.escape b ≠ [] := by
  intro h
  have := c.unescape_escape b
  rw [h] at this
  exact hb this.symm

/-- A byte that is replaced by another, neither of them an escape byte, leaves the
pairs where they are: one byte of what the text stands for changes. -/
theorem unescape_set {s : Bytes} {i : Nat} {old new : UInt8} (hat : s[i]? = some old)
    (hne : old ≠ new) (hold : old ≠ c.esc) (hnew : new ≠ c.esc) :
    ∃ l x y r, x ≠ y ∧ c.unescape s = l ++ x :: r ∧ c.unescape (s.set i new) = l ++ y :: r := by
  fun_induction unescape c s generalizing i with
  | case1 => cases hat
  | case2 x =>
      obtain ⟨rfl, rfl⟩ : i = 0 ∧ x = old := by
        cases i with
        | zero => exact ⟨rfl, Option.some.inj hat⟩
        | succ i => cases hat
      exact ⟨[], x, new, [], hne, rfl, rfl⟩
  | case3 y rest ih =>
      match i with
      | 0 => exact absurd (Option.some.inj hat).symm hold
      | 1 =>
          -- the masked byte of a pair
          obtain rfl : y = old := Option.some.inj hat
          refine ⟨[], y ^^^ c.mask, new ^^^ c.mask, c.unescape rest, ?_, rfl, c.unescape_masked new rest⟩
          intro h
          exact hne (by simpa [UInt8.xor_assoc] using congrArg (· ^^^ c.mask) h)
      | i + 2 =>
          obtain ⟨l, u, v, r, huv, hs, hset⟩ := ih hat
          refine ⟨(y ^^^ c.mask) :: l, u, v, r, huv, by rw [hs]; rfl, ?_⟩
          show c.unescape (c.esc :: y :: rest.set i new) = _
          rw [unescape_masked, hset]
          rfl
  | case4 x y rest hx ih =>
      cases i with
      | zero =>
          obtain rfl : x = old := Option.some.inj hat
          exact ⟨[], x, new, c.unescape (y :: rest), hne, rfl, c.unescape_plain hnew _⟩
      | succ i =>
          obtain ⟨l, u, v, r, huv, hs, hset⟩ := ih hat
          refine ⟨x :: l, u, v, r, huv, by rw [hs]; rfl, ?_⟩
          show c.unescape (x :: (y :: rest).set i new) = _
          rw [unescape_plain c hx, hset]
          rfl

/-! ## Contents of a stream -/

/-- The next content and what follows the delimiter that closes it. -/
def next (s : Bytes) : Option (Bytes × Bytes) := cut c.delim (s.dropWhile (· == c.delim))

/-- All contents that a delimiter closes, read with `acc` already collected. -/
def contentsFrom : Bytes → Bytes → List Bytes
  | _, [] => []
  | acc, x :: s =>
      if x = c.delim then
        if acc = [] then contentsFrom [] s else acc :: contentsFrom [] s
      else contentsFrom (acc ++ [x]) s

def contents (s : Bytes) : List Bytes := c.contentsFrom [] s

theorem contentsFrom_append (acc s rest : Bytes) :
    c.contentsFrom acc (s ++ c.delim :: rest) =
      c.contentsFrom acc (s ++ [c.delim]) ++ c.contents rest := by
  induction s generalizing acc with
  | nil =>
      by_cases hacc : acc = [] <;> simp [contentsFrom, contents, hacc]
  | cons x s ih =>
      by_cases hx : x = c.delim
      · by_cases hacc : acc = [] <;> simp [contentsFrom, hx, hacc, ih]
      · simp only [List.cons_append, contentsFrom, if_neg hx]
        exact ih _

/-- The contents behind a delimiter do not depend on what is before it. -/
theorem contents_append (s rest : Bytes) :
    c.contents (s ++ c.delim :: rest) = c.contents (s ++ [c.delim]) ++ c.contents rest :=
  c.contentsFrom_append [] s rest

theorem contents_delim (rest : Bytes) : c.contents (c.delim :: rest) = c.contents rest := by
  simp [contents, contentsFrom]

theorem contentsFrom_closed {body : Bytes} (hbody : c.delim ∉ body) (acc rest : Bytes)
    (hne : acc ++ body ≠ []) :
    c.contentsFrom acc (body ++ c.delim :: rest) = (acc ++ body) :: c.contents rest := by
  induction body generalizing acc with
  | nil =>
      rw [List.append_nil] at hne ⊢
      simp [contentsFrom, contents, hne]
  | cons x body ih =>
      have hx : x ≠ c.delim := fun h => hbody (h ▸ List.mem_cons_self)
      rw [List.cons_append, contentsFrom, if_neg hx,
        ih (fun h => hbody (List.mem_cons_of_mem _ h)) _ (by simp), List.append_assoc]
      rfl

theorem contentsFrom_open {body : Bytes} (hbody : c.delim ∉ body) (acc : Bytes) :
    c.contentsFrom acc body = [] := by
  induction body generalizing acc with
  | nil => rfl
  | cons x body ih =>
      have hx : x ≠ c.delim := fun h => hbody (h ▸ List.mem_cons_self)
      rw [contentsFrom, if_neg hx]
      exact ih (fun h => hbody (List.mem_cons_of_mem _ h)) _

theorem contents_dropWhile (s : Bytes) : c.contents (s.dropWhile (· == c.delim)) = c.contents s := by
  induction s with
  | nil => rfl
  | cons x s ih =>
      by_cases hx : x = c.delim
      · subst hx
        rw [List.dropWhile_cons_of_pos (by simp), contents_delim, ih]
      · rw [List.dropWhile_cons_of_neg (by simpa using hx)]

/-- Behind the leading delimiters a content has a byte at least. -/
theorem next_ne_nil {s content rest : Bytes} (h : c.next s = some (content, rest)) :
    content ≠ [] := by
  obtain ⟨-, hs⟩ := cut_some h
  intro hnil
  have hhead := List.head?_dropWhile_not (· == c.delim) s
  rw [hs, hnil] at hhead
  simp at hhead

/-- What a read finds is the first of the contents. -/
theorem contents_of_next {s content rest : Bytes} (h : c.next s = some (content, rest)) :
    c.contents s = content :: c.contents rest ∧ rest.length < s.length := by
  obtain ⟨hcontent, hs⟩ := cut_some h
  have hne := c.next_ne_nil h
  refine ⟨?_, ?_⟩
  · rw [← c.contents_dropWhile s, hs]
    exact c.contentsFrom_closed hcontent [] rest hne
  · have hlen := (List.dropWhile_sublist (l := s) (· == c.delim)).length_le
    rw [hs, List.length_append, List.length_cons] at hlen
    omega

theorem contents_of_next_none {s : Bytes} (h : c.next s = none) : c.contents s = [] := by
  rw [← c.contents_dropWhile s]
  exact c.contentsFrom_open (cut_none h) []

/-- A content between its delimiters is read whole. -/
theorem next_framed {body : Bytes} (hbody : c.delim ∉ body) (hne : body ≠ []) (rest : Bytes) :
    c.next (c.delim :: (body ++ c.delim :: rest)) = some (body, rest) := by
  obtain ⟨x, body', rfl⟩ := List.exists_cons_of_ne_nil hne
  have hx : x ≠ c.delim := fun h => hbody (h ▸ List.mem_cons_self)
  rw [next, List.dropWhile_cons_of_pos (by simp), List.cons_append,
    List.dropWhile_cons_of_neg (by simpa using hx)]
  exact cut_append hbody rest

/-! ## Streams in pieces -/

/-- What has been collected behind the last delimiter of a stream, read with
`acc` already collected. -/
def openFrom : Bytes → Bytes → Bytes
  | acc, [] => acc
  | acc, x :: s => if x = c.delim then openFrom [] s else openFrom (acc ++ [x]) s

/-- The unfinished content at the end of a stream. -/
def unclosed (s : Bytes) : Bytes := c.openFrom [] s

theorem openFrom_of_not_mem {body : Bytes} (hbody : c.delim ∉ body) (acc : Bytes) :
    c.openFrom acc body = acc ++ body := by
  induction body generalizing acc with
  | nil => rw [openFrom, List.append_nil]
  | cons x body ih =>
      have hx : x ≠ c.delim := fun h => hbody (h ▸ List.mem_cons_self)
      rw [openFrom, if_neg hx, ih (fun h => hbody (List.mem_cons_of_mem _ h)), List.append_assoc]
      rfl

theorem delim_not_mem_openFrom {acc : Bytes} (hacc : c.delim ∉ acc) (s : Bytes) :
    c.delim ∉ c.openFrom acc s := by
  induction s generalizing acc with
  | nil => exact hacc
  | cons x s ih =>
      rw [openFrom]
      by_cases hx : x = c.delim
      · rw [if_pos hx]
        exact ih List.not_mem_nil
      · rw [if_neg hx]
        apply ih
        intro hmem
        rcases List.mem_append.mp hmem with hmem | hmem
        · exact hacc hmem
        · exact hx (List.mem_singleton.mp hmem).symm

theorem delim_not_mem_unclosed (s : Bytes) : c.delim ∉ c.unclosed s :=
  c.delim_not_mem_openFrom List.not_mem_nil s

theorem openFrom_append (acc s rest : Bytes) :
    c.openFrom acc (s ++ rest) = c.openFrom (c.openFrom acc s) rest := by
  induction s generalizing acc with
  | nil => rfl
  | cons x s ih => by_cases hx : x = c.delim <;> simp [openFrom, hx, ih]

theorem contentsFrom_openFrom (acc s rest : Bytes) :
    c.contentsFrom acc (s ++ rest) = c.contentsFrom acc s ++ c.contentsFrom (c.openFrom acc s) rest := by
  induction s generalizing acc with
  | nil => rfl
  | cons x s ih =>
      by_cases hx : x = c.delim
      · by_cases hacc : acc = [] <;> simp [contentsFrom, openFrom, hx, hacc, ih]
      · simp [contentsFrom, openFrom, hx, ih]

/-- Nothing but the unfinished content has to be kept for the pieces to come: the
contents of a stream are those of its first piece and those of the rest behind
what the first piece left unfinished. -/
theorem contents_append_unclosed (s rest : Bytes) :
    c.contents (s ++ rest) = c.contents s ++ c.contents (c.unclosed s ++ rest) := by
  have hopen := c.delim_not_mem_unclosed s
  have hfrom : c.contents (c.unclosed s ++ rest) = c.contentsFrom (c.unclosed s) rest := by
    rw [contents, contentsFrom_openFrom, c.contentsFrom_open hopen, c.openFrom_of_not_mem hopen]
    rfl
  rw [hfrom]
  exact c.contentsFrom_openFrom [] s rest

theorem unclosed_append (s rest : Bytes) :
    c.unclosed (s ++ rest) = c.unclosed (c.unclosed s ++ rest) := by
  rw [unclosed, unclosed, c.openFrom_append, c.openFrom_append,
    c.openFrom_of_not_mem (c.delim_not_mem_unclosed s)]
  rfl

theorem unclosed_delim (rest : Bytes) : c.unclosed (c.delim :: rest) = c.unclosed rest := by
  simp [unclosed, openFrom]

theorem unclosed_dropWhile (s : Bytes) :
    c.unclosed (s.dropWhile (· == c.delim)) = c.unclosed s := by
  induction s with
  | nil => rfl
  | cons x s ih =>
      by_cases hx : x = c.delim
      · subst hx
        rw [List.dropWhile_cons_of_pos (by simp), unclosed_delim, ih]
      · rw [List.dropWhile_cons_of_neg (by simpa using hx)]

/-- A read leaves the unfinished content at the end alone. -/
theorem unclosed_of_next {s content rest : Bytes} (h : c.next s = some (content, rest)) :
    c.unclosed s = c.unclosed rest := by
  obtain ⟨-, hs⟩ := cut_some h
  rw [← c.unclosed_dropWhile s, hs, ← c.unclosed_delim rest]
  show c.openFrom [] _ = _
  rw [openFrom_append, openFrom, if_pos rfl, unclosed_delim]
  rfl

/-! ## Frame daemons -/

section Daemon

variable {σ : Type} (handle : σ → Bytes → σ × Bytes)

/-- Consume every complete frame of the pending input. -/
def drain : Nat → σ → Bytes → σ × Bytes × Bytes
  | 0, s, buf => (s, buf, [])
  | fuel + 1, s, buf =>
      match c.next buf with
      | none => (s, buf, [])
      | some (content, rest) =>
          let r := handle s content
          let t := drain fuel r.1 rest
          (t.1, t.2.1, r.2 ++ t.2.2)

/-- A daemon that handles one content after another and never closes. -/
def toPeer : Peer (Served σ) where
  recv s b :=
    let r := c.drain handle (s.pending ++ b).length s.state (s.pending ++ b)
    some (⟨r.1, r.2.1⟩, r.2.2)
  fin _ := .timeout

theorem drain_nil (fuel : Nat) (s : σ) : c.drain handle fuel s [] = (s, [], []) := by
  cases fuel <;> simp [drain, next, cut]

/-- A whole frame is answered at once. -/
theorem recv_framed {body : Bytes} (hbody : c.delim ∉ body) (hne : body ≠ []) (s : σ) :
    (c.toPeer handle).recv ⟨s, []⟩ (c.delim :: (body ++ [c.delim])) =
      some (⟨(handle s body).1, []⟩, (handle s body).2) := by
  simp only [toPeer, List.nil_append, List.length_cons, drain, c.next_framed hbody hne,
    c.drain_nil handle, List.append_nil]

end Daemon

end Stuffing

end QconnMcp.Kit
