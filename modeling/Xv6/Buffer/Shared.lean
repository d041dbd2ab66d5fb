import Xv6.Fs.Block
import Xv6.Lib.Links
import Xv6.Lib.Runs

/-!
# The buffer cache and its processes

`bio.c` with the list through `prev` and `next`, for processes that use it at the
same time. A step is one critical section of `bcache.lock`, of the lock inside a
sleep-lock, or of `log.lock`; a transfer of the disk; or a change that the holder
of a buffer makes to its data.

## Implementation notes

The node `none` is `bcache.head`. `iderw` is a transfer that finishes at some
later time; the process waits for it. Of `log_write` the machine keeps what it
does to the buffer. A commit is not a step of its own: it reads, copies, writes
and releases buffers like any other code. Processes are of an arbitrary type.
Two things are not in the source: whether a holder of a buffer has changed its
data since somebody last called `log_write` or `bwrite`, and the buffers whose
count has gone to zero, latest first.
-/

namespace Xv6.Buffer.Shared
open Fs Lib Function

instance : NeZero NBUF := ⟨by decide⟩

/-- A place in the list: a buffer, or the head. -/
abbrev Node : Type := Option (Fin NBUF)

/-- `struct buf`, without its links. -/
structure Buf (ι : Type) where
  valid : Bool := false
  dirty : Bool := false
  id : BlockId := ⟨0, 0⟩
  /-- The process that has the sleep-lock. -/
  holder : Option ι := none
  refcnt : ℕ := 0
  data : Block := fun _ => 0
  /-- A holder has changed the data since the last call of `log_write` or `bwrite`. -/
  changed : Bool := false

namespace Buf

variable {ι : Type} (b : Buf ι)

/-- `b->refcnt++` -/
@[simps]
def ref : Buf ι := { b with refcnt := b.refcnt + 1 }

/-- `b->refcnt--` -/
@[simps]
def unref : Buf ι := { b with refcnt := b.refcnt - 1 }

/-- What `bget` does to a buffer that it takes for another block. -/
@[simps]
def recycle (id : BlockId) : Buf ι :=
  { b with id := id, valid := false, dirty := false, refcnt := 1 }

/-- `acquiresleep` -/
@[simps]
def lock (p : ι) : Buf ι := { b with holder := some p }

/-- `releasesleep` -/
@[simps]
def unlock : Buf ι := { b with holder := none }

/-- The holder stores into `b->data`. -/
@[simps]
def store (d : Block) : Buf ι := { b with data := d, changed := true }

/-- `b->flags |= B_DIRTY` in `log_write` and `bwrite`. -/
@[simps]
def mark : Buf ι := { b with dirty := true, changed := false }

/-- The transfer of `iderw`, when the disk has `d` in the block. -/
@[simps]
def transfer (d : Block) : Buf ι :=
  { b with valid := true, dirty := false, data := if b.dirty then b.data else d }

end Buf

/-- Where a process is. -/
inductive Pc where
  | idle
  /-- In `bget`, about to call `acquiresleep`. -/
  | acquiring (id : BlockId) (i : Fin NBUF)
  /-- In `bread`, waiting for `iderw`. -/
  | filling (id : BlockId) (i : Fin NBUF)
  /-- In `bwrite`, waiting for `iderw`. -/
  | flushing (i : Fin NBUF)
  /-- In `brelse`, behind `releasesleep`. -/
  | releasing (i : Fin NBUF)
  deriving DecidableEq, Repr

/-- The cache, the disk and the processes. -/
structure Sys (ι : Type) where
  buf : Fin NBUF → Buf ι
  links : Links Node
  disk : BlockId → Block
  pc : ι → Pc
  /-- The buffers whose count has gone to zero, latest first. -/
  idled : List (Fin NBUF)

/-- What a process does. -/
inductive Op where
  | bread (id : BlockId)
  /-- The next step of the call. -/
  | next
  /-- Store into the data of a buffer. -/
  | modify (i : Fin NBUF) (d : Block)
  | logWrite (i : Fin NBUF)
  | bwrite (i : Fin NBUF)
  | brelse (i : Fin NBUF)

/-- `binit`: the list of all buffers, of which the last one is at the front. -/
def binit : Links Node :=
  (List.finRange NBUF).foldl (fun k b => k.insertFront none (some b)) ⟨fun _ => none, fun _ => none⟩

namespace Sys

variable {ι : Type} (s : Sys ι)

@[simps -fullyApplied]
def setBuf (i : Fin NBUF) (b : Buf ι) : Sys ι := { s with buf := update s.buf i b }

@[simps -fullyApplied]
def setDisk (id : BlockId) (d : Block) : Sys ι := { s with disk := update s.disk id d }

/-- Move a buffer to the front of the list. -/
@[simps -fullyApplied]
def toFront (i : Fin NBUF) : Sys ι :=
  { s with
    links := (s.links.unlink (some i)).insertFront none (some i)
    idled := i :: s.idled }

/-- A loop over the list of buffers. No buffer comes up twice, so it looks at `NBUF` of them. -/
def search (step : Node → Node) (p : Fin NBUF → Bool) : Option (Option (Fin NBUF)) :=
  (Links.scan step none (fun n => n.any p) (NBUF + 1) (step none)).map Option.join

/-- The transfer of `iderw`. -/
def iderw (i : Fin NBUF) : Sys ι :=
  let s' := s.setBuf i ((s.buf i).transfer (s.disk (s.buf i).id))
  if (s.buf i).dirty then s'.setDisk (s.buf i).id (s.buf i).data else s'

/-- The last section of `brelse`. -/
def unref (i : Fin NBUF) : Sys ι :=
  let s' := s.setBuf i (s.buf i).unref
  if (s.buf i).refcnt - 1 = 0 then s'.toFront i else s'

@[simp]
lemma iderw_buf (i : Fin NBUF) : (s.iderw i).buf =
    update s.buf i ((s.buf i).transfer (s.disk (s.buf i).id)) := by
  unfold iderw
  split <;> rfl

@[simp]
lemma iderw_pc (i : Fin NBUF) : (s.iderw i).pc = s.pc := by
  unfold iderw
  split <;> rfl

@[simp]
lemma iderw_links (i : Fin NBUF) : (s.iderw i).links = s.links := by
  unfold iderw
  split <;> rfl

@[simp]
lemma iderw_idled (i : Fin NBUF) : (s.iderw i).idled = s.idled := by
  unfold iderw
  split <;> rfl

lemma iderw_disk (i : Fin NBUF) : (s.iderw i).disk =
    if (s.buf i).dirty then update s.disk (s.buf i).id (s.buf i).data else s.disk := by
  unfold iderw
  split <;> rfl

@[simp]
lemma unref_buf (i : Fin NBUF) : (s.unref i).buf = update s.buf i (s.buf i).unref := by
  unfold unref
  split <;> rfl

@[simp]
lemma unref_pc (i : Fin NBUF) : (s.unref i).pc = s.pc := by
  unfold unref
  split <;> rfl

@[simp]
lemma unref_disk (i : Fin NBUF) : (s.unref i).disk = s.disk := by
  unfold unref
  split <;> rfl

end Sys

namespace Sys

variable {ι : Type} [DecidableEq ι] (s : Sys ι) (p : ι)

@[simps -fullyApplied]
def setPc (pc : Pc) : Sys ι := { s with pc := update s.pc p pc }

/-- The section of `bget`. -/
def bget (id : BlockId) : Option (Sys ι) :=
  match search s.links.next fun i => (s.buf i).id = id with
  | none => none
  | some (some i) => some ((s.setBuf i (s.buf i).ref).setPc p (.acquiring id i))
  | some none =>
    match search s.links.prev fun i => (s.buf i).refcnt = 0 ∧ (s.buf i).dirty = false with
    | some (some i) => some ((s.setBuf i ((s.buf i).recycle id)).setPc p (.acquiring id i))
    | _ => none

/-- The next step of a call. -/
def next : Option (Sys ι) :=
  match s.pc p with
  | .idle => none
  | .acquiring id i =>
    if (s.buf i).holder = none then
      some ((s.setBuf i ((s.buf i).lock p)).setPc p
        (if (s.buf i).valid then .idle else .filling id i))
    else none
  | .filling _ i => some ((s.iderw i).setPc p .idle)
  | .flushing i => some ((s.iderw i).setPc p .idle)
  | .releasing i => some ((s.unref i).setPc p .idle)

/-- What a process does with a buffer. Only `bwrite` and `brelse` check that it holds the lock. -/
def use : Op → Option (Sys ι)
  | .modify i d => some (s.setBuf i ((s.buf i).store d))
  | .logWrite i => some (s.setBuf i (s.buf i).mark)
  | .bwrite i =>
    if (s.buf i).holder = some p then
      some ((s.setBuf i (s.buf i).mark).setPc p (.flushing i))
    else none
  | .brelse i =>
    if (s.buf i).holder = some p then
      some ((s.setBuf i (s.buf i).unlock).setPc p (.releasing i))
    else none
  | _ => none

/-- One step of process `p`. -/
def step (m : ι × Op) : Option (Sys ι) :=
  match m.2 with
  | .next => s.next m.1
  | op =>
    if s.pc m.1 = .idle then
      match op with
      | .bread id => s.bget m.1 id
      | op => s.use m.1 op
    else none

end Sys

/-- The cache behind `binit`, over a disk. -/
def Sys.init {ι : Type} (disk : BlockId → Block) : Sys ι where
  buf := fun _ => {}
  links := binit
  disk := disk
  pc := fun _ => .idle
  idled := []

/-- Everything that a step can be, with its guards. -/
inductive Moved {ι : Type} [DecidableEq ι] (s : Sys ι) : ι × Op → Sys ι → Prop
  /-- `bget` finds the block. -/
  | hit {p : ι} {id : BlockId} {i : Fin NBUF} (hpc : s.pc p = .idle)
      (hfind : Sys.search s.links.next (fun i => (s.buf i).id = id) = some (some i)) :
      Moved s (p, .bread id) ((s.setBuf i (s.buf i).ref).setPc p (.acquiring id i))
  /-- `bget` takes a buffer for the block. -/
  | recycle {p : ι} {id : BlockId} {i : Fin NBUF} (hpc : s.pc p = .idle)
      (hnone : Sys.search s.links.next (fun i => (s.buf i).id = id) = some none)
      (hfind : Sys.search s.links.prev
        (fun i => (s.buf i).refcnt = 0 ∧ (s.buf i).dirty = false) = some (some i)) :
      Moved s (p, .bread id) ((s.setBuf i ((s.buf i).recycle id)).setPc p (.acquiring id i))
  | lock {p : ι} {id : BlockId} {i : Fin NBUF} (hpc : s.pc p = .acquiring id i)
      (hfree : (s.buf i).holder = none) :
      Moved s (p, .next) ((s.setBuf i ((s.buf i).lock p)).setPc p
        (if (s.buf i).valid then .idle else .filling id i))
  | transfer {p : ι} {i : Fin NBUF}
      (hpc : (∃ id, s.pc p = .filling id i) ∨ s.pc p = .flushing i) :
      Moved s (p, .next) ((s.iderw i).setPc p .idle)
  | unref {p : ι} {i : Fin NBUF} (hpc : s.pc p = .releasing i) :
      Moved s (p, .next) ((s.unref i).setPc p .idle)
  | modify {p : ι} {i : Fin NBUF} {d : Block} (hpc : s.pc p = .idle) :
      Moved s (p, .modify i d) (s.setBuf i ((s.buf i).store d))
  | logWrite {p : ι} {i : Fin NBUF} (hpc : s.pc p = .idle) :
      Moved s (p, .logWrite i) (s.setBuf i (s.buf i).mark)
  | bwrite {p : ι} {i : Fin NBUF} (hpc : s.pc p = .idle) (hheld : (s.buf i).holder = some p) :
      Moved s (p, .bwrite i) ((s.setBuf i (s.buf i).mark).setPc p (.flushing i))
  | brelse {p : ι} {i : Fin NBUF} (hpc : s.pc p = .idle) (hheld : (s.buf i).holder = some p) :
      Moved s (p, .brelse i) ((s.setBuf i (s.buf i).unlock).setPc p (.releasing i))

namespace Moved

variable {ι : Type} [DecidableEq ι] {s s' : Sys ι} {p : ι}

lemma of_bget {id : BlockId} (hpc : s.pc p = .idle) (h : s.bget p id = some s') :
    Moved s (p, .bread id) s' := by
  unfold Sys.bget at h
  split at h
  · cases h
  · rename_i i hfind
    cases h
    exact .hit hpc hfind
  rename_i hnone
  split at h
  · rename_i i hfind
    cases h
    exact .recycle hpc hnone hfind
  · cases h

lemma of_next (h : s.next p = some s') : Moved s (p, .next) s' := by
  unfold Sys.next at h
  split at h
  · cases h
  · rename_i id i hpc
    obtain ⟨hfree, rfl⟩ := of_guard h
    exact .lock hpc hfree
  · rename_i id i hpc
    cases h
    exact .transfer (.inl ⟨id, hpc⟩)
  · rename_i i hpc
    cases h
    exact .transfer (.inr hpc)
  rename_i i hpc
  cases h
  exact .unref hpc

lemma of_step {m : ι × Op} (h : s.step m = some s') : Moved s m s' := by
  obtain ⟨p, op⟩ := m
  have hidle : ∀ {x : Option (Sys ι)}, (if s.pc p = .idle then x else none) = some s' →
      s.pc p = .idle ∧ x = some s' := by
    intro x hx
    split at hx
    · rename_i hpc
      exact ⟨hpc, hx⟩
    · cases hx
  have hheld : ∀ {i : Fin NBUF} {x : Sys ι},
      (if (s.buf i).holder = some p then some x else none) = some s' →
      (s.buf i).holder = some p ∧ x = s' := by
    intro i x hx
    split at hx
    · rename_i hi
      exact ⟨hi, Option.some.inj hx⟩
    · cases hx
  cases op with
  | next => exact of_next h
  | bread id =>
    obtain ⟨hpc, h⟩ := hidle h
    exact of_bget hpc h
  | modify i d =>
    obtain ⟨hpc, h⟩ := hidle h
    cases h
    exact .modify hpc
  | logWrite i =>
    obtain ⟨hpc, h⟩ := hidle h
    cases h
    exact .logWrite hpc
  | bwrite i =>
    obtain ⟨hpc, h⟩ := hidle h
    obtain ⟨hi, rfl⟩ := hheld h
    exact .bwrite hpc hi
  | brelse i =>
    obtain ⟨hpc, h⟩ := hidle h
    obtain ⟨hi, rfl⟩ := hheld h
    exact .brelse hpc hi

end Moved
end Xv6.Buffer.Shared
