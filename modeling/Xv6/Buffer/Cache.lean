import Xv6.Fs.Block
import Xv6.Lib.Exec
import Xv6.Logging.State

/-!
# The buffer cache

`bio.c` over a disk that reads and writes one block at a time, for one process.

## Implementation notes

A buffer is named by its place in `bcache.buf`, and `order` lists the buffers
along `next` from `bcache.head`, most recently released first. The machine also
records every block write that `iderw` has made, in order: a crash leaves the
disk that some first part of these writes makes. `iderw` is synchronous; of the
driver it keeps the tests and the transfer. A process that calls `acquiresleep`
on a buffer that is locked waits for itself.
-/

namespace Xv6.Buffer
open Fs Lib Logging

/-- `struct buf`, without its links. A buffer that was never used has device 0. -/
structure Buf where
  valid : Bool := false
  dirty : Bool := false
  id : BlockId := ⟨0, 0⟩
  locked : Bool := false
  refcnt : ℕ := 0
  data : Block := fun _ => 0

/-- The disk, the writes it has seen, the buffer cache and the log in memory. -/
structure Machine where
  disk : BlockId → Block
  writes : List (BlockId × Block) := []
  buf : Fin NBUF → Buf := fun _ => {}
  order : List (Fin NBUF) := (List.finRange NBUF).reverse
  log : Log

/-- Code of the kernel. -/
abbrev Code (α : Type) : Type := Exec Stop Machine α

/-- Change one buffer. -/
def Machine.setBuf (m : Machine) (i : Fin NBUF) (b : Buf) : Machine :=
  { m with buf := Function.update m.buf i b }

/-- Change a field of one buffer. -/
def updBuf (i : Fin NBUF) (f : Buf → Buf) : Code Unit :=
  Exec.modify fun m => m.setBuf i (f (m.buf i))

/-- `panic`. -/
def panicIf (p : Prop) [Decidable p] (e : Panic) : Code Unit := Exec.stopIf p (.panic e)

/-- `acquiresleep(&b->lock)`. -/
def acquiresleep (i : Fin NBUF) : Code Unit := do
  let m ← Exec.get
  Exec.stopIf (m.buf i).locked Stop.hang
  updBuf i fun b => { b with locked := true }

/-- The buffer that holds a block. -/
def Machine.lookup (m : Machine) (id : BlockId) : Option (Fin NBUF) :=
  m.order.find? fun i => (m.buf i).id = id

/-- The least recently used buffer that nobody uses and that is not dirty. -/
def Machine.recyclable (m : Machine) : Option (Fin NBUF) :=
  m.order.reverse.find? fun i => (m.buf i).refcnt = 0 ∧ (m.buf i).dirty = false

/-- `bget`. -/
def bget (id : BlockId) : Code (Fin NBUF) := do
  let m ← Exec.get
  match m.lookup id with
  | some i =>
    updBuf i fun b => { b with refcnt := b.refcnt + 1 }
    acquiresleep i
    return i
  | none =>
    match m.recyclable with
    | some i =>
      updBuf i fun b => { b with id := id, valid := false, dirty := false, refcnt := 1 }
      acquiresleep i
      return i
    | none => Exec.stop (.panic .bget)

/-- The transfer of `iderw`: write a dirty buffer to the disk, or fill it from there. -/
def Machine.transfer (m : Machine) (i : Fin NBUF) : Machine :=
  let b := m.buf i
  if b.dirty then
    { m.setBuf i { b with valid := true, dirty := false } with
      disk := Function.update m.disk b.id b.data
      writes := m.writes ++ [(b.id, b.data)] }
  else m.setBuf i { b with valid := true, data := m.disk b.id }

/-- `iderw`, with the test of `idestart`. -/
def iderw (i : Fin NBUF) : Code Unit := do
  let m ← Exec.get
  panicIf ((m.buf i).locked = false) .iderwNotLocked
  panicIf ((m.buf i).valid = true ∧ (m.buf i).dirty = false) .iderwNothing
  panicIf (FSSIZE ≤ (m.buf i).id.blockno) .idestart
  Exec.modify fun m => m.transfer i

/-- `bread`. -/
def bread (id : BlockId) : Code (Fin NBUF) := do
  let i ← bget id
  let m ← Exec.get
  if (m.buf i).valid = false then iderw i
  return i

/-- `bwrite`. -/
def bwrite (i : Fin NBUF) : Code Unit := do
  let m ← Exec.get
  panicIf ((m.buf i).locked = false) .bwrite
  updBuf i fun b => { b with dirty := true }
  iderw i

/-- The end of `brelse`: a buffer that nobody waits for goes to the head of the list. -/
def Machine.release (m : Machine) (i : Fin NBUF) : Machine :=
  let b := { m.buf i with locked := false, refcnt := (m.buf i).refcnt - 1 }
  if b.refcnt = 0 then { m.setBuf i b with order := i :: m.order.erase i } else m.setBuf i b

/-- `brelse`. -/
def brelse (i : Fin NBUF) : Code Unit := do
  let m ← Exec.get
  panicIf ((m.buf i).locked = false) .brelse
  Exec.modify fun m => m.release i

/-- Store into `b->data`. -/
def setData (i : Fin NBUF) (f : Block → Block) : Code Unit :=
  updBuf i fun b => { b with data := f b.data }

end Xv6.Buffer
