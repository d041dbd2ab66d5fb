import Xv6.Lib.Ring
import Xv6.Lib.Runs

/-!
# The pipe of `pipe.c`

A step is one critical section of `p->lock`: a call of `pipewrite` or `piperead`
from an `acquire`, or from its return out of `sleep`, up to the next `sleep` or
the return of the call; and `pipeclose`. `kill` takes `ptable.lock` only.

## Implementation notes

The channels `&p->nread` and `&p->nwrite` are slept on and woken with `p->lock`
held, so a wakeup inside a section shows at its end. A call of `kill` may fall
between the test of `killed` and the call of `sleep` behind it; the process then
sleeps though it is killed. Processes are of an arbitrary type. The last four
components of the state are not in the source: they record the buffers of the
calls of `pipewrite`, which byte each call has stored in which order, what each
call has returned, and the bytes that calls of `piperead` have returned.
-/

namespace Xv6.Piping
open Lib

def PIPESIZE : ℕ := 512

instance : NeZero PIPESIZE := ⟨by decide⟩

/-- `struct pipe` -/
structure Pipe where
  data : Fin PIPESIZE → UInt8
  nread : UInt32
  nwrite : UInt32
  readopen : Bool
  writeopen : Bool

namespace Pipe

variable (p : Pipe)

/-- `p->nwrite == p->nread + PIPESIZE` -/
def Full : Prop := p.nwrite = p.nread + UInt32.ofNat PIPESIZE

instance : Decidable p.Full := inferInstanceAs (Decidable (_ = _))

/-- `p->nread == p->nwrite` -/
def Empty : Prop := p.nread = p.nwrite

instance : Decidable p.Empty := inferInstanceAs (Decidable (_ = _))

/-- `p->data[p->nwrite++ % PIPESIZE] = b` -/
@[simps]
def put (b : UInt8) : Pipe :=
  { p with
    data := Function.update p.data (Fin.ofNat PIPESIZE p.nwrite.toNat) b
    nwrite := p.nwrite + 1 }

/-- `p->data[p->nread++ % PIPESIZE]`: the byte. -/
def front : UInt8 := p.data (Fin.ofNat PIPESIZE p.nread.toNat)

/-- `p->data[p->nread++ % PIPESIZE]`: the pipe behind it. -/
@[simps]
def drop : Pipe := { p with nread := p.nread + 1 }

/-- The part of `pipeclose` that marks the end as closed. -/
@[simps]
def close (writable : Bool) : Pipe :=
  { p with
    readopen := p.readopen && writable
    writeopen := p.writeopen && !writable }

/-- Both ends are closed, and the page has been freed. -/
def Freed : Prop := p.readopen = false ∧ p.writeopen = false

instance : Decidable p.Freed := inferInstanceAs (Decidable (_ ∧ _))

end Pipe

/-- How a section of `pipewrite` ends. -/
inductive WriteEnd where
  /-- All bytes are stored, and the call returns their number. -/
  | done
  /-- The call returns -1. -/
  | broken (rest : List UInt8)
  | asleep (rest : List UInt8)
  deriving DecidableEq, Repr

/-- A section of `pipewrite` with the bytes that are left to write. The result has the
bytes that it has stored. -/
def pipewrite (killed : Bool) (p : Pipe) : List UInt8 → Pipe × List UInt8 × WriteEnd
  | [] => (p, [], .done)
  | b :: rest =>
    if p.Full then
      if p.readopen = false ∨ killed then (p, [], .broken (b :: rest))
      else (p, [], .asleep (b :: rest))
    else
      let r := pipewrite killed (p.put b) rest
      (r.1, b :: r.2.1, r.2.2)

/-- How a section of `piperead` ends. -/
inductive ReadEnd where
  /-- The call returns the number of these bytes. -/
  | done (bytes : List UInt8)
  /-- The call returns -1. -/
  | broken
  | asleep
  deriving DecidableEq, Repr

/-- The loop of `piperead` that copies at most `n` bytes out. -/
def copyOut (p : Pipe) : ℕ → Pipe × List UInt8
  | 0 => (p, [])
  | n + 1 =>
    if p.Empty then (p, [])
    else
      let r := copyOut p.drop n
      (r.1, p.front :: r.2)

/-- A section of `piperead`. -/
def piperead (killed : Bool) (p : Pipe) (n : ℕ) : Pipe × ReadEnd :=
  if p.Empty ∧ p.writeopen = true then (p, if killed then .broken else .asleep)
  else
    let r := copyOut p n
    (r.1, .done r.2)

/-- Where a process is. A call of `pipewrite` is known by its number. -/
inductive Place where
  | idle
  | writing (call : ℕ) (rest : List UInt8)
  /-- `SLEEPING` on `&p->nwrite`. -/
  | writeAsleep (call : ℕ) (rest : List UInt8)
  | reading (n : ℕ)
  /-- `SLEEPING` on `&p->nread`. -/
  | readAsleep (n : ℕ)
  deriving DecidableEq, Repr

/-- `wakeup(&p->nread)` -/
def Place.wakeReader : Place → Place
  | .readAsleep n => .reading n
  | a => a

/-- `wakeup(&p->nwrite)` -/
def Place.wakeWriter : Place → Place
  | .writeAsleep call rest => .writing call rest
  | a => a

/-- What `kill` does to the state of the process. -/
def Place.wake (a : Place) : Place := a.wakeReader.wakeWriter

/-- The pipe and the processes that use it. -/
structure Sys (ι : Type) where
  pipe : Pipe
  place : ι → Place
  killed : ι → Bool
  /-- The buffers of the calls of `pipewrite`. -/
  buffers : List (List UInt8)
  /-- The bytes that have been stored, each with its call. -/
  stored : List (ℕ × UInt8)
  /-- The calls of `pipewrite` that have returned, with what they have returned. -/
  wrote : List (ℕ × ℤ)
  /-- The bytes that calls of `piperead` have returned. -/
  taken : List UInt8

/-- Who moves. -/
inductive Move (ι : Type) where
  /-- Call `pipewrite`. -/
  | write (i : ι) (buffer : List UInt8)
  /-- Call `piperead`. -/
  | read (i : ι) (n : ℕ)
  /-- Take the lock and go on; `late` tells whether `kill` is called before `sleep`. -/
  | run (i : ι) (late : Bool)
  | pipeclose (writable : Bool)
  | kill (i : ι)
  deriving DecidableEq, Repr

namespace Sys

variable {ι : Type} [DecidableEq ι] (s : Sys ι)

@[simps]
def setPipe (p : Pipe) : Sys ι := { s with pipe := p }

@[simps]
def setPlace (i : ι) (a : Place) : Sys ι := { s with place := Function.update s.place i a }

@[simps]
def wakeReaders : Sys ι := { s with place := fun i => (s.place i).wakeReader }

@[simps]
def wakeWriters : Sys ι := { s with place := fun i => (s.place i).wakeWriter }

@[simps]
def setKilled (i : ι) (b : Bool) : Sys ι := { s with killed := Function.update s.killed i b }

@[simps]
def newBuffer (buffer : List UInt8) : Sys ι := { s with buffers := s.buffers ++ [buffer] }

@[simps]
def store (call : ℕ) (bytes : List UInt8) : Sys ι :=
  { s with stored := s.stored ++ bytes.map (call, ·) }

@[simps]
def returnWrite (call : ℕ) (n : ℤ) : Sys ι := { s with wrote := s.wrote ++ [(call, n)] }

@[simps]
def returnRead (bytes : List UInt8) : Sys ι := { s with taken := s.taken ++ bytes }

/-- The value that a call of `pipewrite` returns when it has stored its buffer. -/
def size (call : ℕ) : ℤ := (s.buffers.getD call []).length

/-- Process `i` goes on in `pipewrite`. -/
def runWrite (i : ι) (late : Bool) (call : ℕ) (rest : List UInt8) : Sys ι :=
  let r := pipewrite (s.killed i) s.pipe rest
  let s' := (s.setPipe r.1).store call r.2.1
  match r.2.2 with
  | .done => (s'.wakeReaders.setPlace i .idle).returnWrite call (s.size call)
  | .broken _ => (s'.setPlace i .idle).returnWrite call (-1)
  | .asleep rest' =>
    (s'.wakeReaders.setPlace i (.writeAsleep call rest')).setKilled i (s.killed i || late)

/-- Process `i` goes on in `piperead`. -/
def runRead (i : ι) (late : Bool) (n : ℕ) : Sys ι :=
  let r := piperead (s.killed i) s.pipe n
  let s' := s.setPipe r.1
  match r.2 with
  | .done bytes => (s'.wakeWriters.setPlace i .idle).returnRead bytes
  | .broken => s'.setPlace i .idle
  | .asleep => (s'.setPlace i (.readAsleep n)).setKilled i (s.killed i || late)

/-- `pipeclose` -/
def pipeclose (writable : Bool) : Sys ι :=
  let s' := s.setPipe (s.pipe.close writable)
  if writable then s'.wakeReaders else s'.wakeWriters

/-- One step. Nobody uses the pipe when it has been freed. -/
def step : Move ι → Option (Sys ι)
  | .write i buffer =>
    if s.place i = .idle then
      some ((s.setPlace i (.writing s.buffers.length buffer)).newBuffer buffer)
    else none
  | .read i n => if s.place i = .idle then some (s.setPlace i (.reading n)) else none
  | .run i late =>
    if s.pipe.Freed then none
    else
      match s.place i with
      | .writing call rest => some (s.runWrite i late call rest)
      | .reading n => some (s.runRead i late n)
      | _ => none
  | .pipeclose writable => if s.pipe.Freed then none else some (s.pipeclose writable)
  | .kill i => some ((s.setKilled i true).setPlace i (s.place i).wake)

end Sys

variable {ι : Type} [DecidableEq ι]

/-- The pipe behind `pipealloc`; the page has any bytes in it. -/
def Sys.init (data : Fin PIPESIZE → UInt8) (killed : ι → Bool) : Sys ι where
  pipe := { data := data, nread := 0, nwrite := 0, readopen := true, writeopen := true }
  place := fun _ => .idle
  killed := killed
  buffers := []
  stored := []
  wrote := []
  taken := []

/-- The states that are reached from `pipealloc` by moves that meet `ok`. -/
def Sys.Reached (ok : Sys ι → Move ι → Prop) (s : Sys ι) : Prop :=
  ∃ data killed, Reaches Sys.step ok (Sys.init data killed) s

lemma Sys.exists_reached (ok : Sys ι → Move ι → Prop) [∀ s m, Decidable (ok s m)]
    (data : Fin PIPESIZE → UInt8) (killed : ι → Bool) (ms : List (Move ι)) (P : Sys ι → Prop)
    [DecidablePred P]
    (h : (execAll Sys.step ok (Sys.init data killed) ms).any (fun s => decide (P s)) = true) :
    ∃ s, Sys.Reached ok s ∧ P s := by
  obtain ⟨s, hreach, hP⟩ := exists_of_execAll Sys.step ok (Sys.init data killed) ms P h
  exact ⟨s, ⟨data, killed, hreach⟩, hP⟩

/-- Everything that a step can be. -/
inductive Moved (s : Sys ι) : Move ι → Sys ι → Prop
  | write {i : ι} {buffer : List UInt8} (hplace : s.place i = .idle) :
      Moved s (.write i buffer) ((s.setPlace i (.writing s.buffers.length buffer)).newBuffer buffer)
  | read {i : ι} {n : ℕ} (hplace : s.place i = .idle) :
      Moved s (.read i n) (s.setPlace i (.reading n))
  | runWrite {i : ι} {late : Bool} {call : ℕ} {rest : List UInt8}
      (hplace : s.place i = .writing call rest) :
      Moved s (.run i late) (s.runWrite i late call rest)
  | runRead {i : ι} {late : Bool} {n : ℕ} (hplace : s.place i = .reading n) :
      Moved s (.run i late) (s.runRead i late n)
  | pipeclose {writable : Bool} : Moved s (.pipeclose writable) (s.pipeclose writable)
  | kill {i : ι} : Moved s (.kill i) ((s.setKilled i true).setPlace i (s.place i).wake)

lemma Moved.of_step {s s' : Sys ι} {m : Move ι} (h : s.step m = some s') : Moved s m s' := by
  cases m with
  | write i buffer =>
    obtain ⟨hplace, rfl⟩ := of_guard h
    exact .write hplace
  | read i n =>
    obtain ⟨hplace, rfl⟩ := of_guard h
    exact .read hplace
  | run i late =>
    simp only [Sys.step] at h
    split at h
    · cases h
    split at h
    · rename_i hplace
      cases h
      exact .runWrite hplace
    · rename_i hplace
      cases h
      exact .runRead hplace
    · cases h
  | pipeclose writable =>
    simp only [Sys.step] at h
    split at h
    · cases h
    cases h
    exact .pipeclose
  | kill i =>
    cases h
    exact .kill

end Xv6.Piping
