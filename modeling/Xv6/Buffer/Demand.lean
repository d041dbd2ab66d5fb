import Xv6.Buffer.Clients

/-!
# The buffers that the system needs

Processes read files, and change blocks in operations that `begin_op` admits; the process
that ends the last operation commits. A buffer cannot be taken for another block while a
process holds it or waits for it, nor while it is dirty, and a block that is in the log
stays dirty until the commit has installed it. `bget` panics when no buffer is left.

## Implementation notes

A process outside of a commit makes any calls in any order: `bread` and `brelse`, and inside of
an operation also `log_write`. A commit runs the code of `commit` with the log as it finds it, up to
the end of `end_op`. `log_write` takes one step here. A process that `begin_op` does not admit
takes no step, and neither does the machine behind one of the panics of `log.c`.
-/

namespace Xv6.Buffer.Shared.Demand
open Fs Lib Logging Function

/-- What `commit` does: it calls the cache, and changes the log. -/
inductive LogCall where
  | cache (c : Call)
  /-- `log.lh.n = 0` -/
  | clear
  /-- The last section of `end_op`. -/
  | leave

/-- The calls and their results. -/
def LogCalls : Signature where
  Op := LogCall
  Res
    | .cache c => Calls.Res c
    | .clear => Unit
    | .leave => Unit

/-- Code of `log.c`. -/
abbrev LogCode (α : Type) : Type := Prog LogCalls α

/-- Code that only calls the cache. -/
def cached {α : Type} : Client α → LogCode α
  | .ret a => .ret a
  | .op c k => .op (.cache c) fun r => cached (k r)

def clear : LogCode Unit := Prog.perform (S := LogCalls) .clear

def leave : LogCode Unit := Prog.perform (S := LogCalls) .leave

/-- `commit` and the rest of `end_op`, when the log is `l`. -/
def commit (l : Log) : LogCode Unit := do
  if 0 < l.lh.length then
    cached (l.lh.zipIdx.forM (logBlock l))
    cached (writeHead l)
    cached (l.lh.zipIdx.forM (installBlock l))
    clear
    cached (writeHead { l with lh := [] })
  leave

/-- What a process does to the file system. -/
inductive Mode where
  /-- Nothing, or it reads. -/
  | outside
  /-- It is between `begin_op` and `end_op` and has logged these blocks. -/
  | inOp (writes : Finset ℕ)
  | commit (rest : LogCode Unit)

/-- The cache, the log and the processes. -/
structure Kernel (ι : Type) where
  sys : Sys ι
  log : Log
  mode : ι → Mode

/-- What a process does next. -/
inductive Action where
  /-- A call of the cache, or the next step of such a call. -/
  | call (o : Op)
  | beginOp
  | endOp
  /-- The next step of its commit. -/
  | commit

namespace Kernel

variable {ι : Type} [DecidableEq ι] (w : Kernel ι) (p : ι)

/-- A call outside of a commit. -/
def call : Mode → Op → Option (Kernel ι)
  | .commit _, _ => none
  | _, .bwrite _ => none
  | .inOp writes, .logWrite i =>
    let b := (w.sys.buf i).id.blockno
    if w.log.headerFull ∨ w.log.areaFull ∨ w.log.outstanding < 1 then none
    else (w.sys.step (p, .logWrite i)).map fun s =>
      { sys := s, log := w.log.record b,
        mode := update w.mode p (.inOp (insert b writes)) }
  | .outside, .logWrite _ => none
  | .outside, .modify _ _ => none
  | _, o => (w.sys.step (p, o)).map fun s => { w with sys := s }

/-- The next step of a commit. -/
def commitStep : LogCode Unit → Option (Kernel ι)
  | .ret _ => none
  | .op (.cache c) k =>
    let rest := update w.mode p (.commit (k (w.sys.result p c)))
    match if w.sys.pc p = .idle then c.op else some .next with
    | none => some { w with mode := rest }
    | some o => (w.sys.step (p, o)).map fun s =>
      { w with sys := s, mode := if s.pc p = .idle then rest else w.mode }
  | .op .clear k =>
    some { w with
      log := { w.log with lh := [] }
      mode := update w.mode p (.commit (k ())) }
  | .op .leave _ =>
    some { w with
      log := { w.log with committing := false }
      mode := update w.mode p .outside }

/-- One step of process `p`. -/
def step (m : ι × Action) : Option (Kernel ι) :=
  match m.2, w.mode m.1 with
  | .call o, mode => w.call m.1 mode o
  | .beginOp, .outside =>
    if w.sys.pc m.1 = .idle then
      w.log.beginOp.map fun l =>
        { w with log := l, mode := update w.mode m.1 (.inOp ∅) }
    else none
  | .endOp, .inOp _ =>
    if w.sys.pc m.1 = .idle then
      match w.log.endOp with
      | .error _ => none
      | .ok (l, true) =>
        some { w with log := l, mode := update w.mode m.1 (.commit (Demand.commit l)) }
      | .ok (l, false) => some { w with log := l, mode := update w.mode m.1 .outside }
    else none
  | .commit, .commit rest => w.commitStep m.1 rest
  | _, _ => none

end Kernel

/-- The machine behind `binit` and `initlog`. -/
def boot {ι : Type} (disk : BlockId → Block) (dev : ℕ) (sb : Superblock) : Kernel ι where
  sys := .init disk
  log := initlog dev sb
  mode := fun _ => .outside

namespace Kernel

variable {ι : Type} (w : Kernel ι)

/-- An operation logs buffers that it holds, of the device of the log, and at most `MAXOPBLOCKS`
different blocks. -/
def Admitted (m : ι × Action) : Prop :=
  match m.2, w.mode m.1 with
  | .call (.logWrite i), .inOp writes =>
    (w.sys.buf i).holder = some m.1 ∧ (w.sys.buf i).id.dev = w.log.dev ∧
      (insert (w.sys.buf i).id.blockno writes).card ≤ MAXOPBLOCKS
  | _, _ => True

instance [DecidableEq ι] (m : ι × Action) : Decidable (w.Admitted m) := by
  unfold Admitted
  split <;> infer_instance

/-- The block that the process calls `bget` for. -/
def wants (m : ι × Action) : Option BlockId :=
  if w.sys.pc m.1 = .idle then
    match m.2, w.mode m.1 with
    | .call (.bread _), .commit _ => none
    | .call (.bread id), _ => some id
    | .commit, .commit (.op (.cache (.bread id)) _) => some id
    | _, _ => none
  else none

/-- `panic("bget: no buffers")` -/
def Panics [DecidableEq ι] (m : ι × Action) : Prop :=
  ∃ id, w.wants m = some id ∧ w.sys.bget m.1 id = none

/-- Some process holds the buffer, waits for it or is about to give it back. -/
def Grabbed (i : Fin NBUF) : Prop := (w.sys.buf i).holder ≠ none ∨ ∃ q, 0 < (w.sys.pc q).uses i

instance [Fintype ι] (i : Fin NBUF) : Decidable (w.Grabbed i) := inferInstanceAs (Decidable (_ ∨ _))

/-- The blocks that processes hold or wait for, and those in the log. -/
def busy [Fintype ι] : Finset BlockId :=
  (Finset.univ.filter w.Grabbed).image (fun i => (w.sys.buf i).id) ∪
    (w.log.lh.map fun b => ⟨w.log.dev, b⟩).toFinset

/-- When a process needs a block that is not in the cache, fewer than `NBUF` blocks are busy. -/
def Spare [Fintype ι] (m : ι × Action) : Prop :=
  ∀ id, w.wants m = some id → (∀ i, (w.sys.buf i).id ≠ id) → w.busy.card < NBUF

end Kernel
end Xv6.Buffer.Shared.Demand
