import Xv6.Fs.Layout
import Xv6.Lib.Runs
import Xv6.Process.Run

/-!
# Processes from `fork` to `wait`

The machine takes one critical section of `ptable.lock` at a time, and every
write to the table that `fork` makes without the lock is a step of its own: the
failure paths that set the state back, and `np->parent = curproc`. Between two
steps any other process may run, so each process has a program counter for the
calls that take several steps.

## Implementation notes

The scheduler may choose any `RUNNABLE` process: the machine does not follow the
choice between the levels. A process that is not in `fork`, `exit` or `wait` is
`idle`; there it may sleep on any address that is not an entry of the table, and
change its descriptors and its directory. Open files and directories are named
by numbers. The last three components of the state are not in the source. They
record for which slots `kill` has been called since the slot was allocated, which
processes have exited, and what calls of `wait` have returned.
-/

namespace Xv6.Process
open Lib Function

/-- `param.h`: maximum number of CPUs. -/
def NCPU : ℕ := 1

instance : NeZero NCPU := ⟨by decide⟩

/-- Where a process is in `fork`, `exit` or `wait`. -/
inductive Pc where
  | idle
  /-- In `allocproc`, about to allocate the kernel stack of the child. -/
  | allocated (np : Fin NPROC)
  /-- About to copy the page table. -/
  | stacked (np : Fin NPROC)
  /-- About to set the parent of the child. -/
  | copied (np : Fin NPROC)
  /-- About to copy descriptor `fd`, or the working directory. -/
  | linked (np : Fin NPROC) (fd : ℕ)
  /-- About to make the child `RUNNABLE`. -/
  | born (np : Fin NPROC)
  /-- In `exit`, about to close descriptor `fd`, or to give up the working directory. -/
  | closing (fd : ℕ)
  /-- In `exit`, about to enter the critical section. -/
  | leaving
  /-- In `wait`, behind the call of `sched`. -/
  | waiting
  deriving DecidableEq, Repr

/-- The child that a call of `fork` is setting up. -/
def Pc.child : Pc → Option (Fin NPROC)
  | .allocated np => some np
  | .stacked np => some np
  | .copied np => some np
  | .linked np _ => some np
  | .born np => some np
  | _ => none

/-- The places in which a process may call `sleep`. -/
def Pc.mayBlock : Pc → Bool
  | .idle => true
  | .closing _ => true
  | _ => false

/-- The processes with what they hold. -/
structure Sys where
  table : PTable
  /-- `cpus[c].proc` -/
  cpu : Fin NCPU → Option (Fin NPROC)
  pc : Fin NPROC → Pc
  ofile : Fin NPROC → Fin Fs.NOFILE → Option ℕ
  cwd : Fin NPROC → Option ℕ
  /-- `kill` has been called with the pid since `allocproc`. -/
  called : Fin NPROC → Bool
  /-- The pids of the processes that have exited. -/
  exited : List Int32
  /-- The callers and results of `wait`. -/
  waited : List (Fin NPROC × Int32)

/-- What a process that has the CPU does. -/
inductive Action where
  /-- The next step of the call, or of `sleep`; `ok` tells how an allocation turns out. -/
  | next (ok : Bool)
  | fork (now : UInt32)
  | exit
  | wait
  | kill (pid : Int32)
  | sleep (a : ℕ)
  | yield
  | exec
  | changeProcessLevel (pid level : Int32)
  | setProcessTicket (pid ticket : Int32)
  | setProcessRemainingPriority (pid priority : Int32)
  | setFile (fd : Fin Fs.NOFILE) (f : Option ℕ)
  | setCwd (i : ℕ)
  deriving DecidableEq, Repr

/-- Who moves. -/
inductive Move where
  | run (p : Fin NPROC) (a : Action)
  | dispatch (c : Fin NCPU) (p : Fin NPROC)
  /-- `wakeup`, by a process or an interrupt handler. -/
  | wakeup (chan : Chan)
  deriving DecidableEq, Repr

/-- `np->parent = curproc` -/
def forkParent (t : PTable) (cur np : Fin NPROC) : PTable :=
  t.set np { t.proc np with parent := some cur }

/-- `np->state = RUNNABLE` -/
def forkStart (t : PTable) (np : Fin NPROC) : PTable :=
  t.set np { t.proc np with state := .runnable }

namespace Sys

variable (s : Sys) (p : Fin NPROC)

@[simps]
def setTable (t : PTable) : Sys := { s with table := t }

@[simps]
def setPc (pc : Pc) : Sys := { s with pc := update s.pc p pc }

/-- The process gives up its CPU. -/
@[simps]
def leaveCpu : Sys := { s with cpu := fun c => if s.cpu c = some p then none else s.cpu c }

@[simps]
def setFiles (files : Fin Fs.NOFILE → Option ℕ) : Sys := { s with ofile := update s.ofile p files }

@[simps]
def changeDir (i : Option ℕ) : Sys := { s with cwd := update s.cwd p i }

/-- The scheduler of `c` switches to the process. -/
@[simps]
def takeCpu (c : Fin NCPU) : Sys := { s with cpu := update s.cpu c (some p) }

/-- The slot is allocated: `kill` has not been called with its new pid. -/
@[simps]
def forgetCalls : Sys := { s with called := update s.called p false }

/-- `kill` is called. -/
@[simps]
def recordCall (pid : Int32) : Sys :=
  { s with called := fun q => s.called q || decide ((s.table.proc q).pid = pid) }

@[simps]
def recordExit (pid : Int32) : Sys := { s with exited := s.exited ++ [pid] }

@[simps]
def recordWait (pid : Int32) : Sys := { s with waited := s.waited ++ [(p, pid)] }

/-- `allocproc` for `fork`, up to its release of the lock. -/
def fork (now : UInt32) : Option Sys :=
  match allocproc s.table now with
  | some (np, t) =>
    some (((s.setTable t).setPc p (.allocated np)).forgetCalls np)
  | none => if ∀ q, (s.table.proc q).state ≠ .unused then some s else none

/-- The failure paths of `fork`. -/
def forkFail (np : Fin NPROC) : Sys := (s.setTable (unalloc s.table np)).setPc p .idle

/-- Copy descriptor `fd` to the child, or the working directory. -/
def dupFile (np : Fin NPROC) (fd : ℕ) : Sys :=
  if h : fd < Fs.NOFILE then
    (s.setFiles np (update (s.ofile np) ⟨fd, h⟩
      ((s.ofile p ⟨fd, h⟩).orElse fun _ => s.ofile np ⟨fd, h⟩))).setPc p (.linked np (fd + 1))
  else (s.changeDir np (s.cwd p)).setPc p (.born np)

/-- Close descriptor `fd`, or give up the working directory. -/
def closeFile (fd : ℕ) : Sys :=
  if h : fd < Fs.NOFILE then
    (s.setFiles p (update (s.ofile p) ⟨fd, h⟩ none)).setPc p (.closing (fd + 1))
  else (s.changeDir p none).setPc p .leaving

/-- The critical section of `exit`. -/
def exit : Sys :=
  (((s.setTable (Process.exit s.table p)).setPc p .idle).leaveCpu p).recordExit (s.table.proc p).pid

@[simp] lemma exit_table : (s.exit p).table = Process.exit s.table p := rfl

/-- One round of the loop of `wait`, from the return of `sleep` on if it was called. -/
def wait : Sys :=
  match waitRound (sleepReturn s.table p) p with
  | .reaped pid t => ((s.setTable t).setPc p .idle).recordWait p pid
  | .failed => (s.setTable (sleepReturn s.table p)).setPc p .idle
  | .asleep t => ((s.setTable t).setPc p .waiting).leaveCpu p

/-- `kill` -/
def kill (pid : Int32) : Sys := (s.recordCall pid).setTable (Process.kill s.table pid).2

/-- The next step of a call. -/
def next (ok : Bool) : Option Sys :=
  match s.pc p with
  | .idle => none
  | .allocated np => some (if ok then s.setPc p (.stacked np) else s.forkFail p np)
  | .stacked np => some (if ok then s.setPc p (.copied np) else s.forkFail p np)
  | .copied np => some ((s.setTable (forkParent s.table p np)).setPc p (.linked np 0))
  | .linked np fd => some (s.dupFile p np fd)
  | .born np => some ((s.setTable (forkStart s.table np)).setPc p .idle)
  | .closing fd => some (s.closeFile p fd)
  | .leaving => some (s.exit p)
  | .waiting => none

/-- The rest of `sleep`, and the loop of `wait` if it was called there. -/
def resume : Sys := if s.pc p = .waiting then s.wait p else s.setTable (sleepReturn s.table p)

/-- What a process does outside of `sleep`. -/
def act : Action → Option Sys
  | .next ok => s.next p ok
  | .sleep a =>
    if (s.pc p).mayBlock then some ((s.setTable (sleep s.table p (.addr a))).leaveCpu p)
    else none
  | .yield => some ((s.setTable (yield s.table p)).leaveCpu p)
  | a =>
    if s.pc p ≠ .idle then none
    else
      match a with
      | .fork now => s.fork p now
      | .exit => if p = s.table.initproc then none else some (s.setPc p (.closing 0))
      | .wait => some (s.wait p)
      | .kill pid => some (s.kill pid)
      | .exec => some (s.setTable (execCommit s.table p))
      | .changeProcessLevel pid level =>
        some (s.setTable (changeProcessLevel s.table pid level))
      | .setProcessTicket pid ticket =>
        some (s.setTable (setProcessTicket s.table pid ticket))
      | .setProcessRemainingPriority pid priority =>
        some (s.setTable (setProcessRemainingPriority s.table pid priority))
      | .setFile fd f => some (s.setFiles p (update (s.ofile p) fd f))
      | .setCwd i => some (s.changeDir p (some i))
      | _ => none

/-- One step. A process that comes back from `sched` inside `sleep` still has its channel. -/
def step : Move → Option Sys
  | .run p a =>
    if (s.table.proc p).state ≠ .running then none
    else if (s.table.proc p).chan ≠ .null then
      match a with
      | .next _ => some (s.resume p)
      | _ => none
    else s.act p a
  | .dispatch c p =>
    if s.cpu c = none ∧ (s.table.proc p).state = .runnable then
      some ((s.setTable (Process.dispatch s.table p)).takeCpu p c)
    else none
  | .wakeup chan => some (s.setTable (wakeup1 s.table chan))

end Sys

/-- The machine behind `userinit`, with the root directory as the directory of `initproc`. -/
def Sys.init (now : UInt32) (root : ℕ) : Option Sys :=
  match allocproc boot now with
  | none => none
  | some (p, t) =>
    some {
      table := userinitCommit t p
      cpu := fun _ => none
      pc := fun _ => .idle
      ofile := fun _ _ => none
      cwd := update (fun _ => none) p (some root)
      called := fun _ => false
      exited := []
      waited := [] }

/-- The states that the machine reaches by moves that meet `ok`. -/
def Sys.Reached (ok : Sys → Move → Prop) (s : Sys) : Prop :=
  ∃ now root s₀, Sys.init now root = some s₀ ∧ Reaches Sys.step ok s₀ s

lemma Sys.exists_reached (ok : Sys → Move → Prop) [∀ s m, Decidable (ok s m)] (now : UInt32)
    (root : ℕ) (ms : List Move) (P : Sys → Prop) [DecidablePred P]
    (h : ((Sys.init now root).bind fun s => execAll Sys.step ok s ms).any
      (fun s => decide (P s)) = true) : ∃ s, Sys.Reached ok s ∧ P s := by
  rcases hinit : Sys.init now root with _ | s₀
  · rw [hinit] at h
    exact absurd h (by simp)
  rw [hinit] at h
  obtain ⟨s, hreach, hP⟩ := exists_of_execAll Sys.step ok s₀ ms P h
  exact ⟨s, ⟨now, root, s₀, hinit, hreach⟩, hP⟩

/-- Everything that a step can be, with its guards. -/
inductive Moved (s : Sys) : Move → Sys → Prop
  | fork {p np : Fin NPROC} {now : UInt32} {t : PTable} (hrun : (s.table.proc p).state = .running)
      (hpc : s.pc p = .idle) (halloc : allocproc s.table now = some (np, t)) :
      Moved s (.run p (.fork now)) (((s.setTable t).setPc p (.allocated np)).forgetCalls np)
  | same {m : Move} : Moved s m s
  | forkFail {p np : Fin NPROC} (hrun : (s.table.proc p).state = .running)
      (hpc : s.pc p = .allocated np ∨ s.pc p = .stacked np) :
      Moved s (.run p (.next false)) (s.forkFail p np)
  | advance {p np : Fin NPROC} {ok : Bool} {pc : Pc} (hrun : (s.table.proc p).state = .running)
      (hpc : s.pc p = .allocated np ∧ pc = .stacked np ∨ s.pc p = .stacked np ∧ pc = .copied np) :
      Moved s (.run p (.next ok)) (s.setPc p pc)
  | link {p np : Fin NPROC} {ok : Bool} (hrun : (s.table.proc p).state = .running)
      (hpc : s.pc p = .copied np) :
      Moved s (.run p (.next ok)) ((s.setTable (forkParent s.table p np)).setPc p (.linked np 0))
  | dup {p np : Fin NPROC} {fd : ℕ} {ok : Bool} (hrun : (s.table.proc p).state = .running)
      (hpc : s.pc p = .linked np fd) : Moved s (.run p (.next ok)) (s.dupFile p np fd)
  | start {p np : Fin NPROC} {ok : Bool} (hrun : (s.table.proc p).state = .running)
      (hpc : s.pc p = .born np) :
      Moved s (.run p (.next ok)) ((s.setTable (forkStart s.table np)).setPc p .idle)
  | exit {p : Fin NPROC} (hrun : (s.table.proc p).state = .running) (hpc : s.pc p = .idle)
      (hinit : p ≠ s.table.initproc) : Moved s (.run p .exit) (s.setPc p (.closing 0))
  | close {p : Fin NPROC} {fd : ℕ} {ok : Bool} (hrun : (s.table.proc p).state = .running)
      (hpc : s.pc p = .closing fd) : Moved s (.run p (.next ok)) (s.closeFile p fd)
  | leave {p : Fin NPROC} {ok : Bool} (hrun : (s.table.proc p).state = .running)
      (hpc : s.pc p = .leaving) : Moved s (.run p (.next ok)) (s.exit p)
  | wait {p : Fin NPROC} {a : Action} (hrun : (s.table.proc p).state = .running)
      (hpc : s.pc p = .idle ∧ a = .wait ∨ s.pc p = .waiting) : Moved s (.run p a) (s.wait p)
  | sleepReturn {p : Fin NPROC} {ok : Bool} (hrun : (s.table.proc p).state = .running)
      (hpc : s.pc p ≠ .waiting) :
      Moved s (.run p (.next ok)) (s.setTable (sleepReturn s.table p))
  | sleep {p : Fin NPROC} {a : ℕ} (hrun : (s.table.proc p).state = .running)
      (hpc : (s.pc p).mayBlock = true) :
      Moved s (.run p (.sleep a)) ((s.setTable (sleep s.table p (.addr a))).leaveCpu p)
  | yield {p : Fin NPROC} (hrun : (s.table.proc p).state = .running) :
      Moved s (.run p .yield) ((s.setTable (yield s.table p)).leaveCpu p)
  | kill {p : Fin NPROC} {pid : Int32} (hrun : (s.table.proc p).state = .running) :
      Moved s (.run p (.kill pid)) (s.kill pid)
  | exec {p : Fin NPROC} (hrun : (s.table.proc p).state = .running) :
      Moved s (.run p .exec) (s.setTable (execCommit s.table p))
  | changeLevel {p : Fin NPROC} {pid level : Int32} :
      Moved s (.run p (.changeProcessLevel pid level))
        (s.setTable (changeProcessLevel s.table pid level))
  | setTicket {p : Fin NPROC} {pid ticket : Int32} :
      Moved s (.run p (.setProcessTicket pid ticket))
        (s.setTable (setProcessTicket s.table pid ticket))
  | setPriority {p : Fin NPROC} {pid priority : Int32} :
      Moved s (.run p (.setProcessRemainingPriority pid priority))
        (s.setTable (setProcessRemainingPriority s.table pid priority))
  | setFile {p : Fin NPROC} {fd : Fin Fs.NOFILE} {f : Option ℕ}
      (hrun : (s.table.proc p).state = .running) (hpc : s.pc p = .idle) :
      Moved s (.run p (.setFile fd f)) (s.setFiles p (update (s.ofile p) fd f))
  | setCwd {p : Fin NPROC} {i : ℕ} (hrun : (s.table.proc p).state = .running)
      (hpc : s.pc p = .idle) : Moved s (.run p (.setCwd i)) (s.changeDir p (some i))
  | dispatch {c : Fin NCPU} {p : Fin NPROC} (hidle : s.cpu c = none)
      (hp : (s.table.proc p).state = .runnable) :
      Moved s (.dispatch c p) ((s.setTable (Process.dispatch s.table p)).takeCpu p c)
  | wakeup {chan : Chan} : Moved s (.wakeup chan) (s.setTable (wakeup1 s.table chan))

namespace Moved

variable {s s' : Sys} {p : Fin NPROC}

section
variable (hrun : (s.table.proc p).state = .running)
include hrun

lemma of_next {ok : Bool} (h : s.next p ok = some s') : Moved s (.run p (.next ok)) s' := by
  unfold Sys.next at h
  cases hpc : s.pc p with
  | idle | waiting =>
    rw [hpc] at h
    cases h
  | allocated np =>
    rw [hpc] at h
    rcases ok with _ | _
    · cases h
      exact .forkFail hrun (.inl hpc)
    cases h
    exact .advance hrun (.inl ⟨hpc, rfl⟩)
  | stacked np =>
    rw [hpc] at h
    rcases ok with _ | _
    · cases h
      exact .forkFail hrun (.inr hpc)
    cases h
    exact .advance hrun (.inr ⟨hpc, rfl⟩)
  | copied np =>
    rw [hpc] at h
    cases h
    exact .link hrun hpc
  | linked np fd =>
    rw [hpc] at h
    cases h
    exact .dup hrun hpc
  | born np =>
    rw [hpc] at h
    cases h
    exact .start hrun hpc
  | closing fd =>
    rw [hpc] at h
    cases h
    exact .close hrun hpc
  | leaving =>
    rw [hpc] at h
    cases h
    exact .leave hrun hpc

lemma of_fork {now : UInt32} (hpc : s.pc p = .idle) (h : s.fork p now = some s') :
    Moved s (.run p (.fork now)) s' := by
  unfold Sys.fork at h
  cases halloc : allocproc s.table now with
  | some r =>
    rw [halloc] at h
    cases h
    exact .fork hrun hpc halloc
  | none =>
    rw [halloc] at h
    simp only at h
    obtain ⟨-, rfl⟩ := of_guard h
    exact .same

lemma of_act {a : Action} (h : s.act p a = some s') : Moved s (.run p a) s' := by
  have hidle : ∀ {x : Option Sys}, (if s.pc p ≠ .idle then none else x) = some s' →
      s.pc p = .idle ∧ x = some s' := by
    intro x hx
    split at hx
    · cases hx
    rename_i hne
    exact ⟨not_not.mp hne, hx⟩
  cases a with
  | next ok => exact of_next hrun h
  | sleep a =>
    have hact : s.act p (.sleep a) = if (s.pc p).mayBlock then
        some ((s.setTable (Process.sleep s.table p (.addr a))).leaveCpu p) else none := rfl
    rw [hact] at h
    obtain ⟨hblock, rfl⟩ := of_guard h
    exact .sleep hrun hblock
  | yield =>
    cases h
    exact .yield hrun
  | fork now => exact of_fork hrun (hidle h).1 (hidle h).2
  | exit =>
    obtain ⟨hpc, h⟩ := hidle h
    split at h
    · cases h
    rename_i hinit
    cases h
    exact .exit hrun hpc hinit
  | wait =>
    obtain ⟨hpc, h⟩ := hidle h
    cases h
    exact .wait hrun (.inl ⟨hpc, rfl⟩)
  | kill pid =>
    obtain rfl := Option.some.inj (hidle h).2
    exact .kill hrun
  | exec =>
    obtain rfl := Option.some.inj (hidle h).2
    exact .exec hrun
  | changeProcessLevel pid level =>
    obtain rfl := Option.some.inj (hidle h).2
    exact .changeLevel
  | setProcessTicket pid ticket =>
    obtain rfl := Option.some.inj (hidle h).2
    exact .setTicket
  | setProcessRemainingPriority pid priority =>
    obtain rfl := Option.some.inj (hidle h).2
    exact .setPriority
  | setFile fd f =>
    obtain ⟨hpc, h⟩ := hidle h
    cases h
    exact .setFile hrun hpc
  | setCwd i =>
    obtain ⟨hpc, h⟩ := hidle h
    cases h
    exact .setCwd hrun hpc

end

lemma of_step {m : Move} (h : s.step m = some s') : Moved s m s' := by
  cases m with
  | run p a =>
    simp only [Sys.step] at h
    split at h
    · cases h
    rename_i hrun
    have hrun := not_not.mp hrun
    split at h
    · split at h
      · cases h
        unfold Sys.resume
        split
        · rename_i hpc
          exact .wait hrun (.inr hpc)
        · rename_i hpc
          exact .sleepReturn hrun hpc
      · cases h
    · exact of_act hrun h
  | dispatch c p =>
    obtain ⟨hguard, rfl⟩ := of_guard h
    exact .dispatch hguard.1 hguard.2
  | wakeup chan =>
    cases h
    exact .wakeup

end Moved
end Xv6.Process
