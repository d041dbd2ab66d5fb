import Xv6.Lib.Exec
import Xv6.Lib.Runs
import Xv6.Process.Table

/-!
# Spinlocks and the interrupt flag across context switches

`pushcli` and `popcli` count in the fields `ncli` and `intena` of the CPU, and `sched` and
`run_p` switch between kernel threads in the middle of a critical section: `ptable.lock` is
acquired by one thread and released by another. The functions below are those of
`spinlock.c` and the part of `sched` that is about the CPU; the system is one CPU with its
scheduler and any number of processes, which run these functions in any order.

## Implementation notes

Processes and locks are of arbitrary types, with `ptable.lock` and `tickslock` among the
locks. `lk->cpu` is a truth value, since there is one CPU; the fields of a lock that only
`acquire_reentrant` or the debugger reads are left out. `ncli` is an integer that does not
overflow: every level of nesting is a call on a kernel stack of 4096 bytes. A thread can be interrupted
where the flag is set, so an interrupt handler is a part of the thread that it interrupts. The
records of what a thread holds, and of the flag before its outermost `pushcli`, are not
read by the code.
-/

namespace Xv6.Sync.Nesting
open Lib Process Function Exec Option

/-- The calls of `panic`, and the loop of `acquire` if it would not end. -/
inductive Panic
  | mycpu
  | popcliInterruptible
  | popcli
  | acquire
  | release
  | schedLock
  | schedLocks
  | schedRunning
  | schedInterruptible
  | spin
  deriving DecidableEq, Repr

/-- `struct cpu` with the interrupt flag `FL_IF`, and the fields of the spinlocks. -/
structure Cpu (L : Type) where
  ncli : Int
  intena : Bool
  flag : Bool
  locked : L → Bool
  cpu : L → Bool

section Code
variable {L : Type} [DecidableEq L]

/-- Functions of the kernel that work on the CPU and the locks. -/
abbrev Code (L : Type) := Exec Panic (Cpu L)

/-- `mycpu`, on a machine with one CPU. -/
def mycpu : Code L Unit := do
  let c ← Exec.get
  stopIf (c.flag = true) .mycpu

def cli : Code L Unit := Exec.modify fun c => { c with flag := false }

def sti : Code L Unit := Exec.modify fun c => { c with flag := true }

def pushcli : Code L Unit := do
  let eflags ← Exec.get
  cli
  mycpu
  Exec.modify fun c => if c.ncli = 0 then { c with intena := eflags.flag } else c
  mycpu
  Exec.modify fun c => { c with ncli := c.ncli + 1 }

def popcli : Code L Unit := do
  let c ← Exec.get
  stopIf (c.flag = true) .popcliInterruptible
  mycpu
  Exec.modify fun c => { c with ncli := c.ncli - 1 }
  let c ← Exec.get
  stopIf (c.ncli < 0) .popcli
  if c.ncli = 0 ∧ c.intena then sti else pure ()

def holding (lk : L) : Code L Bool := do
  pushcli
  mycpu
  let c ← Exec.get
  popcli
  pure (c.locked lk && c.cpu lk)

/-- `acquire`. Only another CPU could unlock the lock while this one is in the loop. -/
def acquire (lk : L) : Code L Unit := do
  pushcli
  let held ← holding lk
  stopIf (held = true) .acquire
  let c ← Exec.get
  stopIf (c.locked lk = true) .spin
  Exec.modify fun c => { c with locked := update c.locked lk true }
  mycpu
  Exec.modify fun c => { c with cpu := update c.cpu lk true }

def release (lk : L) : Code L Unit := do
  let held ← holding lk
  stopIf (held = false) .release
  Exec.modify fun c => { c with cpu := update c.cpu lk false }
  Exec.modify fun c => { c with locked := update c.locked lk false }
  popcli

def myproc : Code L Unit := do
  pushcli
  mycpu
  popcli

/-- `sched` up to `swtch`. It returns the local variable `intena`. -/
def sched (ptable : L) (state : ProcState) : Code L Bool := do
  myproc
  let held ← holding ptable
  stopIf (held = false) .schedLock
  mycpu
  let c ← Exec.get
  stopIf (c.ncli ≠ 1) .schedLocks
  stopIf (state = .running) .schedRunning
  stopIf (c.flag = true) .schedInterruptible
  mycpu
  pure c.intena

/-- `sched` behind `swtch`. -/
def resched (intena : Bool) : Code L Unit := do
  mycpu
  Exec.modify fun c => { c with intena := intena }

end Code

/-! ### The system -/

/-- The calls of a thread. -/
inductive Op (L : Type)
  | pushcli
  | popcli
  | acquire (lk : L)
  | release (lk : L)
  deriving DecidableEq, Repr

/-- What a kernel thread has not undone yet, and the flag before its outermost `pushcli`. A
process that has not run has made no `pushcli`. -/
structure Thread (L : Type) where
  held : List L := []
  pushes : Nat := 0
  before : Option Bool := none

/-- How often the thread has to call `popcli`. -/
def Thread.depth {L : Type} (t : Thread L) : Nat := t.held.length + t.pushes

namespace Op

variable {L : Type} [DecidableEq L]

def code : Op L → Code L Unit
  | pushcli => Nesting.pushcli
  | popcli => Nesting.popcli
  | acquire lk => Nesting.acquire lk
  | release lk => Nesting.release lk

/-- The record of a thread that makes a call while the flag is as given. -/
def track (flag : Bool) (t : Thread L) : Op L → Thread L
  | pushcli => { t with
    pushes := t.pushes + 1, before := if t.depth = 0 then some flag else t.before }
  | popcli => { t with pushes := t.pushes - 1 }
  | acquire lk => { t with
    held := lk :: t.held, before := if t.depth = 0 then some flag else t.before }
  | release lk => { t with held := t.held.erase lk }

/-- The calls of a thread are paired: it undoes what it has done, and takes no lock twice. -/
def Paired (t : Thread L) : Op L → Prop
  | pushcli => True
  | popcli => 0 < t.pushes
  | acquire lk => lk ∉ t.held
  | release lk => lk ∈ t.held

instance (t : Thread L) : (o : Op L) → Decidable (o.Paired t)
  | pushcli => inferInstanceAs (Decidable True)
  | popcli => inferInstanceAs (Decidable (0 < t.pushes))
  | acquire lk => inferInstanceAs (Decidable (lk ∉ t.held))
  | release lk => inferInstanceAs (Decidable (lk ∈ t.held))

end Op

/-- Where `p->context` leads: to `forkret`, or into a call of `sched` with its local `intena`. -/
inductive Context
  | forkret
  | sched (intena : Bool)
  deriving DecidableEq, Repr

/-- The functions that call `sched`. -/
inductive Caller
  | yield
  | sleep
  | exit
  deriving DecidableEq, Repr

/-- What the caller sets `p->state` to. -/
def Caller.state : Caller → ProcState
  | yield => .runnable
  | sleep => .sleeping
  | exit => .zombie

/-- Where `scheduler` is. -/
inductive Place
  /-- Before `acquire(&ptable.lock)`. -/
  | idle
  /-- In a pass over the table. -/
  | passing
  /-- At the first or second level, where it reads `ticks`. -/
  | drawing
  deriving DecidableEq, Repr

/-- The calls of `scheduler` itself. -/
inductive Turn
  | enter
  | draw
  | drawn
  | leave
  deriving DecidableEq, Repr

/-- What one thread does next. -/
inductive Move (L π : Type)
  /-- A call, by a process, or by an interrupt handler on top of `scheduler`. -/
  | op (o : Op L)
  /-- `sti`, `cli`, the entry of a trap or the return from it. -/
  | setFlag (b : Bool)
  /-- A process calls `sched`. -/
  | sched (caller : Caller)
  | turn (t : Turn)
  /-- `run_p` -/
  | run (q : π)
  /-- `wakeup1` -/
  | wake (q : π)
  /-- `wait` frees the slot. -/
  | reap (q : π)
  /-- `allocproc` and `fork` or `userinit` make a process. -/
  | spawn (q : π)
  deriving DecidableEq, Repr

/-- One CPU and its threads; `none` is the scheduler. -/
structure Sys (L π : Type) where
  ptable : L
  ticks : L
  distinct : ticks ≠ ptable
  cpu : Cpu L
  current : Option π
  state : π → ProcState
  context : π → Context
  place : Place
  thread : Option π → Thread L
  panic : Option Panic

namespace Sys

variable {L π : Type} [DecidableEq L] [DecidableEq π]

/-- Run a function. If it panics, the machine stops. -/
def exec {α : Type} (s : Sys L π) (x : Code L α) (k : α → Cpu L → Sys L π) : Sys L π :=
  match x s.cpu with
  | .ok a c => k a c
  | .stop e c => { s with cpu := c, panic := some e }

/-- The current thread makes a call. -/
def call (s : Sys L π) (o : Op L) : Sys L π :=
  s.exec o.code fun _ c => { s with
    cpu := c
    thread := update s.thread s.current (o.track s.cpu.flag (s.thread s.current)) }

/-- The next call of `scheduler`, if `t` is what comes next, and the place behind it. -/
def turn (s : Sys L π) : Turn → Option (Op L × Place)
  | .enter =>
    -- the interrupt handlers have returned
    if s.place = .idle ∧ (s.thread none).depth = 0 then
      some (.acquire s.ptable, .passing) else none
  | .draw => if s.place = .passing then some (.acquire s.ticks, .drawing) else none
  | .drawn => if s.place = .drawing then some (.release s.ticks, .passing) else none
  | .leave => if s.place = .passing then some (.release s.ptable, .idle) else none

/-- `swtch`: the thread that goes on has what the other one had, and nothing is left to that. -/
def swtch (s : Sys L π) (t : Option π) : Sys L π :=
  { s with
    current := t
    thread := update
      (update s.thread s.current { s.thread s.current with held := [], pushes := 0 })
      t { s.thread t with
            held := (s.thread s.current).held, pushes := (s.thread s.current).pushes } }

/-- `sched` in a process that has set its state. -/
def sched (s : Sys L π) (p : π) (caller : Caller) : Sys L π :=
  s.exec (Nesting.sched s.ptable caller.state) fun intena c =>
    swtch { s with
      cpu := c
      state := update s.state p caller.state
      context := update s.context p (.sched intena) } none

/-- `run_p` -/
def runP (s : Sys L π) (q : π) : Sys L π :=
  if s.state q ≠ .runnable then s
  else
    -- `pushcli` and `popcli` of `switchuvm` cancel out under `ptable.lock`
    let s' := swtch { s with state := update s.state q .running } (some q)
    match s.context q with
    | .forkret => s'
    | .sched intena => s'.exec (resched intena) fun _ c => { s' with cpu := c }

/-- One step of the thread that has the CPU. -/
def step (s : Sys L π) (m : Move L π) : Option (Sys L π) :=
  if s.panic.isSome then none
  else match m with
  | .op o =>
    if s.current = none ∧ s.place ≠ .idle then none else some (s.call o)
  | .setFlag b =>
    if s.current = none ∧ s.place ≠ .idle then none
    else some { s with cpu := { s.cpu with flag := b } }
  | .sched caller => s.current.map fun p => s.sched p caller
  | .turn t =>
    if s.current = none then (s.turn t).map fun r => { s.call r.1 with place := r.2 } else none
  | .run q => if s.current = none ∧ s.place = .passing then some (s.runP q) else none
  | .wake q =>
    if s.state q = .sleeping then
      some { s with state := update s.state q .runnable } else none
  | .reap q =>
    if s.state q = .zombie then
      some { s with state := update s.state q .unused } else none
  | .spawn q =>
    if s.state q = .unused then
      some { s with
        state := update s.state q .runnable
        context := update s.context q .forkret
        thread := update s.thread (some q) {} } else none

/-- The calls of every thread are paired, no thread touches the flag inside of them, and `sched` is
called with `ptable.lock` and nothing else. -/
def Paired (s : Sys L π) : Move L π → Prop
  | .op o => o.Paired (s.thread s.current)
  | .setFlag _ => (s.thread s.current).depth = 0
  | .sched _ => (s.thread s.current).held = [s.ptable] ∧ (s.thread s.current).pushes = 0
  | _ => True

instance (s : Sys L π) : (m : Move L π) → Decidable (s.Paired m)
  | .op o => inferInstanceAs (Decidable (o.Paired (s.thread s.current)))
  | .setFlag _ => inferInstanceAs (Decidable ((s.thread s.current).depth = 0))
  | .sched _ => inferInstanceAs
      (Decidable ((s.thread s.current).held = [s.ptable] ∧ (s.thread s.current).pushes = 0))
  | .turn _ | .run _ | .wake _ | .reap _ | .spawn _ => inferInstanceAs (Decidable True)

/-- The CPU has the lock, as `holding` finds. -/
def Holds (s : Sys L π) (lk : L) : Prop := s.cpu.locked lk = true ∧ s.cpu.cpu lk = true

/-- When the scheduler starts: no lock is held, and no process has run. -/
structure Boot (s : Sys L π) : Prop where
  ncli : s.cpu.ncli = 0
  locked : ∀ lk, s.cpu.locked lk = false
  cpu : ∀ lk, s.cpu.cpu lk = false
  current : s.current = none
  place : s.place = .idle
  state : ∀ p, s.state p = .unused ∨ s.state p = .runnable
  context : ∀ p, s.context p = .forkret
  scheduler : (s.thread none).depth = 0
  thread : ∀ p, (s.thread (some p)).before = none
  panic : s.panic = none

/-! ### The invariant -/

/-- The CPU and the locks are as the thread that runs has left them. -/
structure Agrees (c : Cpu L) (t : Thread L) : Prop where
  ncli : c.ncli = t.depth
  off : 0 < t.depth → c.flag = false
  locked : ∀ lk, c.locked lk = true ↔ lk ∈ t.held
  cpu : ∀ lk, c.cpu lk = true ↔ lk ∈ t.held
  nodup : t.held.Nodup

/-- `intena` is the flag before the outermost `pushcli`, if the thread has made that itself. -/
def Recalls (before : Option Bool) (intena : Bool) : Prop := ∀ b, before = some b → intena = b

/-- What `p->context` has kept for a process that does not run. -/
def Kept (before : Option Bool) : Context → Prop
  | .forkret => before = none
  | .sched intena => Recalls before intena

structure Inv (s : Sys L π) : Prop where
  panic : s.panic = none
  agrees : Agrees s.cpu (s.thread s.current)
  recalls : s.current ≠ none → 0 < (s.thread s.current).depth →
    Recalls (s.thread s.current).before s.cpu.intena
  kept : ∀ p, s.current ≠ some p → Kept (s.thread (some p)).before (s.context p)
  running : ∀ p, s.state p = .running ↔ s.current = some p
  passing : s.current = none → s.place = .passing →
    (s.thread none).held = [s.ptable] ∧ (s.thread none).pushes = 0
  drawing : s.current = none → s.place = .drawing →
    (s.thread none).held = [s.ticks, s.ptable] ∧ (s.thread none).pushes = 0
  place : s.current ≠ none → s.place = .passing

end Sys

/-! ### What the functions do to the CPU -/

section Runs
variable {L : Type} {c : Cpu L} {lk : L}

lemma mycpu_run (hflag : c.flag = false) : mycpu c = .ok () c := by
  simp [mycpu, Exec.get, stopIf, bind, pure, hflag]

lemma pushcli_run (c : Cpu L) : pushcli c = .ok () { c with
    flag := false
    intena := if c.ncli = 0 then c.flag else c.intena
    ncli := c.ncli + 1 } := by
  by_cases hzero : c.ncli = 0 <;>
    simp [pushcli, cli, mycpu, Exec.get, Exec.modify, stopIf, bind, pure, hzero]

section
variable (hflag : c.flag = false) (hncli : 0 < c.ncli)
include hflag hncli

lemma popcli_run : popcli c = .ok () { c with
    ncli := c.ncli - 1
    flag := decide (c.ncli = 1) && c.intena } := by
  have hneg : ¬ c.ncli - 1 < 0 := by omega
  have hone : c.ncli - 1 = 0 ↔ c.ncli = 1 := by omega
  cases hintena : c.intena <;> by_cases h : c.ncli = 1 <;>
    simp [popcli, sti, mycpu, Exec.get, Exec.modify, stopIf, bind, pure, hflag, hneg, hone,
      hintena, h]

/-- Inside of another `pushcli`, `pushcli` only counts. -/
lemma pushcli_nested : pushcli c = .ok () { c with ncli := c.ncli + 1 } := by
  have hzero : c.ncli ≠ 0 := by omega
  rw [pushcli_run, if_neg hzero, ← hflag]

lemma popcli_nested : popcli { c with ncli := c.ncli + 1 } = .ok () c := by
  have hone : c.ncli + 1 ≠ 1 := by omega
  rw [popcli_run (c := { c with ncli := c.ncli + 1 }) hflag (show 0 < c.ncli + 1 by omega)]
  simp only [hone, decide_false, Bool.false_and, Int.add_sub_cancel]
  rw [← hflag]

lemma holding_run : holding lk c = .ok (c.locked lk && c.cpu lk) c := by
  simp only [holding, bind, pushcli_nested hflag hncli, Exec.get, popcli_nested hflag hncli, pure,
    mycpu_run (c := { c with ncli := c.ncli + 1 }) hflag]

lemma myproc_run : myproc c = .ok () c := by
  simp only [myproc, bind, pushcli_nested hflag hncli, popcli_nested hflag hncli,
    mycpu_run (c := { c with ncli := c.ncli + 1 }) hflag]

end

lemma resched_run {intena : Bool} (hflag : c.flag = false) :
    resched intena c = .ok () { c with intena := intena } := by
  simp [resched, bind, mycpu_run hflag, Exec.modify]

lemma sched_run {state : ProcState} (hflag : c.flag = false) (hncli : c.ncli = 1)
    (hlocked : c.locked lk = true) (hcpu : c.cpu lk = true) (hstate : state ≠ .running) :
    sched lk state c = .ok c.intena c := by
  have hpos : 0 < c.ncli := by omega
  simp only [sched, bind, myproc_run hflag hpos, holding_run hflag hpos, hlocked, hcpu,
    Bool.and_self]
  simp [stopIf, Exec.get, pure, mycpu_run hflag, hncli, hstate, hflag]

variable [DecidableEq L]

lemma acquire_run (hncli : 0 ≤ c.ncli) (hlocked : c.locked lk = false) :
    acquire lk c = .ok () { c with
      flag := false
      intena := if c.ncli = 0 then c.flag else c.intena
      ncli := c.ncli + 1
      locked := update c.locked lk true
      cpu := update c.cpu lk true } := by
  have hpos : 0 < c.ncli + 1 := by omega
  simp only [acquire, bind, pushcli_run, holding_run, hpos, hlocked, Bool.false_and]
  simp [stopIf, Exec.get, Exec.modify, pure, hlocked, mycpu_run]

lemma release_run (hflag : c.flag = false) (hncli : 0 < c.ncli) (hlocked : c.locked lk = true)
    (hcpu : c.cpu lk = true) : release lk c = .ok () { c with
      ncli := c.ncli - 1
      flag := decide (c.ncli = 1) && c.intena
      locked := update c.locked lk false
      cpu := update c.cpu lk false } := by
  simp only [release, bind, holding_run hflag hncli, hlocked, hcpu, Bool.and_self]
  simp [stopIf, Exec.modify, pure, popcli_run, hflag, hncli]

end Runs

namespace Sys

variable {L π : Type} [DecidableEq L] [DecidableEq π] {c : Cpu L} {t : Thread L} {s s' : Sys L π}

omit [DecidableEq L] in
lemma Agrees.recalls_push (h : Agrees c t)
    (hrecalls : 0 < t.depth → Recalls t.before c.intena) (b : Bool)
    (hb : (if t.depth = 0 then some c.flag else t.before) = some b) :
    (if c.ncli = 0 then c.flag else c.intena) = b := by
  have hncli := h.ncli
  by_cases hdepth : t.depth = 0
  · rw [if_pos hdepth] at hb
    rw [if_pos (by omega)]
    exact Option.some.inj hb
  rw [if_neg hdepth] at hb
  rw [if_neg (by omega)]
  exact hrecalls (by omega) b hb

variable {o : Op L} {place : Place} {p q : π}

/-- A paired call returns. If the thread has undone everything with it, the flag is what `intena`
said. -/
lemma Agrees.call (h : Agrees c t) (ho : o.Paired t) :
    ∃ c', o.code c = .ok () c' ∧ Agrees c' (o.track c.flag t) ∧
      ((0 < t.depth → Recalls t.before c.intena) → 0 < (o.track c.flag t).depth →
        Recalls (o.track c.flag t).before c'.intena) ∧
      (0 < t.depth → (o.track c.flag t).depth = 0 → c'.flag = c.intena) := by
  have hncli := h.ncli
  cases o with
  | pushcli =>
    refine ⟨_, pushcli_run c, ⟨?_, fun _ => rfl, h.locked, h.cpu, h.nodup⟩,
      fun hrecalls _ => h.recalls_push hrecalls, fun _ hzero => ?_⟩
    · simp only [Op.track, Thread.depth] at hncli ⊢
      omega
    · simp only [Op.track, Thread.depth] at hzero
      omega
  | popcli =>
    have hpushes : 0 < t.pushes := ho
    have hdepth : 0 < t.depth := by
      unfold Thread.depth
      omega
    have htrack : (Op.track c.flag t .popcli).depth = t.depth - 1 := by
      simp only [Op.track, Thread.depth]
      omega
    refine ⟨_, popcli_run (h.off hdepth) (by omega),
      ⟨?_, fun hpos => ?_, h.locked, h.cpu, h.nodup⟩, fun hrecalls _ => hrecalls hdepth,
      fun _ hzero => ?_⟩
    · rw [htrack]
      simp only
      omega
    · simp only [Bool.and_eq_false_imp, decide_eq_true_eq]
      omega
    · simp only [Bool.and_eq_right_iff_imp, decide_eq_true_eq]
      omega
  | acquire lk =>
    have hfree : lk ∉ t.held := ho
    refine ⟨_, acquire_run (by omega) (Bool.eq_false_iff.mpr (mt (h.locked lk).mp hfree)),
      ⟨?_, fun _ => rfl, fun k => ?_, fun k => ?_, List.nodup_cons.mpr ⟨hfree, h.nodup⟩⟩,
      fun hrecalls _ => h.recalls_push hrecalls, fun _ hzero => ?_⟩
    · simp only [Op.track, Thread.depth, List.length_cons] at hncli ⊢
      omega
    · by_cases hk : k = lk
      · simp [Op.track, hk]
      · simp [Op.track, hk, h.locked]
    · by_cases hk : k = lk
      · simp [Op.track, hk]
      · simp [Op.track, hk, h.cpu]
    · simp [Op.track, Thread.depth] at hzero
  | release lk =>
    have hheld : lk ∈ t.held := ho
    have hpos := List.length_pos_of_mem hheld
    have hdepth : 0 < t.depth := by
      unfold Thread.depth
      omega
    have htrack : (Op.track c.flag t (.release lk)).depth = t.depth - 1 := by
      simp only [Op.track, Thread.depth, List.length_erase_of_mem hheld]
      omega
    refine ⟨_, release_run (h.off hdepth) (by omega) ((h.locked lk).mpr hheld)
      ((h.cpu lk).mpr hheld), ⟨?_, fun hpos => ?_, fun k => ?_, fun k => ?_, h.nodup.erase lk⟩,
      fun hrecalls _ => hrecalls hdepth, fun _ hzero => ?_⟩
    · rw [htrack]
      simp only
      omega
    · simp only [Bool.and_eq_false_imp, decide_eq_true_eq]
      omega
    · by_cases hk : k = lk
      · simp [Op.track, hk, h.nodup.not_mem_erase]
      · simp [Op.track, hk, h.locked, List.mem_erase_of_ne]
    · by_cases hk : k = lk
      · simp [Op.track, hk, h.nodup.not_mem_erase]
      · simp [Op.track, hk, h.cpu, List.mem_erase_of_ne]
    · simp only [Bool.and_eq_right_iff_imp, decide_eq_true_eq]
      omega

@[simp] lemma call_current (s : Sys L π) (o : Op L) : (s.call o).current = s.current := by
  unfold Sys.call exec
  split <;> rfl

omit [DecidableEq L] in
/-- A thread that has exactly `ptable.lock` meets what `sched` asks for. -/
lemma Agrees.only (h : Agrees c t) {lk : L} (hheld : t.held = [lk]) (hpushes : t.pushes = 0) :
    c.ncli = 1 ∧ c.flag = false ∧ c.locked lk = true ∧ c.cpu lk = true := by
  have hdepth : t.depth = 1 := by simp [Thread.depth, hheld, hpushes]
  have hncli := h.ncli
  exact ⟨by omega, h.off (by omega), (h.locked lk).mpr (by simp [hheld]),
    (h.cpu lk).mpr (by simp [hheld])⟩

section
variable (h : s.Inv)
include h

lemma Inv.call (ho : o.Paired (s.thread s.current)) : ∃ c', s.call o = { s with
        cpu := c'
        thread := update s.thread s.current (o.track s.cpu.flag (s.thread s.current)) } ∧
      Agrees c' (o.track s.cpu.flag (s.thread s.current)) ∧
      (s.current ≠ none → 0 < (o.track s.cpu.flag (s.thread s.current)).depth →
        Recalls (o.track s.cpu.flag (s.thread s.current)).before c'.intena) ∧
      (0 < (s.thread s.current).depth → (o.track s.cpu.flag (s.thread s.current)).depth = 0 →
        c'.flag = s.cpu.intena) := by
  obtain ⟨c', hrun, hagrees, hrecalls, hflag⟩ := h.agrees.call ho
  refine ⟨c', ?_, hagrees, fun hproc => hrecalls (h.recalls hproc), hflag⟩
  simp only [Sys.call, exec, hrun]

/-- A call keeps what is about the threads that do not run. -/
lemma Inv.call_inv (ho : o.Paired (s.thread s.current))
    (hpassing : s.current = none → place = .passing →
      (o.track s.cpu.flag (s.thread none)).held = [s.ptable] ∧
      (o.track s.cpu.flag (s.thread none)).pushes = 0)
    (hdrawing : s.current = none → place = .drawing →
      (o.track s.cpu.flag (s.thread none)).held = [s.ticks, s.ptable] ∧
      (o.track s.cpu.flag (s.thread none)).pushes = 0)
    (hplace : s.current ≠ none → place = .passing) : Inv { s.call o with place := place } := by
  obtain ⟨c', hcall, hagrees, hrecalls, -⟩ := h.call ho
  rw [hcall]
  constructor
  case panic => exact h.panic
  case agrees => simpa using hagrees
  case recalls => simpa using hrecalls
  case kept =>
    intro p hp
    have hne : some p ≠ s.current := Ne.symm hp
    simpa [update_of_ne hne] using h.kept p hp
  case running => exact h.running
  case passing =>
    intro hcur hpass
    have hcur' : s.current = none := hcur
    simpa [hcur'] using hpassing hcur hpass
  case drawing =>
    intro hcur hdraw
    have hcur' : s.current = none := hcur
    simpa [hcur'] using hdrawing hcur hdraw
  case place => exact hplace

lemma Inv.turn (hcur : s.current = none) {t : Turn}
    (hturn : s.turn t = some (o, place)) : Inv { s.call o with place := place } := by
  have hne := s.distinct
  cases t with
  | enter =>
    obtain ⟨⟨-, hdepth⟩, ⟨⟩⟩ := of_guard hturn
    have hheld : (s.thread none).held = [] := by
      refine List.eq_nil_of_length_eq_zero ?_
      unfold Thread.depth at hdepth
      omega
    have hpushes : (s.thread none).pushes = 0 := by
      unfold Thread.depth at hdepth
      omega
    refine h.call_inv (by simp [hcur, Op.Paired, hheld]) (fun _ _ => ?_) (fun _ => nofun)
      (absurd hcur)
    exact ⟨by simp [Op.track, hheld], hpushes⟩
  | draw =>
    obtain ⟨hplace, ⟨⟩⟩ := of_guard hturn
    obtain ⟨hheld, hpushes⟩ := h.passing hcur hplace
    refine h.call_inv (by simp [hcur, Op.Paired, hheld, hne]) (fun _ => nofun) (fun _ _ => ?_)
      (absurd hcur)
    exact ⟨by simp [Op.track, hheld], hpushes⟩
  | drawn =>
    obtain ⟨hplace, ⟨⟩⟩ := of_guard hturn
    obtain ⟨hheld, hpushes⟩ := h.drawing hcur hplace
    refine h.call_inv (by simp [hcur, Op.Paired, hheld]) (fun _ _ => ?_) (fun _ => nofun)
      (absurd hcur)
    exact ⟨by simp [Op.track, hheld], hpushes⟩
  | leave =>
    obtain ⟨hplace, ⟨⟩⟩ := of_guard hturn
    obtain ⟨hheld, -⟩ := h.passing hcur hplace
    exact h.call_inv (by simp [hcur, Op.Paired, hheld]) (fun _ => nofun) (fun _ => nofun)
      (absurd hcur)

omit [DecidableEq L] in
lemma Inv.sched (hheld : (s.thread s.current).held = [s.ptable])
    (hpushes : (s.thread s.current).pushes = 0) (caller : Caller) :
    s.sched p caller = swtch { s with
      state := update s.state p caller.state
      context := update s.context p (.sched s.cpu.intena) } none := by
  obtain ⟨hncli, hflag, hlocked, hcpu⟩ := h.agrees.only hheld hpushes
  have hstate : caller.state ≠ .running := by cases caller <;> nofun
  simp only [Sys.sched, exec, sched_run hflag hncli hlocked hcpu hstate]

omit [DecidableEq L] h in
lemma Agrees.swtch (h : Agrees s.cpu (s.thread s.current)) (t : Option π) (intena : Bool) :
    Agrees { s.cpu with intena := intena } ((swtch s t).thread t) := by
  simp only [Sys.swtch, update_self]
  exact ⟨h.ncli, h.off, h.locked, h.cpu, h.nodup⟩

omit [DecidableEq L] in
lemma Inv.sched_inv (hcur : s.current = some p)
    (hheld : (s.thread s.current).held = [s.ptable]) (hpushes : (s.thread s.current).pushes = 0)
    (caller : Caller) : (s.sched p caller).Inv := by
  have hstate : caller.state ≠ .running := by cases caller <;> nofun
  have hsome : s.current ≠ none := by simp [hcur]
  have hdepth : 0 < (s.thread s.current).depth := by simp [Thread.depth, hheld, hpushes]
  have hrecalls := h.recalls hsome hdepth
  rw [h.sched hheld hpushes]
  rw [hcur] at hheld hpushes hrecalls
  constructor
  case panic => exact h.panic
  case agrees => exact h.agrees.swtch none _
  case recalls => exact absurd rfl
  case kept =>
    intro q _
    by_cases hq : q = p
    · subst hq
      simpa [swtch, hcur, Kept] using hrecalls
    · have hne : s.current ≠ some q := by simp [hcur, Ne.symm hq]
      simpa [swtch, hcur, hq] using h.kept q hne
  case running =>
    intro q
    by_cases hq : q = p
    · subst hq
      simpa [swtch] using hstate
    · have hrun := h.running q
      simpa [swtch, hq, hcur, Ne.symm hq] using hrun
  case passing =>
    intro _ _
    simpa [swtch, hcur] using And.intro hheld hpushes
  case drawing =>
    intro _ hdraw
    have hplace : s.place = .drawing := hdraw
    rw [h.place hsome] at hplace
    cases hplace
  case place => exact absurd rfl

omit [DecidableEq L] in
lemma Inv.runP (hcur : s.current = none) (hplace : s.place = .passing)
    (hrunnable : s.state q = .runnable) :
    ∃ intena, Recalls (s.thread (some q)).before intena ∧ s.runP q =
      { swtch { s with state := update s.state q .running } (some q) with
        cpu := { s.cpu with intena := intena } } := by
  obtain ⟨hheld, hpushes⟩ := h.passing hcur hplace
  have hagrees := h.agrees
  rw [hcur] at hagrees
  have hflag := (hagrees.only hheld hpushes).2.1
  have hkept := h.kept q (by simp [hcur])
  rw [Sys.runP, if_neg (not_not.mpr hrunnable)]
  cases hcontext : s.context q with
  | forkret =>
    rw [hcontext] at hkept
    have hbefore : (s.thread (some q)).before = none := hkept
    exact ⟨s.cpu.intena, fun b hb => by simp [hbefore] at hb, rfl⟩
  | sched intena =>
    rw [hcontext] at hkept
    have hrun : resched intena s.cpu = .ok () { s.cpu with intena := intena } := resched_run hflag
    exact ⟨intena, hkept, by simp only [exec, swtch, hrun]⟩

omit [DecidableEq L] in
lemma Inv.runP_inv (hcur : s.current = none) (hplace : s.place = .passing) (q : π) :
    (s.runP q).Inv := by
  by_cases hrunnable : s.state q = .runnable
  case neg => rwa [Sys.runP, if_pos hrunnable]
  obtain ⟨intena, hintena, hrun⟩ := h.runP hcur hplace hrunnable
  have hrunning := h.running
  rw [hrun]
  constructor
  case panic => exact h.panic
  case agrees => exact h.agrees.swtch (some q) _
  case recalls =>
    intro _ _
    simpa [swtch] using hintena
  case kept =>
    intro p hp
    have hne : p ≠ q := fun heq => hp (congrArg some heq.symm)
    simpa [swtch, hcur, hne] using h.kept p (by simp [hcur])
  case running =>
    intro p
    by_cases hp : p = q
    · simp [swtch, hp]
    have hnone : s.state p ≠ .running := by simp [hrunning, hcur]
    simp [swtch, hp, hnone, Ne.symm hp]
  case passing => exact nofun
  case drawing => exact nofun
  case place => exact fun _ => hplace

omit [DecidableEq L] in
/-- The state of a process that does not run may change. -/
lemma Inv.setState {state : ProcState} (hq : s.state q ≠ .running)
    (hstate : state ≠ .running) : Inv { s with state := update s.state q state } := by
  refine { h with running := fun p => ?_ }
  by_cases hp : p = q
  · subst hp
    simpa [hstate] using mt (h.running p).mpr hq
  · simpa [hp] using h.running p

omit [DecidableEq L] in
/-- A new process has no record. -/
lemma Inv.spawn (hq : s.current ≠ some q) : Inv { s with
      context := update s.context q .forkret
      thread := update s.thread (some q) {} } := by
  have hcur : update s.thread (some q) {} s.current = s.thread s.current := update_of_ne hq _ _
  constructor
  case panic => exact h.panic
  case agrees => simpa [hcur] using h.agrees
  case recalls => simpa [hcur] using h.recalls
  case kept =>
    intro p hp
    by_cases hpq : p = q
    · subst hpq
      simp [Kept]
    · simpa [hpq] using h.kept p hp
  case running => exact h.running
  case passing => simpa using h.passing
  case drawing => simpa using h.drawing
  case place => exact h.place

lemma Inv.step {m : Move L π} (hm : s.Paired m) (hstep : s.step m = some s') : s'.Inv := by
  have hpanic : s.panic.isSome = false := by simp [h.panic]
  simp only [Sys.step, hpanic, Bool.false_eq_true, if_false] at hstep
  cases m with
  | op o =>
    simp only [ite_none_left_eq_some, Option.some.injEq] at hstep
    obtain ⟨hplace, rfl⟩ := hstep
    have hidle : s.current = none → s.place = .idle := fun hcur => by
      by_contra hne
      exact hplace ⟨hcur, hne⟩
    have hcall := h.call_inv hm (fun hcur hp => by simp [hidle hcur] at hp)
        (fun hcur hp => by simp [hidle hcur] at hp) h.place
    obtain ⟨c', heq, -⟩ := h.call hm
    rw [heq] at hcall ⊢
    exact hcall
  | setFlag b =>
    simp only [ite_none_left_eq_some, Option.some.injEq] at hstep
    obtain ⟨-, rfl⟩ := hstep
    have hzero : (s.thread s.current).depth = 0 := hm
    exact { h with
      agrees := ⟨h.agrees.ncli, fun hpos => absurd hzero (Nat.ne_of_gt hpos), h.agrees.locked,
        h.agrees.cpu, h.agrees.nodup⟩ }
  | sched caller =>
    obtain ⟨p, hcur, rfl⟩ := map_eq_some_iff.mp hstep
    exact h.sched_inv hcur hm.1 hm.2 caller
  | turn t =>
    simp only [ite_none_right_eq_some, map_eq_some_iff] at hstep
    obtain ⟨hcur, ⟨o, place⟩, hturn, rfl⟩ := hstep
    exact h.turn hcur hturn
  | run q =>
    obtain ⟨⟨hcur, hplace⟩, rfl⟩ := of_guard hstep
    exact h.runP_inv hcur hplace q
  | wake q | reap q =>
    obtain ⟨hstate, rfl⟩ := of_guard hstep
    exact h.setState (by simp [hstate]) (by decide)
  | spawn q =>
    obtain ⟨hstate, rfl⟩ := of_guard hstep
    have hcur : s.current ≠ some q := fun hcur => by simpa [hstate] using (h.running q).mpr hcur
    exact (h.spawn hcur).setState (by simp [hstate]) (by decide)

end

omit [DecidableEq L] [DecidableEq π] in
lemma Boot.inv (h : s.Boot) : s.Inv := by
  have hdepth := h.scheduler
  have hheld : (s.thread none).held = [] := by
    refine List.eq_nil_of_length_eq_zero ?_
    unfold Thread.depth at hdepth
    omega
  have hcur := h.current
  constructor
  case panic => exact h.panic
  case agrees =>
    rw [hcur]
    exact ⟨by simp [h.ncli, hdepth], fun hpos => by omega, by simp [h.locked, hheld],
      by simp [h.cpu, hheld], by simp [hheld]⟩
  case recalls => exact absurd hcur
  case kept => exact fun p _ => by simpa [h.context p, Kept] using h.thread p
  case running =>
    intro p
    rcases h.state p with hstate | hstate <;> simp [hstate, hcur]
  case passing => exact fun _ hplace => by simp [h.place] at hplace
  case drawing => exact fun _ hplace => by simp [h.place] at hplace
  case place => exact absurd hcur

lemma inv_of_reaches (hs : s.Boot) (hreach : Reaches step Paired s s') : s'.Inv :=
  hreach.invariant (fun _ _ _ hinv hm hstep => hinv.step hm hstep) hs.inv

/-- Only `sched` and `run_p` switch, and both threads have exactly `ptable.lock` then. -/
lemma Inv.only_of_switch (h : s.Inv) {m : Move L π} (hm : s.Paired m)
    (hstep : s.step m = some s') (hswitch : s'.current ≠ s.current) :
    ((s.thread s.current).held = [s.ptable] ∧ (s.thread s.current).pushes = 0) ∧
      (s'.thread s'.current).held = [s'.ptable] ∧ (s'.thread s'.current).pushes = 0 := by
  have hpanic : s.panic.isSome = false := by simp [h.panic]
  simp only [Sys.step, hpanic, Bool.false_eq_true, if_false] at hstep
  cases m with
  | op o =>
    simp only [ite_none_left_eq_some, Option.some.injEq] at hstep
    obtain ⟨-, rfl⟩ := hstep
    exact absurd (s.call_current o) hswitch
  | setFlag b =>
    simp only [ite_none_left_eq_some, Option.some.injEq] at hstep
    obtain ⟨-, rfl⟩ := hstep
    exact absurd rfl hswitch
  | sched caller =>
    obtain ⟨p, hcur, rfl⟩ := map_eq_some_iff.mp hstep
    refine ⟨hm, ?_⟩
    rw [h.sched hm.1 hm.2]
    exact ⟨by simpa [swtch] using hm.1, by simpa [swtch] using hm.2⟩
  | turn t =>
    simp only [ite_none_right_eq_some, map_eq_some_iff] at hstep
    obtain ⟨-, ⟨o, place⟩, -, rfl⟩ := hstep
    exact absurd (s.call_current o) hswitch
  | run q =>
    obtain ⟨⟨hcur, hplace⟩, rfl⟩ := of_guard hstep
    have honly := h.passing hcur hplace
    by_cases hrunnable : s.state q = .runnable
    · obtain ⟨intena, -, hrun⟩ := h.runP hcur hplace hrunnable
      rw [hrun, hcur]
      exact ⟨honly, by simpa [swtch, hcur] using honly⟩
    · rw [Sys.runP, if_pos hrunnable] at hswitch
      exact absurd rfl hswitch
  | wake q | reap q | spawn q =>
    obtain ⟨-, rfl⟩ := of_guard hstep
    exact absurd rfl hswitch

/-- Whatever the threads of a CPU do, as long as their calls are paired and `sched` is called with
`ptable.lock` alone: no panic fires; interrupts are off inside of every `pushcli`; the CPU has
`ptable.lock` before and behind every `swtch`; and the outermost `popcli` of a process, which may
be the one in a `release`, leaves the flag as it was before the outermost `pushcli`. -/
theorem nesting_survives_switches (hs : s.Boot) (hreach : Reaches step Paired s s') :
    s'.panic = none ∧ (0 < s'.cpu.ncli → s'.cpu.flag = false) ∧
    (∀ m s'', s'.Paired m → s'.step m = some s'' → s''.current ≠ s'.current →
      s'.Holds s'.ptable ∧ s''.Holds s''.ptable) ∧
    ∀ o p b s'', s'.Paired (.op o) → s'.step (.op o) = some s'' → s'.current = some p →
      0 < (s'.thread (some p)).depth → (s''.thread (some p)).depth = 0 →
      (s'.thread (some p)).before = some b → s''.cpu.flag = b := by
  have hinv := inv_of_reaches hs hreach
  refine ⟨hinv.panic, fun hpos => ?_, fun m s'' hm hstep hswitch => ?_,
    fun o p b s'' ho hstep hcur hpos hzero hbefore => ?_⟩
  · have hncli := hinv.agrees.ncli
    exact hinv.agrees.off (by omega)
  · obtain ⟨honly, honly'⟩ := hinv.only_of_switch hm hstep hswitch
    exact ⟨(hinv.agrees.only honly.1 honly.2).2.2,
      ((hinv.step hm hstep).agrees.only honly'.1 honly'.2).2.2⟩
  obtain ⟨c', hcall, -, -, hflag⟩ := hinv.call ho
  have hsome : s'.current ≠ none := by simp [hcur]
  have hpanic : s'.panic.isSome = false := by simp [hinv.panic]
  simp only [step, hpanic, Bool.false_eq_true, if_false, hcur, reduceCtorEq, false_and, hcall,
    Option.some.injEq] at hstep
  subst hstep
  simp only [update_self] at hzero
  rw [hcur] at hflag
  rw [← hinv.recalls hsome (by rwa [hcur]) b (by rwa [hcur])]
  exact hflag hpos hzero

/-- A scheduler, and a process that has not run. -/
def oneFresh : Sys Bool Unit where
  ptable := true
  ticks := false
  distinct := nofun
  cpu := ⟨0, false, true, fun _ => false, fun _ => false⟩
  current := none
  state := fun _ => .runnable
  context := fun _ => .forkret
  place := .idle
  thread := fun _ => {}
  panic := none

/-- The process comes out of `forkret`, yields with interrupts enabled, and gets the CPU again. -/
theorem yield_restores_flag : ∃ s s', Reaches step Paired oneFresh s ∧
    s.context () = .sched true ∧ s.step (.op (.release true)) = some s' ∧ s'.cpu.flag = true := by
  obtain ⟨s, hreach, hsteps⟩ := exists_of_execAll step Paired oneFresh
    [.turn .enter, .turn .draw, .turn .drawn, .run (), .op (.release true), .setFlag true,
      .op (.acquire true), .sched .yield, .run ()]
    (fun s => s.context () = .sched true ∧ s.Paired (.op (.release true)) ∧ s.current = some () ∧
      0 < (s.thread (some ())).depth ∧ (s.thread (some ())).before = some true ∧
      ((s.step (.op (.release true))).map fun s' => (s'.thread (some ())).depth) = some 0)
    (by decide)
  obtain ⟨hcontext, hpaired, hcur, hdepth, hbefore, hnext⟩ := hsteps
  obtain ⟨s', hstep, hzero⟩ := map_eq_some_iff.mp hnext
  have hboot : oneFresh.Boot := ⟨rfl, fun _ => rfl, fun _ => rfl, rfl, rfl, fun _ => .inr rfl,
    fun _ => rfl, rfl, fun _ => rfl, rfl⟩
  exact ⟨s, s', hreach, hcontext, hstep, (nesting_survives_switches hboot hreach).2.2.2 _ _ _ _
    hpaired hstep hcur hdepth hzero hbefore⟩

end Sys
end Xv6.Sync.Nesting
