import Xv6.Process.Scheduler

/-!
# Runs of the process table

A step is one critical section of `ptable.lock` taken by the process that has
the CPU, by an interrupt handler or by the scheduler. With `NCPU` equal to one
the scheduler acts only while no process is `RUNNING`.
-/

namespace Xv6.Process

/-- `userinit`, at the first value of the clock that it reads. -/
def userinit (now : UInt32) : Option PTable :=
  (allocproc boot now).map fun r => userinitCommit r.2 r.1

/-- The table as the scheduler leaves it when it switches to `p`. -/
def dispatch (t : PTable) (p : Fin NPROC) : PTable :=
  t.set p { t.proc p with cycleNum := (t.proc p).cycleNum + 1, state := .running }

/-- `run_p` on a process that is not `RUNNABLE`. -/
def charge (t : PTable) (p : Fin NPROC) : PTable :=
  t.set p { t.proc p with cycleNum := (t.proc p).cycleNum + 1 }

/-- The critical sections of `ptable.lock`; `cur` is the process that has the CPU. -/
inductive Step : PTable → PTable → Prop
  | allocproc {t t'} (cur np : Fin NPROC) (now : UInt32) (hcur : (t.proc cur).state = .running)
      (h : allocproc t now = some (np, t')) : Step t t'
  | unalloc {t} (cur np : Fin NPROC) (hcur : (t.proc cur).state = .running)
      (hnp : (t.proc np).state = .embryo) : Step t (unalloc t np)
  | fork {t} (cur np : Fin NPROC) (hcur : (t.proc cur).state = .running)
      (hnp : (t.proc np).state = .embryo) : Step t (forkCommit t cur np)
  | exec {t} (cur : Fin NPROC) (hcur : (t.proc cur).state = .running) : Step t (execCommit t cur)
  | exit {t} (cur : Fin NPROC) (hcur : (t.proc cur).state = .running)
      (hinit : cur ≠ t.initproc) : Step t (exit t cur)
  | reap {t t' pid} (cur : Fin NPROC) (hcur : (t.proc cur).state = .running)
      (h : waitRound t cur = .reaped pid t') : Step t t'
  | waitSleep {t t'} (cur : Fin NPROC) (hcur : (t.proc cur).state = .running)
      (h : waitRound t cur = .asleep t') : Step t t'
  | sleep {t} (cur : Fin NPROC) (chan : Chan) (hcur : (t.proc cur).state = .running) :
      Step t (sleep t cur chan)
  | sleepReturn {t} (cur : Fin NPROC) (hcur : (t.proc cur).state = .running) :
      Step t (sleepReturn t cur)
  | yield {t} (cur : Fin NPROC) (hcur : (t.proc cur).state = .running) : Step t (yield t cur)
  | wakeup {t} (chan : Chan) : Step t (wakeup1 t chan)
  | kill {t} (cur : Fin NPROC) (pid : Int32) (hcur : (t.proc cur).state = .running) :
      Step t (kill t pid).2
  | changeLevel {t} (cur : Fin NPROC) (pid level : Int32) (hcur : (t.proc cur).state = .running) :
      Step t (changeProcessLevel t pid level)
  | setTicket {t} (cur : Fin NPROC) (pid ticket : Int32) (hcur : (t.proc cur).state = .running) :
      Step t (setProcessTicket t pid ticket)
  | setPriority {t} (cur : Fin NPROC) (pid priority : Int32)
      (hcur : (t.proc cur).state = .running) : Step t (setProcessRemainingPriority t pid priority)
  | dispatch {t} (p : Fin NPROC) (hidle : ∀ q, (t.proc q).state ≠ .running)
      (hp : (t.proc p).state = .runnable) : Step t (dispatch t p)
  | charge {t} (p : Fin NPROC) (hidle : ∀ q, (t.proc q).state ≠ .running)
      (hp : (t.proc p).state ≠ .runnable) : Step t (charge t p)
  | spend {t} (p : Fin NPROC) (hidle : ∀ q, (t.proc q).state ≠ .running) :
      Step t (t.set p (spendPriority (t.proc p)))

/-- The tables that a machine can get to after `userinit`. -/
inductive Reachable : PTable → Prop
  | start {t} (now : UInt32) (h : userinit now = some t) : Reachable t
  | step {t t'} (ht : Reachable t) (h : Step t t') : Reachable t'

end Xv6.Process
