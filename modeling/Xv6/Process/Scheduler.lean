import Xv6.Lib.Best
import Xv6.Process.Table
import Mathlib.Algebra.Order.Ring.Rat

/-!
# The three-level scheduler of `proc.c`

The scheduler runs on one CPU and leaves it in two places: at `sti`, where
pending interrupts are served, and at the `swtch` of `run_p`, where a process
runs until it comes back through `sched`. What happens in either place is given
by an environment that may change the table and the clock in any way. Every
switch is recorded with the table at the moment it is made.

## Implementation notes

The response ratio of the second level is a `double` in the source; here it is
the exact quotient. The remainder of the lottery is taken by the `div`
instruction, which traps on a zero divisor; `trap` records that, and nothing
runs after it.
-/

namespace Xv6.Process

/-- What the rest of the machine does while the scheduler does not have the CPU,
indexed by how often the scheduler has left it before. -/
abbrev Env := Nat → PTable × UInt32 → PTable × UInt32

/-- One switch of `run_p`: the scan it was made in, the table when it was made,
the chosen slot and the table when control came back. -/
structure Switch where
  level : Int32
  before : Table
  chosen : Fin NPROC
  after : Table

/-- The CPU while `scheduler` holds it. -/
structure Cpu where
  t : PTable
  ticks : UInt32
  away : Nat := 0
  switches : List Switch := []
  trap : Bool := false

namespace Cpu

/-- Store a new record in slot `p`. -/
def set (s : Cpu) (p : Fin NPROC) (r : Proc) : Cpu := { s with t := s.t.set p r }

/-- Give the machine to the environment once. -/
def leave (env : Env) (s : Cpu) : Cpu :=
  let r := env s.away (s.t, s.ticks)
  { s with t := r.1, ticks := r.2, away := s.away + 1 }

end Cpu

variable (env : Env)

/-- `run_p`: the cycle counter moves before the state is looked at. -/
def runP (level : Int32) (p : Fin NPROC) (s : Cpu) : Cpu :=
  let s := s.set p { s.t.proc p with cycleNum := (s.t.proc p).cycleNum + 1 }
  if (s.t.proc p).state ≠ .runnable then s
  else
    let s' := (s.set p { s.t.proc p with state := .running }).leave env
    { s' with switches := s.switches ++ [⟨level, s.t.proc, p, s'.t.proc⟩] }

/-- One iteration of the first loop of `run_first_level_processes`. -/
def ticketStep (t : Table) (n : Int32) (p : Fin NPROC) : Int32 :=
  if (t p).level = 0 then n + (t p).ticket else n

/-- The tickets of the level-0 slots of a list; over all slots this is `max_ticket_number`. -/
def ticketSum (t : Table) (ps : List (Fin NPROC)) : Int32 := ps.foldl (ticketStep t) 0

/-- `random_ticket`: unsigned arithmetic, with the result stored in an `int`. -/
def randomTicket (ticks : UInt32) (maxTicketNumber : Int32) : Int32 :=
  ((ticks * 11 + 13) % maxTicketNumber.toUInt32 + 1).toInt32

/-- One iteration of the second loop of `run_first_level_processes`, with
`random_counter` as the first component. -/
def lotteryStep (random : Int32) (st : Int32 × Cpu) (p : Fin NPROC) : Int32 × Cpu :=
  if (st.2.t.proc p).level = 0 then
    let counter := st.1 + (st.2.t.proc p).ticket
    if random ≤ counter then (counter, runP env 0 p st.2) else (counter, st.2)
  else st

/-- `run_first_level_processes`. -/
def runFirstLevelProcesses (s : Cpu) : Cpu :=
  let maxTicketNumber := ticketSum s.t.proc slots
  if maxTicketNumber = 0 then { s with trap := true }
  else (slots.foldl (lotteryStep env (randomTicket s.ticks maxTicketNumber)) (0, s)).2

/-- The response ratio `waiting_time / p->cycleNum`. -/
def hrrn (now : UInt32) (r : Proc) : ℚ := ((now - r.arrTime.toUInt32).toNat : ℚ) / r.cycleNum

/-- The first loop of `run_second_level_processes`: `max_hrrn` and `max_hrrn_pid`. -/
def hrrnStep (now : UInt32) (t : Table) : ℚ × Int32 → Fin NPROC → ℚ × Int32 :=
  Lib.bestStep (fun p => (t p).level = 1 ∧ (t p).state = .runnable)
    (fun p => hrrn now (t p)) (· > ·) (fun p => (t p).pid)

/-- The second loop of both lower levels: `before` is done to each slot with the
pid, then `run_p` is called on it. -/
def runPidStep (level : Int32) (pid : Int32) (before : Proc → Proc) (s : Cpu) (p : Fin NPROC) :
    Cpu :=
  if (s.t.proc p).pid = pid then runP env level p (s.set p (before (s.t.proc p))) else s

/-- `run_second_level_processes`. -/
def runSecondLevelProcesses (s : Cpu) : Cpu :=
  let maxHrrnPid := (slots.foldl (hrrnStep s.ticks s.t.proc) (-1, -1)).2
  slots.foldl (runPidStep env 1 maxHrrnPid id) s

/-- The first loop of `run_third_level_processes`: `min_priority` and `min_priority_pid`. -/
def priorityStep (t : Table) : Int32 × Int32 → Fin NPROC → Int32 × Int32 :=
  Lib.bestStep (fun p => (t p).level = 2 ∧ (t p).state = .runnable)
    (fun p => (t p).remainingPriority) (· < ·) (fun p => (t p).pid)

/-- The decrement of `run_third_level_processes`. At the smallest `int` the difference overflows,
which C leaves undefined; it wraps here, as it does in the code that compilers make of it, while
`allocproc` has no result where `nextpid++` overflows. -/
def spendPriority (r : Proc) : Proc :=
  if r.remainingPriority - 1 ≥ 0 then { r with remainingPriority := r.remainingPriority - 1 } else r

/-- `run_third_level_processes`. -/
def runThirdLevelProcesses (s : Cpu) : Cpu :=
  let minPriorityPid := (slots.foldl (priorityStep s.t.proc) (1000000000, -1)).2
  slots.foldl (runPidStep env 2 minPriorityPid spendPriority) s

/-- One iteration of a scan of `scheduler`, with the flag `ran`. -/
def scanStep (level : Int32) (run : Cpu → Cpu) (st : Bool × Cpu) (p : Fin NPROC) : Bool × Cpu :=
  if st.2.trap then st
  else if (st.2.t.proc p).level = level ∧ (st.2.t.proc p).state = .runnable
    then (true, run st.2) else st

/-- The scan of one level. -/
def scan (level : Int32) (run : Cpu → Cpu) (s : Cpu) : Bool × Cpu :=
  slots.foldl (scanStep level run) (false, s)

/-- The body of the loop of `scheduler` between `acquire` and `release` of `ptable.lock`. -/
def schedulerBody (s : Cpu) : Cpu :=
  let first := scan 0 (runFirstLevelProcesses env) s
  if first.1 then first.2
  else
    let second := scan 1 (runSecondLevelProcesses env) first.2
    if second.1 then second.2
    else (scan 2 (runThirdLevelProcesses env) second.2).2

/-- One round of the loop of `scheduler`: interrupts are served at `sti`, then the body runs. -/
def schedulerRound (s : Cpu) : Cpu := if s.trap then s else schedulerBody env (s.leave env)

/-- The first `n` rounds of `scheduler`. -/
def scheduler (n : Nat) (s : Cpu) : Cpu := (schedulerRound env)^[n] s

end Xv6.Process
