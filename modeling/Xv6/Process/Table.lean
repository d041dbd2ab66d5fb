import Mathlib.Algebra.GroupWithZero.Nat
import Mathlib.Order.Fin.Basic

/-!
# The process table of `proc.c`

The table is the array `ptable.proc`; each operation below is one critical
section of `ptable.lock`, so the state between two operations is what another
process can see. Kernel stacks, page tables and trap frames are not in the
table: an allocation that fails shows only as the slot going back to `UNUSED`.

## Implementation notes

`int` fields are `Int32` and `ticks` is `UInt32`, so wrap-around is the one of
the machine. `cycleNum` is a `double` that starts at one and is only
incremented; it is kept as a natural number, which it is up to `2 ^ 53`.
-/

namespace Xv6.Process
open List

/-- `param.h`: maximum number of processes. -/
def NPROC : Nat := 64

instance : NeZero NPROC := ⟨by decide⟩

/-- `enum procstate`. -/
inductive ProcState where
  | unused
  | embryo
  | sleeping
  | runnable
  | running
  | zombie
  deriving DecidableEq, Repr

/-- A sleep channel: the address of a table entry, as in `wait`, or any other address. -/
inductive Chan where
  | null
  | proc (i : Fin NPROC)
  | addr (a : Nat)
  deriving DecidableEq, Repr

/-- The fields of `struct proc` that `proc.c` schedules and synchronises with. -/
structure Proc where
  state : ProcState := .unused
  pid : Int32 := 0
  parent : Option (Fin NPROC) := none
  chan : Chan := .null
  killed : Bool := false
  level : Int32 := 0
  ticket : Int32 := 0
  arrTime : Int32 := 0
  cycleNum : Nat := 0
  remainingPriority : Int32 := 0
  deriving DecidableEq, Repr

/-- `ptable.proc`. -/
abbrev Table := Fin NPROC → Proc

/-- The table with the two globals that belong to it. -/
structure PTable where
  proc : Table
  nextpid : Int32
  initproc : Fin NPROC

/-- The scan `for (p = ptable.proc; p < &ptable.proc[NPROC]; p++)`. It is sealed so that
no proof unrolls the loop. -/
@[irreducible] def slots : List (Fin NPROC) := List.finRange NPROC

@[simp] lemma mem_slots (p : Fin NPROC) : p ∈ slots := by
  unfold slots
  exact mem_finRange p

lemma slots_nodup : slots.Nodup := by
  unfold slots
  exact nodup_finRange NPROC

lemma slots_getElem? {i : Nat} (h : i < NPROC) : slots[i]? = some ⟨i, h⟩ := by
  unfold slots
  simp [h]

namespace PTable

/-- Store a new record in slot `p`. -/
def set (t : PTable) (p : Fin NPROC) (r : Proc) : PTable :=
  { t with proc := Function.update t.proc p r }

@[simp] lemma set_self (t : PTable) (p : Fin NPROC) (r : Proc) : (t.set p r).proc p = r := by
  simp [set]

@[simp] lemma set_of_ne (t : PTable) {p q : Fin NPROC} (r : Proc) (h : q ≠ p) :
    (t.set p r).proc q = t.proc q := by
  simp [set, h]

@[simp] lemma set_nextpid (t : PTable) (p : Fin NPROC) (r : Proc) :
    (t.set p r).nextpid = t.nextpid := rfl

@[simp] lemma set_initproc (t : PTable) (p : Fin NPROC) (r : Proc) :
    (t.set p r).initproc = t.initproc := rfl

lemma set_apply (t : PTable) (p q : Fin NPROC) (r : Proc) :
    (t.set p r).proc q = if q = p then r else t.proc q := by
  simp [set, Function.update_apply]

end PTable

/-- The table of a machine that has not started a process: the array is in the
zeroed part of the kernel image and `nextpid` is one. -/
def boot : PTable where
  proc := fun _ => {}
  nextpid := 1
  initproc := 0

/-- `allocproc` up to its release of the lock. The first `UNUSED` slot becomes
`EMBRYO` with the next pid. `nextpid++` overflows at the largest `int`, which C
leaves undefined, so there is no result there. -/
def allocproc (t : PTable) (now : UInt32) : Option (Fin NPROC × PTable) :=
  match slots.find? fun p => (t.proc p).state = .unused with
  | none => none
  | some p =>
    if t.nextpid = Int32.maxValue then none
    else some (p, { t.set p { t.proc p with
        level := 0, arrTime := now.toInt32, ticket := 10, cycleNum := 1,
        remainingPriority := 10, state := .embryo, pid := t.nextpid } with
      nextpid := t.nextpid + 1 })

/-- The failure paths of `allocproc` and `fork`: only the state goes back. -/
def unalloc (t : PTable) (np : Fin NPROC) : PTable := t.set np { t.proc np with state := .unused }

/-- The end of `fork`: the child gets its parent and becomes `RUNNABLE`. -/
def forkCommit (t : PTable) (cur np : Fin NPROC) : PTable :=
  t.set np { t.proc np with parent := some cur, state := .runnable }

/-- The end of `userinit`. -/
def userinitCommit (t : PTable) (p : Fin NPROC) : PTable :=
  { t.set p { t.proc p with state := .runnable } with initproc := p }

/-- `wakeup1`: every process asleep on the channel becomes `RUNNABLE`. -/
def wakeup1 (t : PTable) (chan : Chan) : PTable :=
  { t with proc := fun p =>
      if (t.proc p).state = .sleeping ∧ (t.proc p).chan = chan
      then { t.proc p with state := .runnable } else t.proc p }

/-- The address `wakeup1(curproc->parent)` is called with. -/
def parentChan (t : PTable) (p : Fin NPROC) : Chan :=
  match (t.proc p).parent with
  | none => .null
  | some q => .proc q

/-- One iteration of the loop of `exit` that hands children to `initproc`. -/
def reparentStep (cur : Fin NPROC) (t : PTable) (p : Fin NPROC) : PTable :=
  if (t.proc p).parent = some cur then
    let t' := t.set p { t.proc p with parent := some t.initproc }
    if (t.proc p).state = .zombie then wakeup1 t' (.proc t.initproc) else t'
  else t

/-- The critical section of `exit`, up to the jump into the scheduler. -/
def exit (t : PTable) (cur : Fin NPROC) : PTable :=
  let t₁ := wakeup1 t (parentChan t cur)
  let t₂ := slots.foldl (reparentStep cur) t₁
  t₂.set cur { t₂.proc cur with state := .zombie }

/-- What one round of the loop of `wait` does. -/
inductive WaitResult where
  | reaped (pid : Int32) (t : PTable)
  | failed
  | asleep (t : PTable)

/-- One round of the loop of `wait`: reap the first exited child, give up, or sleep. -/
def waitRound (t : PTable) (cur : Fin NPROC) : WaitResult :=
  match slots.find? fun p => (t.proc p).parent = some cur ∧ (t.proc p).state = .zombie with
  | some p =>
    .reaped (t.proc p).pid (t.set p { t.proc p with
      pid := 0, parent := none, killed := false, state := .unused })
  | none =>
    if (∀ p ∈ slots, (t.proc p).parent ≠ some cur) ∨ (t.proc cur).killed then .failed
    else .asleep (t.set cur { t.proc cur with chan := .proc cur, state := .sleeping })

/-- `sleep` up to its call of `sched`. -/
def sleep (t : PTable) (cur : Fin NPROC) (chan : Chan) : PTable :=
  t.set cur { t.proc cur with chan := chan, state := .sleeping }

/-- The rest of `sleep`, once the process runs again: the channel is cleared. -/
def sleepReturn (t : PTable) (cur : Fin NPROC) : PTable :=
  t.set cur { t.proc cur with chan := .null }

/-- `yield` up to its call of `sched`. -/
def yield (t : PTable) (cur : Fin NPROC) : PTable :=
  t.set cur { t.proc cur with state := .runnable }

/-- `kill`: the first entry with the pid is marked, and woken if it sleeps. -/
def kill (t : PTable) (pid : Int32) : Int32 × PTable :=
  match slots.find? fun p => (t.proc p).pid = pid with
  | none => (-1, t)
  | some p =>
    (0, t.set p { t.proc p with
      killed := true,
      state := if (t.proc p).state = .sleeping then .runnable else (t.proc p).state })

/-- The loop shared by the three setters: change every entry with the pid. -/
def setByPid (t : PTable) (pid : Int32) (f : Proc → Proc) : PTable :=
  { t with proc := fun p => if (t.proc p).pid = pid then f (t.proc p) else t.proc p }

/-- `change_process_level`. -/
def changeProcessLevel (t : PTable) (pid level : Int32) : PTable :=
  setByPid t pid fun r => { r with level := level }

/-- `set_process_ticket`. -/
def setProcessTicket (t : PTable) (pid ticket : Int32) : PTable :=
  setByPid t pid fun r => { r with ticket := ticket }

/-- `set_process_remaining_priority`. -/
def setProcessRemainingPriority (t : PTable) (pid priority : Int32) : PTable :=
  setByPid t pid fun r => { r with remainingPriority := priority }

/-- The two scheduling fields that a successful `exec` resets; `1e5` is the ticket count. -/
def execCommit (t : PTable) (cur : Fin NPROC) : PTable :=
  t.set cur { t.proc cur with level := 0, ticket := 100000 }

/-- The record of a slot that `kill` has hit. -/
def Proc.hit (r : Proc) : Proc :=
  { r with killed := true, state := if r.state = .sleeping then .runnable else r.state }

/-- What `kill` does: it hits the first slot with the pid, if there is one. -/
lemma kill_spec (t : PTable) (pid : Int32) :
    (∃ p, (t.proc p).pid = pid ∧ kill t pid = (0, t.set p (t.proc p).hit)) ∨
      (∀ p, (t.proc p).pid ≠ pid) ∧ kill t pid = (-1, t) := by
  unfold kill
  split
  · rename_i hfind
    refine .inr ⟨?_, rfl⟩
    intro p hp
    exact find?_eq_none.mp hfind p (mem_slots p) (decide_eq_true hp)
  rename_i p hfind
  have hp := find?_some hfind
  exact .inl ⟨p, of_decide_eq_true hp, rfl⟩

/-- What holds of all records still holds when one of them is replaced by a record of that kind. -/
lemma PTable.forall_set {P : Fin NPROC → Proc → Prop} {t : PTable} (h : ∀ q, P q (t.proc q))
    {p : Fin NPROC} {r : Proc} (hr : P p r) (q : Fin NPROC) : P q ((t.set p r).proc q) := by
  by_cases hq : q = p
  · subst hq
    rwa [set_self]
  · rw [set_of_ne t r hq]
    exact h q

lemma PTable.set_field {α : Type} (g : Proc → α) (t : PTable) (p : Fin NPROC) {r : Proc}
    (h : g r = g (t.proc p)) (q : Fin NPROC) : g ((t.set p r).proc q) = g (t.proc q) :=
  forall_set (P := fun q r => g r = g (t.proc q)) (fun _ => rfl) h q

/-- A field that the setter does not change. -/
lemma setByPid_field {α : Type} (g : Proc → α) (t : PTable) (pid : Int32) {f : Proc → Proc}
    (hf : ∀ r, g (f r) = g r) (q : Fin NPROC) : g ((setByPid t pid f).proc q) = g (t.proc q) := by
  unfold setByPid
  dsimp only
  split
  · exact hf _
  · rfl

@[simp] lemma changeProcessLevel_state (t : PTable) (pid level : Int32) (q : Fin NPROC) :
    ((changeProcessLevel t pid level).proc q).state = (t.proc q).state := by
  unfold changeProcessLevel
  apply setByPid_field Proc.state
  exact fun _ => rfl

@[simp] lemma setProcessTicket_state (t : PTable) (pid ticket : Int32) (q : Fin NPROC) :
    ((setProcessTicket t pid ticket).proc q).state = (t.proc q).state := by
  unfold setProcessTicket
  apply setByPid_field Proc.state
  exact fun _ => rfl

@[simp] lemma setProcessRemainingPriority_state (t : PTable) (pid priority : Int32)
    (q : Fin NPROC) : ((setProcessRemainingPriority t pid priority).proc q).state =
      (t.proc q).state := by
  unfold setProcessRemainingPriority
  apply setByPid_field Proc.state
  exact fun _ => rfl

/-- The record of a slot that `allocproc` has taken. -/
def Proc.allocated (r : Proc) (now : UInt32) (pid : Int32) : Proc :=
  { r with
    level := 0, arrTime := now.toInt32, ticket := 10, cycleNum := 1,
    remainingPriority := 10, state := .embryo, pid := pid }

/-- `nextpid++` -/
def PTable.takePid (t : PTable) : PTable := { t with nextpid := t.nextpid + 1 }

/-- What `allocproc` does when it returns a slot. -/
structure Allocated (t : PTable) (now : UInt32) (np : Fin NPROC) (t' : PTable) : Prop where
  unused : (t.proc np).state = .unused
  not_max : t.nextpid ≠ Int32.maxValue
  eq : t' = (t.set np ((t.proc np).allocated now t.nextpid)).takePid
  nextpid : t'.nextpid = t.nextpid + 1
  initproc : t'.initproc = t.initproc
  other : ∀ q ≠ np, t'.proc q = t.proc q
  proc : t'.proc np = (t.proc np).allocated now t.nextpid

lemma allocproc_spec {t t' : PTable} {now : UInt32} {np : Fin NPROC}
    (h : allocproc t now = some (np, t')) : Allocated t now np t' := by
  unfold allocproc at h
  split at h
  · cases h
  rename_i p hfind
  split at h
  · cases h
  rename_i hmax
  cases h
  have hunused := find?_some hfind
  exact ⟨of_decide_eq_true hunused, hmax, rfl, rfl, rfl,
    fun q hq => PTable.set_of_ne t _ hq, PTable.set_self t _ _⟩

/-- The record of a slot that `wait` has freed. -/
def Proc.freed (r : Proc) : Proc :=
  { r with pid := 0, parent := none, killed := false, state := .unused }

/-- What a round of `wait` does: it frees a child that has exited, or there is none, and it
returns or sleeps. -/
lemma waitRound_spec (t : PTable) (cur : Fin NPROC) :
    (∃ z, (t.proc z).parent = some cur ∧ (t.proc z).state = .zombie ∧
      waitRound t cur = .reaped (t.proc z).pid (t.set z (t.proc z).freed)) ∨
    (∀ z, (t.proc z).parent = some cur → (t.proc z).state ≠ .zombie) ∧
      (waitRound t cur = .failed ∨ waitRound t cur = .asleep (sleep t cur (.proc cur))) := by
  unfold waitRound
  split
  · rename_i z hfind
    have hz := find?_some hfind
    obtain ⟨hparent, hzombie⟩ := of_decide_eq_true hz
    exact .inl ⟨z, hparent, hzombie, rfl⟩
  rename_i hfind
  refine .inr ⟨?_, ?_⟩
  · intro z hparent hzombie
    have hnone := find?_eq_none.mp hfind z (mem_slots z)
    exact hnone (decide_eq_true ⟨hparent, hzombie⟩)
  split
  · exact .inl rfl
  · exact .inr rfl

/-- A record with another parent and state. -/
def Proc.moved (r : Proc) (parent : Option (Fin NPROC)) (state : ProcState) : Proc :=
  { r with parent := parent, state := state }

@[simp] lemma Proc.moved_state (r : Proc) (o : Option (Fin NPROC)) (st : ProcState) :
    (r.moved o st).state = st := rfl

@[simp] lemma Proc.moved_parent (r : Proc) (o : Option (Fin NPROC)) (st : ProcState) :
    (r.moved o st).parent = o := rfl

@[simp] lemma Proc.moved_chan (r : Proc) (o : Option (Fin NPROC)) (st : ProcState) :
    (r.moved o st).chan = r.chan := rfl

@[simp] lemma Proc.moved_moved (r : Proc) (o o' : Option (Fin NPROC)) (st st' : ProcState) :
    (r.moved o st).moved o' st' = r.moved o' st' := rfl

lemma wakeup1_apply (t : PTable) (chan : Chan) (q : Fin NPROC) :
    (wakeup1 t chan).proc q = (t.proc q).moved (t.proc q).parent
      (if (t.proc q).state = .sleeping ∧ (t.proc q).chan = chan then .runnable
        else (t.proc q).state) := by
  unfold wakeup1
  dsimp only
  split <;> rfl

@[simp] lemma wakeup1_parent (t : PTable) (chan : Chan) (q : Fin NPROC) :
    ((wakeup1 t chan).proc q).parent = (t.proc q).parent := by
  rw [wakeup1_apply]
  rfl

@[simp] lemma wakeup1_initproc (t : PTable) (chan : Chan) :
    (wakeup1 t chan).initproc = t.initproc := rfl

lemma reparentStep_apply (t : PTable) (cur p q : Fin NPROC) :
    (reparentStep cur t p).proc q = (t.proc q).moved
      (if q = p ∧ (t.proc q).parent = some cur then some t.initproc else (t.proc q).parent)
      (if ((t.proc q).state = .sleeping ∧ (t.proc q).chan = .proc t.initproc) ∧
          (t.proc p).parent = some cur ∧ (t.proc p).state = .zombie then .runnable
        else (t.proc q).state) := by
  by_cases hcur : (t.proc p).parent = some cur
  · let t' := t.set p ((t.proc p).moved (some t.initproc) (t.proc p).state)
    have hset : t'.proc q = (t.proc q).moved
        (if q = p ∧ (t.proc q).parent = some cur then some t.initproc else (t.proc q).parent)
        (t.proc q).state := by
      rw [PTable.set_apply]
      by_cases hq : q = p
      · subst hq
        simp [hcur]
      · simp only [hq, if_false, false_and]
        rfl
    have hstep : reparentStep cur t p =
        if (t.proc p).state = .zombie then wakeup1 t' (.proc t.initproc) else t' := if_pos hcur
    rw [hstep]
    by_cases hz : (t.proc p).state = .zombie
    · rw [if_pos hz, wakeup1_apply, hset]
      by_cases hsl : (t.proc q).state = .sleeping ∧ (t.proc q).chan = .proc t.initproc <;>
        simp [hcur, hz, hsl]
    · rw [if_neg hz, hset]
      simp [hz]
  rw [show reparentStep cur t p = t from if_neg hcur]
  have hsame : ¬ (q = p ∧ (t.proc q).parent = some cur) := fun h => hcur (h.1 ▸ h.2)
  simp only [hcur, hsame, false_and, and_false, if_false]
  rfl

lemma reparentStep_globals (t : PTable) (cur p : Fin NPROC) :
    (reparentStep cur t p).initproc = t.initproc ∧ (reparentStep cur t p).nextpid = t.nextpid := by
  unfold reparentStep
  split
  · dsimp only
    split <;> exact ⟨rfl, rfl⟩
  · exact ⟨rfl, rfl⟩

lemma reparent_globals (t : PTable) (cur : Fin NPROC) (ps : List (Fin NPROC)) :
    (ps.foldl (reparentStep cur) t).initproc = t.initproc ∧
      (ps.foldl (reparentStep cur) t).nextpid = t.nextpid := by
  induction ps generalizing t with
  | nil => exact ⟨rfl, rfl⟩
  | cons p ps ih =>
    obtain ⟨hi, hn⟩ := ih (reparentStep cur t p)
    obtain ⟨hi', hn'⟩ := reparentStep_globals t cur p
    exact ⟨hi.trans hi', hn.trans hn'⟩

lemma reparent_apply (t : PTable) (cur : Fin NPROC) (ps : List (Fin NPROC)) (hnd : ps.Nodup)
    (q : Fin NPROC) : (ps.foldl (reparentStep cur) t).proc q = (t.proc q).moved
      (if q ∈ ps ∧ (t.proc q).parent = some cur then some t.initproc else (t.proc q).parent)
      (if ((t.proc q).state = .sleeping ∧ (t.proc q).chan = .proc t.initproc) ∧
          ∃ z ∈ ps, (t.proc z).parent = some cur ∧ (t.proc z).state = .zombie then .runnable
        else (t.proc q).state) := by
  induction ps generalizing t with
  | nil =>
    simp only [foldl_nil, not_mem_nil, false_and, exists_false, and_false, if_false]
    rfl
  | cons p ps ih =>
    obtain ⟨hp, hnd⟩ := nodup_cons.mp hnd
    have hchild : (∃ z ∈ ps, ((reparentStep cur t p).proc z).parent = some cur ∧
        ((reparentStep cur t p).proc z).state = .zombie) ↔
        ∃ z ∈ ps, (t.proc z).parent = some cur ∧ (t.proc z).state = .zombie := by
      refine exists_congr fun z => and_congr_right fun hz => ?_
      have hne : z ≠ p := fun h => hp (h ▸ hz)
      rw [reparentStep_apply]
      simp only [hne, false_and, if_false, Proc.moved_parent, Proc.moved_state]
      refine and_congr_right fun _ => ?_
      split
      · rename_i h
        simp [h.1.1]
      · rfl
    rw [foldl_cons, ih _ hnd, (reparentStep_globals t cur p).1]
    simp only [hchild]
    rw [reparentStep_apply]
    simp only [Proc.moved_parent, Proc.moved_state, Proc.moved_chan, Proc.moved_moved,
      mem_cons, exists_eq_or_imp]
    congr 1
    · by_cases hq : q = p
      · subst hq
        by_cases hcur : (t.proc q).parent = some cur <;> simp [hcur, hp]
      · simp [hq]
    by_cases hsl : (t.proc q).state = .sleeping ∧ (t.proc q).chan = .proc t.initproc
    · by_cases hz : (t.proc p).parent = some cur ∧ (t.proc p).state = .zombie
      · simp [hsl, hz]
      · simp only [hsl, hz, and_false, if_false, false_or, true_and]
    · simp [hsl]

@[simp] lemma exit_initproc (t : PTable) (cur : Fin NPROC) : (exit t cur).initproc = t.initproc :=
  (reparent_globals (wakeup1 t (parentChan t cur)) cur slots).1

@[simp] lemma exit_nextpid (t : PTable) (cur : Fin NPROC) : (exit t cur).nextpid = t.nextpid :=
  (reparent_globals (wakeup1 t (parentChan t cur)) cur slots).2

/-- `exit` of `cur` wakes slot `q`: it sleeps in `wait` as the parent, or it is `initproc` and
an exited child is handed to it. -/
def WokenByExit (t : PTable) (cur q : Fin NPROC) : Prop :=
  (t.proc q).state = .sleeping ∧ ((t.proc q).chan = parentChan t cur ∨
    (t.proc q).chan = .proc t.initproc ∧
      ∃ z, (t.proc z).parent = some cur ∧ (t.proc z).state = .zombie)

instance (t : PTable) (cur q : Fin NPROC) : Decidable (WokenByExit t cur q) :=
  inferInstanceAs (Decidable (_ ∧ _))

lemma exit_apply (t : PTable) (cur q : Fin NPROC) : (exit t cur).proc q = (t.proc q).moved
      (if (t.proc q).parent = some cur then some t.initproc else (t.proc q).parent)
      (if q = cur then .zombie else if WokenByExit t cur q then .runnable
        else (t.proc q).state) := by
  have hzombie : ∀ z, ((wakeup1 t (parentChan t cur)).proc z).state = .zombie ↔
      (t.proc z).state = .zombie := by
    intro z
    rw [wakeup1_apply, Proc.moved_state]
    split
    · rename_i h
      simp [h.1]
    · rfl
  have hloop := reparent_apply (wakeup1 t (parentChan t cur)) cur slots slots_nodup q
  simp only [mem_slots, true_and, hzombie, wakeup1_parent, wakeup1_initproc] at hloop
  rw [wakeup1_apply] at hloop
  have hexit : exit t cur = (slots.foldl (reparentStep cur) (wakeup1 t (parentChan t cur))).set cur
      (((slots.foldl (reparentStep cur) (wakeup1 t (parentChan t cur))).proc cur).moved
        ((slots.foldl (reparentStep cur) (wakeup1 t (parentChan t cur))).proc cur).parent
        .zombie) := rfl
  rw [hexit, PTable.set_apply]
  by_cases hq : q = cur
  · subst hq
    rw [if_pos rfl, hloop, if_pos rfl]
    simp
  rw [if_neg hq, hloop, if_neg hq]
  simp only [Proc.moved_moved, Proc.moved_state, Proc.moved_chan]
  congr 1
  unfold WokenByExit
  by_cases hsl : (t.proc q).state = .sleeping
  · by_cases hchan : (t.proc q).chan = parentChan t cur
    · simp [hsl, hchan]
    · simp [hsl, hchan]
  · simp [hsl]

end Xv6.Process
