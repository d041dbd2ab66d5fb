import Xv6.Lib.Runs
import Xv6.Process.Run

/-!
# What happens to the table while the scheduler is away

The critical sections of processes and interrupt handlers as a machine of their
own. Apart from `allocproc`, none of them gives a slot a new pid or touches its
cycle counter. Pids therefore stay below `nextpid` and name one slot each, also
the ones that failed calls of `fork` leave in `UNUSED` slots, and a pid that no
other slot has now is not taken by one later.
-/

namespace Xv6.Process
open Lib Option

/-- One critical section of `ptable.lock`; `cur` is the process that takes it. -/
inductive Act where
  | allocproc (cur : Fin NPROC) (now : UInt32)
  | unalloc (cur np : Fin NPROC)
  | fork (cur np : Fin NPROC)
  | exec (cur : Fin NPROC)
  | exit (cur : Fin NPROC)
  | wait (cur : Fin NPROC)
  | sleep (cur : Fin NPROC) (chan : Chan)
  | sleepReturn (cur : Fin NPROC)
  | yield (cur : Fin NPROC)
  | wakeup (chan : Chan)
  | kill (cur : Fin NPROC) (pid : Int32)
  | changeProcessLevel (cur : Fin NPROC) (pid level : Int32)
  | setProcessTicket (cur : Fin NPROC) (pid ticket : Int32)
  | setProcessRemainingPriority (cur : Fin NPROC) (pid priority : Int32)
  deriving DecidableEq, Repr

/-- The table after the section. A process must have the CPU to enter one, `fork` works on an
`EMBRYO` slot and `initproc` does not exit. -/
def act (t : PTable) : Act → Option PTable
  | .allocproc cur now =>
    if (t.proc cur).state = .running then (allocproc t now).map Prod.snd else none
  | .unalloc cur np =>
    if (t.proc cur).state = .running ∧ (t.proc np).state = .embryo then some (unalloc t np)
    else none
  | .fork cur np =>
    if (t.proc cur).state = .running ∧ (t.proc np).state = .embryo then
      some (forkCommit t cur np)
    else none
  | .exec cur => if (t.proc cur).state = .running then some (execCommit t cur) else none
  | .exit cur =>
    if (t.proc cur).state = .running ∧ cur ≠ t.initproc then some (exit t cur) else none
  | .wait cur =>
    if (t.proc cur).state = .running then
      match waitRound t cur with
      | .reaped _ t' => some t'
      | .failed => some t
      | .asleep t' => some t'
    else none
  | .sleep cur chan => if (t.proc cur).state = .running then some (sleep t cur chan) else none
  | .sleepReturn cur => if (t.proc cur).state = .running then some (sleepReturn t cur) else none
  | .yield cur => if (t.proc cur).state = .running then some (yield t cur) else none
  | .wakeup chan => some (wakeup1 t chan)
  | .kill cur pid => if (t.proc cur).state = .running then some (kill t pid).2 else none
  | .changeProcessLevel cur pid level =>
    if (t.proc cur).state = .running then some (changeProcessLevel t pid level) else none
  | .setProcessTicket cur pid ticket =>
    if (t.proc cur).state = .running then some (setProcessTicket t pid ticket) else none
  | .setProcessRemainingPriority cur pid priority =>
    if (t.proc cur).state = .running then some (setProcessRemainingPriority t pid priority)
    else none

/-- The tables that such sections lead to. -/
def Acts : PTable → PTable → Prop := Reaches act fun _ _ => True

/-- The environment of a scheduler that runs on the only CPU: what happens while the scheduler
is away is a sequence of critical sections. -/
def Env.Acting (env : Env) : Prop := ∀ n t ticks, Acts t (env n (t, ticks)).1

variable {t t' : PTable} {p cur np : Fin NPROC} {r : Proc} {now : UInt32}

/-- A step of the table is a section, or one write of the scheduler that leaves the pid and
whether the slot is in use, and does not lower the cycle counter. -/
lemma Step.act_or_write (h : Step t t') : (∃ a, act t a = some t') ∨
      ∃ p r, t' = t.set p r ∧ r.pid = (t.proc p).pid ∧
        (r.state ≠ .unused → (t.proc p).state ≠ .unused) ∧
        (t.proc p).cycleNum ≤ r.cycleNum := by
  cases h with
  | allocproc cur np now hcur ha => exact .inl ⟨.allocproc cur now, by simp [act, hcur, ha]⟩
  | unalloc cur np hcur hnp => exact .inl ⟨.unalloc cur np, by simp [act, hcur, hnp]⟩
  | fork cur np hcur hnp => exact .inl ⟨.fork cur np, by simp [act, hcur, hnp]⟩
  | exec cur hcur => exact .inl ⟨.exec cur, by simp [act, hcur]⟩
  | exit cur hcur hinit => exact .inl ⟨.exit cur, by simp [act, hcur, hinit]⟩
  | reap cur hcur hw | waitSleep cur hcur hw => exact .inl ⟨.wait cur, by simp [act, hcur, hw]⟩
  | sleep cur chan hcur => exact .inl ⟨.sleep cur chan, by simp [act, hcur]⟩
  | sleepReturn cur hcur => exact .inl ⟨.sleepReturn cur, by simp [act, hcur]⟩
  | yield cur hcur => exact .inl ⟨.yield cur, by simp [act, hcur]⟩
  | wakeup chan => exact .inl ⟨.wakeup chan, rfl⟩
  | kill cur pid hcur => exact .inl ⟨.kill cur pid, by simp [act, hcur]⟩
  | changeLevel cur pid level hcur =>
    exact .inl ⟨.changeProcessLevel cur pid level, by simp [act, hcur]⟩
  | setTicket cur pid ticket hcur =>
    exact .inl ⟨.setProcessTicket cur pid ticket, by simp [act, hcur]⟩
  | setPriority cur pid priority hcur =>
    exact .inl ⟨.setProcessRemainingPriority cur pid priority, by simp [act, hcur]⟩
  | dispatch p _ hp => exact .inr ⟨p, _, rfl, rfl, by simp [hp], Nat.le_succ _⟩
  | charge p _ _ => exact .inr ⟨p, _, rfl, rfl, id, Nat.le_succ _⟩
  | spend p _ =>
    refine .inr ⟨p, _, rfl, ?_⟩
    unfold spendPriority
    split <;> exact ⟨rfl, id, le_rfl⟩

/-- One slot keeps its pid and its cycle counter, or it is freed. -/
def Proc.Kept (r r' : Proc) : Prop :=
  (r'.pid = r.pid ∧ r'.cycleNum = r.cycleNum ∧ (r'.state ≠ .unused → r.state ≠ .unused)) ∨
    (r'.pid = 0 ∧ r'.state = .unused)

lemma Proc.Kept.refl (r : Proc) : r.Kept r := .inl ⟨rfl, rfl, id⟩

/-- No slot gets another pid. -/
structure Kept (t t' : PTable) : Prop where
  nextpid : t'.nextpid = t.nextpid
  proc : ∀ q, (t.proc q).Kept (t'.proc q)

lemma Kept.refl (t : PTable) : Kept t t := ⟨rfl, fun q => .refl (t.proc q)⟩

lemma Kept.set (h : (t.proc p).Kept r) : Kept t (t.set p r) := by
  refine ⟨rfl, fun q => ?_⟩
  exact PTable.forall_set (P := fun q r => (t.proc q).Kept r) (fun q => .refl _) h q

lemma Kept.setByPid (t : PTable) (pid : Int32) {f : Proc → Proc}
    (hf : ∀ r, (f r).pid = r.pid ∧ (f r).cycleNum = r.cycleNum ∧ (f r).state = r.state) :
    Kept t (setByPid t pid f) := by
  refine ⟨rfl, fun q => .inl ?_⟩
  refine ⟨setByPid_field Proc.pid t pid (fun r => (hf r).1) q,
    setByPid_field Proc.cycleNum t pid (fun r => (hf r).2.1) q, ?_⟩
  rw [setByPid_field Proc.state t pid (fun r => (hf r).2.2) q]
  exact id

lemma Kept.wait (hcur : (t.proc cur).state = .running) (h : act t (.wait cur) = some t') :
    Kept t t' := by
  obtain ⟨z, -, -, hround⟩ | ⟨-, hround | hround⟩ := waitRound_spec t cur
  · simp only [act, hcur, hround, if_true, Option.some.injEq] at h
    subst h
    exact Kept.set (.inr ⟨rfl, rfl⟩)
  · simp only [act, hcur, hround, if_true, Option.some.injEq] at h
    subst h
    exact Kept.refl t
  simp only [act, hcur, hround, if_true, Option.some.injEq] at h
  subst h
  exact Kept.set (.inl ⟨rfl, rfl, by simp [hcur]⟩)

lemma Kept.exit (hcur : (t.proc cur).state = .running) : Kept t (Process.exit t cur) := by
  refine ⟨exit_nextpid t cur, fun q => .inl ?_⟩
  rw [exit_apply]
  refine ⟨rfl, rfl, ?_⟩
  rw [Proc.moved_state]
  split
  · rename_i hq
    simp [hq, hcur]
  split
  · rename_i hwoken
    simp [hwoken.1]
  · exact id

lemma Kept.wakeup1 (t : PTable) (chan : Chan) : Kept t (Process.wakeup1 t chan) := by
  refine ⟨rfl, fun q => .inl ?_⟩
  rw [wakeup1_apply]
  refine ⟨rfl, rfl, ?_⟩
  rw [Proc.moved_state]
  split
  · rename_i hsleep
    simp [hsleep.1]
  · exact id

lemma Kept.kill (t : PTable) (pid : Int32) : Kept t (Process.kill t pid).2 := by
  obtain ⟨z, -, hkill⟩ | ⟨-, hkill⟩ := kill_spec t pid
  · rw [hkill]
    refine Kept.set (.inl ⟨rfl, rfl, ?_⟩)
    unfold Proc.hit
    dsimp only
    split
    · rename_i hsleep
      simp [hsleep]
    · exact id
  · rw [hkill]
    exact Kept.refl t

/-- What a section does to pids and cycle counters: `allocproc` takes a new pid, and every
other section only keeps or frees slots. -/
lemma act_cases {a : Act} (h : act t a = some t') :
    (∃ now np, Allocated t now np t') ∨ Kept t t' := by
  cases a with
  | allocproc cur now =>
    simp only [act, ite_none_right_eq_some, map_eq_some_iff] at h
    obtain ⟨-, ⟨np, t₁⟩, halloc, rfl⟩ := h
    exact .inl ⟨now, np, allocproc_spec halloc⟩
  | unalloc cur np =>
    obtain ⟨-, rfl⟩ := of_guard h
    exact .inr (Kept.set (.inl ⟨rfl, rfl, by simp⟩))
  | fork cur np =>
    obtain ⟨⟨-, hnp⟩, rfl⟩ := of_guard h
    exact .inr (Kept.set (.inl ⟨rfl, rfl, by simp [hnp]⟩))
  | exec cur | sleepReturn cur =>
    obtain ⟨-, rfl⟩ := of_guard h
    exact .inr (Kept.set (.inl ⟨rfl, rfl, id⟩))
  | exit cur =>
    obtain ⟨⟨hcur, -⟩, rfl⟩ := of_guard h
    exact .inr (Kept.exit hcur)
  | wait cur =>
    have hcur : (t.proc cur).state = .running := by
      by_contra hcur
      simp [act, hcur] at h
    exact .inr (Kept.wait hcur h)
  | sleep cur chan | yield cur =>
    obtain ⟨hcur, rfl⟩ := of_guard h
    exact .inr (Kept.set (.inl ⟨rfl, rfl, by simp [hcur]⟩))
  | wakeup chan =>
    cases h
    exact .inr (Kept.wakeup1 t chan)
  | kill cur pid =>
    obtain ⟨-, rfl⟩ := of_guard h
    exact .inr (Kept.kill t pid)
  | changeProcessLevel cur pid level | setProcessTicket cur pid ticket
  | setProcessRemainingPriority cur pid priority =>
    obtain ⟨-, rfl⟩ := of_guard h
    exact .inr (Kept.setByPid t pid fun _ => ⟨rfl, rfl, rfl⟩)

/-- Pids as `allocproc` gives them out: all below `nextpid` and none negative, positive in a slot
in use, and a pid other than zero in one slot only. -/
structure Numbered (t : PTable) : Prop where
  pos : 0 < t.nextpid.toInt
  nonneg : ∀ p, 0 ≤ (t.proc p).pid.toInt
  below : ∀ p, (t.proc p).pid.toInt < t.nextpid.toInt
  used : ∀ p, (t.proc p).state ≠ .unused → 0 < (t.proc p).pid.toInt
  inj : ∀ p q, p ≠ q → (t.proc p).pid ≠ 0 → (t.proc p).pid ≠ (t.proc q).pid

/-- The counter of pids does not overflow. -/
lemma Allocated.nextpid_toInt (h : Allocated t now np t') :
    t'.nextpid.toInt = t.nextpid.toInt + 1 := by
  have hlt := t.nextpid.toInt_lt
  have hge := t.nextpid.le_toInt
  have hne : t.nextpid.toInt ≠ 2147483647 := fun heq => h.not_max (Int32.toInt_inj.mp heq)
  have hone : (1 : Int32).toInt = 1 := rfl
  rw [h.nextpid, Int32.toInt_add, hone]
  exact Int.bmod_eq_of_le (by omega) (by omega)

section
variable (ht : Numbered t)
include ht

lemma Numbered.allocated (h : Allocated t now np t') : Numbered t' := by
  have hnext := h.nextpid_toInt
  have hnp : (t'.proc np).pid = t.nextpid := by
    rw [h.proc]
    rfl
  -- the new pid is in no other slot, since the old ones are below it
  have hfresh : ∀ q, q ≠ np → (t'.proc q).pid ≠ t.nextpid := by
    intro q hq heq
    have hbelow := ht.below q
    rw [h.other q hq] at heq
    rw [heq] at hbelow
    exact lt_irrefl _ hbelow
  constructor
  · have hpos := ht.pos
    omega
  · intro q
    by_cases hq : q = np
    · rw [hq, hnp]
      exact ht.pos.le
    · rw [h.other q hq]
      exact ht.nonneg q
  · intro q
    by_cases hq : q = np
    · rw [hq, hnp]
      omega
    rw [h.other q hq]
    have hbelow := ht.below q
    omega
  · intro q hused
    by_cases hq : q = np
    · rw [hq, hnp]
      exact ht.pos
    · rw [h.other q hq] at hused ⊢
      exact ht.used q hused
  intro p q hpq hp
  by_cases hpn : p = np
  · rw [hpn, hnp]
    exact (hfresh q fun hq => hpq (hpn.trans hq.symm)).symm
  by_cases hqn : q = np
  · rw [hqn, hnp]
    exact hfresh p hpn
  rw [h.other p hpn] at hp ⊢
  rw [h.other q hqn]
  exact ht.inj p q hpq hp

lemma Numbered.kept (h : Kept t t') : Numbered t' := by
  have hzero : (0 : Int32).toInt = 0 := rfl
  constructor
  · rw [h.nextpid]
    exact ht.pos
  · intro q
    obtain ⟨hpid, -⟩ | ⟨hpid, -⟩ := h.proc q
    · rw [hpid]
      exact ht.nonneg q
    · rw [hpid, hzero]
  · intro q
    rw [h.nextpid]
    obtain ⟨hpid, -⟩ | ⟨hpid, -⟩ := h.proc q
    · rw [hpid]
      exact ht.below q
    · rw [hpid, hzero]
      exact ht.pos
  · intro q hused
    obtain ⟨hpid, -, hold⟩ | ⟨-, hunused⟩ := h.proc q
    · rw [hpid]
      exact ht.used q (hold hused)
    · exact absurd hunused hused
  intro p q hpq hp heq
  obtain ⟨hpp, -⟩ | ⟨hpp, -⟩ := h.proc p
  · rw [hpp] at hp heq
    obtain ⟨hqq, -⟩ | ⟨hqq, -⟩ := h.proc q
    · exact ht.inj p q hpq hp (heq.trans hqq)
    · exact hp (heq.trans hqq)
  · exact hp hpp

lemma Numbered.act {a : Act} (h : act t a = some t') : Numbered t' := by
  obtain ⟨now, np, halloc⟩ | hkept := act_cases h
  · exact ht.allocated halloc
  · exact ht.kept hkept

lemma Numbered.set (hpid : r.pid = (t.proc p).pid)
    (hstate : r.state ≠ .unused → (t.proc p).state ≠ .unused) : Numbered (t.set p r) := by
  have hsame := PTable.set_field Proc.pid t p hpid
  constructor
  · exact ht.pos
  · intro q
    rw [hsame q]
    exact ht.nonneg q
  · intro q
    rw [hsame q]
    exact ht.below q
  · intro q
    rw [hsame q, PTable.set_apply]
    split
    · rename_i hq
      intro hr
      exact ht.used q (hq ▸ hstate hr)
    · exact ht.used q
  intro q q' hne
  rw [hsame q, hsame q']
  exact ht.inj q q' hne

end

lemma numbered_boot : Numbered boot := by
  constructor
  · decide
  · intro p
    change 0 ≤ (0 : Int32).toInt
    decide
  · intro p
    change (0 : Int32).toInt < (1 : Int32).toInt
    decide
  · intro p hp
    exact absurd rfl hp
  · intro p q _ hp
    exact absurd rfl hp

lemma Numbered.userinit (h : userinit now = some t) : Numbered t := by
  unfold Process.userinit at h
  obtain ⟨⟨p, t'⟩, halloc, rfl⟩ := map_eq_some_iff.mp h
  have hspec := allocproc_spec halloc
  have hset := (numbered_boot.allocated hspec).set
    (r := { t'.proc p with state := .runnable }) rfl (by simp [hspec.proc, Proc.allocated])
  exact ⟨hset.pos, hset.nonneg, hset.below, hset.used, hset.inj⟩

lemma Reachable.numbered (h : Reachable t) : Numbered t := by
  induction h with
  | start now hu => exact Numbered.userinit hu
  | step _ hs ih =>
    obtain ⟨a, ha⟩ | ⟨p, r, rfl, hpid, hstate, -⟩ := hs.act_or_write
    · exact ih.act ha
    · exact ih.set hpid hstate

/-- No pid is negative, and a slot in use has a positive cycle counter: the scheduler's
`-1` names no process and its quotients have a positive divisor. -/
structure Sane (t : PTable) : Prop where
  nextpid : 0 ≤ t.nextpid
  pid : ∀ p, 0 ≤ (t.proc p).pid
  cycle : ∀ p, (t.proc p).state ≠ .unused → 0 < (t.proc p).cycleNum

/-- The cycle counters of the slots in use are positive. -/
def Cycled (t : PTable) : Prop := ∀ p, (t.proc p).state ≠ .unused → 0 < (t.proc p).cycleNum

lemma Cycled.allocated (ht : Cycled t) (h : Allocated t now np t') : Cycled t' := by
  intro q
  by_cases hq : q = np
  · rw [hq, h.proc]
    exact fun _ => Nat.one_pos
  · rw [h.other q hq]
    exact ht q

lemma Cycled.set (ht : Cycled t) (hstate : r.state ≠ .unused → (t.proc p).state ≠ .unused)
    (hcycle : (t.proc p).cycleNum ≤ r.cycleNum) : Cycled (t.set p r) :=
  PTable.forall_set (P := fun _ r => r.state ≠ .unused → 0 < r.cycleNum) ht
    fun hr => (ht p (hstate hr)).trans_le hcycle

lemma Reachable.cycled (h : Reachable t) : Cycled t := by
  induction h with
  | start now hu =>
    obtain ⟨⟨p, t'⟩, halloc, rfl⟩ := map_eq_some_iff.mp hu
    have hspec := allocproc_spec halloc
    have hboot : Cycled boot := fun p hp => absurd rfl hp
    exact (hboot.allocated hspec).set (by simp [hspec.proc, Proc.allocated]) le_rfl
  | step _ hs ih =>
    obtain ⟨a, ha⟩ | ⟨p, r, rfl, -, hstate, hcycle⟩ := hs.act_or_write
    · obtain ⟨now, np, halloc⟩ | hkept := act_cases ha
      · exact ih.allocated halloc
      intro q hused
      obtain ⟨-, hcycle, hold⟩ | ⟨-, hunused⟩ := hkept.proc q
      · rw [hcycle]
        exact ih q (hold hused)
      · exact absurd hunused hused
    · exact ih.set hstate hcycle

lemma Reachable.sane (h : Reachable t) : Sane t where
  nextpid := Int32.le_iff_toInt_le.mpr h.numbered.pos.le
  pid p := Int32.le_iff_toInt_le.mpr (h.numbered.nonneg p)
  cycle := h.cycled

/-- After some sections, a slot still has the pid it had, or it is free, or it has been
allocated since. -/
structure Later (t t' : PTable) : Prop where
  nextpid : t.nextpid.toInt ≤ t'.nextpid.toInt
  pid : ∀ q, (t'.proc q).pid = (t.proc q).pid ∨ (t'.proc q).pid = 0 ∨
    t.nextpid.toInt ≤ (t'.proc q).pid.toInt
  cycle : ∀ q, (t'.proc q).state ≠ .unused →
    ((t.proc q).state ≠ .unused ∧ (t'.proc q).pid = (t.proc q).pid ∧
      (t'.proc q).cycleNum = (t.proc q).cycleNum) ∨
    (t.nextpid.toInt ≤ (t'.proc q).pid.toInt ∧ (t'.proc q).cycleNum = 1)

lemma Later.refl (t : PTable) : Later t t :=
  ⟨le_rfl, fun _ => .inl rfl, fun _ hq => .inl ⟨hq, rfl, rfl⟩⟩

lemma Later.trans {t'' : PTable} (h : Later t t') (h' : Later t' t'') : Later t t'' := by
  have hnext := h.nextpid
  refine ⟨hnext.trans h'.nextpid, fun q => ?_, fun q hq => ?_⟩
  · obtain heq | heq | hle := h'.pid q
    · rw [heq]
      exact h.pid q
    · exact .inr (.inl heq)
    · exact .inr (.inr (hnext.trans hle))
  obtain ⟨hused, hpid, hcycle⟩ | ⟨hle, hone⟩ := h'.cycle q hq
  · rw [hpid, hcycle]
    exact h.cycle q hused
  · exact .inr ⟨hnext.trans hle, hone⟩

lemma Later.allocated (h : Allocated t now np t') : Later t t' := by
  have hnext := h.nextpid_toInt
  have hnp : (t'.proc np).pid = t.nextpid ∧ (t'.proc np).cycleNum = 1 := by
    rw [h.proc]
    exact ⟨rfl, rfl⟩
  refine ⟨by omega, fun q => ?_, fun q hq => ?_⟩
  · by_cases hqn : q = np
    · rw [hqn, hnp.1]
      exact .inr (.inr le_rfl)
    · rw [h.other q hqn]
      exact .inl rfl
  by_cases hqn : q = np
  · rw [hqn, hnp.1, hnp.2]
    exact .inr ⟨le_rfl, rfl⟩
  · rw [h.other q hqn] at hq ⊢
    exact .inl ⟨hq, rfl, rfl⟩

lemma Kept.later (h : Kept t t') : Later t t' := by
  refine ⟨by rw [h.nextpid], fun q => ?_, fun q hq => ?_⟩
  · obtain ⟨hpid, -⟩ | ⟨hpid, -⟩ := h.proc q
    · exact .inl hpid
    · exact .inr (.inl hpid)
  obtain ⟨hpid, hcycle, hold⟩ | ⟨-, hunused⟩ := h.proc q
  · exact .inl ⟨hold hq, hpid, hcycle⟩
  · exact absurd hunused hq

lemma Acts.later (h : Acts t t') (ht : Numbered t) : Numbered t' ∧ Later t t' := by
  refine h.invariant (I := fun t' => Numbered t' ∧ Later t t') ?_ ⟨ht, Later.refl t⟩
  rintro t₁ t₂ a ⟨hn, hl⟩ - ha
  refine ⟨hn.act ha, ?_⟩
  obtain ⟨now, np, halloc⟩ | hkept := act_cases ha
  · exact hl.trans (Later.allocated halloc)
  · exact hl.trans hkept.later

/-- A pid of a process in use that another slot does not have is never taken by that slot. -/
lemma Later.pid_ne (h : Later t t') (ht : Numbered t) {q : Fin NPROC}
    (hp : (t.proc p).state ≠ .unused) (hne : q ≠ p) : (t'.proc q).pid ≠ (t.proc p).pid := by
  have hpos := ht.used p hp
  have hbelow := ht.below p
  have hzero : (t.proc p).pid ≠ 0 := by
    intro heq
    rw [heq] at hpos
    exact absurd hpos (by decide)
  intro heq
  obtain hsame | hfree | hnew := h.pid q
  · exact ht.inj p q (Ne.symm hne) hzero (heq.symm.trans hsame)
  · exact hzero (heq.symm.trans hfree)
  · rw [heq] at hnew
    omega

end Xv6.Process
