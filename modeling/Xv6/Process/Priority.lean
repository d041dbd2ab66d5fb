import Xv6.Process.Switches

/-!
# Strict priority between the levels

`scheduler` finds out once per round which level it serves and then goes on
serving that level until the scan of the table is over. The order of the levels
is therefore kept exactly as long as no process of a smaller level becomes
`RUNNABLE` while a process of the current scan has the CPU.
-/

namespace Xv6.Process

/-- The chosen process is `RUNNABLE` and no `RUNNABLE` process has a smaller level. -/
def StrictPriority (w : Switch) : Prop :=
  (w.before w.chosen).state = .runnable ∧
    ∀ q, (w.before q).state = .runnable → (w.before w.chosen).level ≤ (w.before q).level

instance (w : Switch) : Decidable (StrictPriority w) :=
  inferInstanceAs (Decidable (_ ∧ ∀ _ : Fin NPROC, _ → _))

/-- No `RUNNABLE` process is below level `l`, and pids are as `allocproc` gives them:
none is `-1` and no two `RUNNABLE` processes share one. -/
structure Orderly (l : Int32) (t : Table) : Prop where
  none_below : ∀ q, (t q).state = .runnable → l ≤ (t q).level
  pid_ne : ∀ q, (t q).state = .runnable → (t q).pid ≠ -1
  pid_inj : ∀ p q, (t p).state = .runnable → (t q).state = .runnable → (t p).pid = (t q).pid → p = q

/-- Control comes back to the scan of level `w.level` with an orderly table in which
no other slot has taken the pid of the process that ran. -/
structure OrderlyReturn (w : Switch) : Prop where
  orderly : Orderly w.level w.after
  pid_kept : ∀ q, q ≠ w.chosen → (w.after q).pid ≠ (w.before w.chosen).pid

instance (l : Int32) (t : Table) : Decidable (Orderly l t) :=
  decidable_of_iff
    ((∀ q : Fin NPROC, (t q).state = .runnable → l ≤ (t q).level) ∧
      (∀ q : Fin NPROC, (t q).state = .runnable → (t q).pid ≠ -1) ∧
      ∀ p q : Fin NPROC, (t p).state = .runnable → (t q).state = .runnable →
        (t p).pid = (t q).pid → p = q)
    ⟨fun h => ⟨h.1, h.2.1, h.2.2⟩, fun h => ⟨h.none_below, h.pid_ne, h.pid_inj⟩⟩

instance (w : Switch) : Decidable (OrderlyReturn w) :=
  decidable_of_iff
    (Orderly w.level w.after ∧
      ∀ q : Fin NPROC, q ≠ w.chosen → (w.after q).pid ≠ (w.before w.chosen).pid)
    ⟨fun h => ⟨h.1, h.2⟩, fun h => ⟨h.orderly, h.pid_kept⟩⟩

variable {l pid l' : Int32} {s : Cpu}

lemma Orderly.of_agree {t t' : Table} (h : Orderly l t) (ha : Agree t' t) : Orderly l t' := by
  constructor
  · intro q hq
    rw [ha.level q]
    exact h.none_below q (ha.state q ▸ hq)
  · intro q hq
    rw [ha.pid q]
    exact h.pid_ne q (ha.state q ▸ hq)
  intro p q hp hq hpid
  rw [ha.pid p, ha.pid q] at hpid
  exact h.pid_inj p q (ha.state p ▸ hp) (ha.state q ▸ hq) hpid

/-- In the scan of level `l`: as long as every switch made so far came back orderly,
the table is orderly and every switch kept the order of the levels. -/
def InOrder (l : Int32) (s : Cpu) : Prop :=
  (∀ w ∈ s.switches, OrderlyReturn w) → Orderly l s.t.proc ∧ ∀ w ∈ s.switches, StrictPriority w

variable (env : Env)

lemma runP_inOrder {l : Int32} {p : Fin NPROC} {s : Cpu} (h : InOrder l s)
    (hl : (∀ w ∈ s.switches, OrderlyReturn w) →
      (s.t.proc p).state = .runnable → (s.t.proc p).level = l) : InOrder l (runP env l p s) := by
  intro hret
  have hold : ∀ w ∈ s.switches, OrderlyReturn w := fun w hw =>
    hret w ((runP_switches_extend env l p s).subset hw)
  obtain ⟨hord, hstrict⟩ := h hold
  rcases runP_cases env l p s with ⟨_, hagree, _, hsw⟩ | ⟨hrun, w, hwl, hwp, hagree, hafter, hsw⟩
  · rw [hsw]
    exact ⟨hord.of_agree hagree, hstrict⟩
  rw [hsw] at hret ⊢
  have hw := hret w (by simp)
  constructor
  · rw [← hafter, ← hwl]
    exact hw.orderly
  intro v hv
  rcases List.mem_append.mp hv with hv | hv
  · exact hstrict v hv
  obtain rfl : v = w := by simpa using hv
  have hlev := hl hold hrun
  have hbefore := hord.of_agree hagree
  constructor
  · rwa [hwp, hagree.state]
  intro q hq
  rw [hwp, hagree.level p, hlev]
  exact hbefore.none_below q hq

/-- The lottery only calls `run_p` on slots it has just seen at level 0. -/
lemma lottery_inOrder (random : Int32) (ps : List (Fin NPROC)) {st : Int32 × Cpu}
    (h : InOrder 0 st.2) : InOrder 0 (ps.foldl (lotteryStep env random) st).2 := by
  induction ps generalizing st with
  | nil => exact h
  | cons p ps ih =>
    rw [List.foldl_cons]
    apply ih
    rcases lotteryStep_cases env random st p with heq | ⟨hl, heq⟩
    · rwa [heq]
    · rw [heq]
      exact runP_inOrder env h fun _ _ => hl

lemma runFirst_inOrder (h : InOrder 0 s) : InOrder 0 (runFirstLevelProcesses env s) := by
  unfold runFirstLevelProcesses
  dsimp only
  split
  · exact h
  · exact lottery_inOrder env _ slots h

/-- The slots still to be visited by the second loop of a lower level: one that has
the chosen pid and is `RUNNABLE` is of the level that is being scanned. -/
def ChosenAt (l pid : Int32) (ps : List (Fin NPROC)) (s : Cpu) : Prop :=
  (∀ w ∈ s.switches, OrderlyReturn w) →
    ∀ q ∈ ps, (s.t.proc q).pid = pid → (s.t.proc q).state = .runnable → (s.t.proc q).level = l

lemma runPid_inOrder {change : Proc → Proc}
    (hchange : ∀ s : Cpu, ∀ p, Agree (s.set p (change (s.t.proc p))).t.proc s.t.proc)
    (ps : List (Fin NPROC)) (hnd : ps.Nodup) (h : InOrder l s) (hc : ChosenAt l pid ps s) :
    InOrder l (ps.foldl (runPidStep env l pid change) s) := by
  induction ps generalizing s with
  | nil => exact h
  | cons p ps ih =>
    rw [List.foldl_cons]
    obtain ⟨hp, hps⟩ := List.nodup_cons.mp hnd
    by_cases hpid : (s.t.proc p).pid = pid
    · have hstep : runPidStep env l pid change s p =
          runP env l p (s.set p (change (s.t.proc p))) := if_pos hpid
      have hset := hchange s p
      have hset_in : InOrder l (s.set p (change (s.t.proc p))) := fun hret =>
        ⟨(h hret).1.of_agree hset, (h hret).2⟩
      rw [hstep]
      apply ih hps
      · apply runP_inOrder env hset_in
        intro hret hrun
        rw [hset.level p]
        exact hc hret p (by simp) hpid (hset.state p ▸ hrun)
      intro hret q hq hqpid hqrun
      rcases runP_cases env l p (s.set p (change (s.t.proc p))) with
        ⟨_, hagree, _, hsw⟩ | ⟨_, w, _, hwp, hagree, hafter, hsw⟩
      · have hboth := hagree.trans hset
        rw [hsw] at hret
        rw [hboth.level q]
        exact hc hret q (by simp [hq]) (hboth.pid q ▸ hqpid) (hboth.state q ▸ hqrun)
      have hw := hret w (by simp [hsw])
      have hwpid : (w.before w.chosen).pid = pid := by
        rw [hwp, hagree.pid p, hset.pid p, hpid]
      have hne : q ≠ w.chosen := by
        rintro rfl
        exact hp (hwp ▸ hq)
      exact absurd ((hafter ▸ hqpid).trans hwpid.symm) (hw.pid_kept q hne)
    have hstep : runPidStep env l pid change s p = s := if_neg hpid
    rw [hstep]
    exact ih hps h fun hret q hq => hc hret q (by simp [hq])

/-- A lower level that picks the pid of one of its own `RUNNABLE` slots stays in order;
so does one that picks none. -/
lemma chosenAt_of_choice (h : InOrder l s)
    (hpid : ∃ p, (s.t.proc p).level = l ∧ (s.t.proc p).state = .runnable ∧ pid = (s.t.proc p).pid)
    (ps : List (Fin NPROC)) : ChosenAt l pid ps s := by
  intro hret q _ hq hrun
  obtain ⟨p, hl, hp, rfl⟩ := hpid
  have heq : q = p := (h hret).1.pid_inj q p hrun hp hq
  rwa [heq]

lemma runSecond_inOrder (h : InOrder 1 s)
    (hex : ∃ p, (s.t.proc p).level = 1 ∧ (s.t.proc p).state = .runnable) :
    InOrder 1 (runSecondLevelProcesses env s) := by
  unfold runSecondLevelProcesses
  apply runPid_inOrder env agree_id slots slots_nodup h
  apply chosenAt_of_choice h
  rcases hrrn_choice s.ticks s.t.proc with ⟨_, hnone⟩ | hsome
  · obtain ⟨p, hp⟩ := hex
    exact absurd hp (hnone p)
  · exact hsome

lemma runThird_inOrder (h : InOrder 2 s) : InOrder 2 (runThirdLevelProcesses env s) := by
  unfold runThirdLevelProcesses
  apply runPid_inOrder env agree_spendPriority slots slots_nodup h
  rcases priority_choice s.t.proc with ⟨hpid, _⟩ | ⟨p, hl, hs, _, hpid⟩
  · intro hret q _ hq hrun
    exact absurd (hq.trans hpid) ((h hret).1.pid_ne q hrun)
  · exact chosenAt_of_choice h ⟨p, hl, hs, hpid⟩ slots

lemma Orderly.succ {t : Table} (h : Orderly l t) (hl : l'.toInt = l.toInt + 1)
    (hnone : ∀ p, ¬ ((t p).level = l ∧ (t p).state = .runnable)) : Orderly l' t := by
  refine ⟨fun q hq => ?_, h.pid_ne, h.pid_inj⟩
  have hle := Int32.le_iff_toInt_le.mp (h.none_below q hq)
  have hne : (t q).level.toInt ≠ l.toInt := fun heq => hnone q ⟨Int32.toInt_inj.mp heq, hq⟩
  exact Int32.le_iff_toInt_le.mpr (by omega)

lemma InOrder.succ (h : InOrder l s) (hl : l'.toInt = l.toInt + 1)
    (hnone : ∀ p, ¬ ((s.t.proc p).level = l ∧ (s.t.proc p).state = .runnable)) : InOrder l' s :=
  fun hret => ⟨(h hret).1.succ hl hnone, (h hret).2⟩

lemma schedulerBody_inOrder (htrap : s.trap = false) (h : InOrder 0 s)
    (hret : ∀ w ∈ (schedulerBody env s).switches, OrderlyReturn w) :
    ∀ w ∈ (schedulerBody env s).switches, StrictPriority w := by
  have hfirst := scan_invariant 0 (runFirstLevelProcesses env) (InOrder 0)
    (fun _ hs _ => runFirst_inOrder env hs) slots (false, s) h
  unfold schedulerBody scan at hret ⊢
  dsimp only at hret ⊢
  split at hret
  · rename_i hran
    rw [if_pos hran]
    exact (hfirst hret).2
  rename_i hran
  rw [if_neg hran]
  obtain ⟨heq, hnone⟩ := scan_not_ran slots htrap (Bool.eq_false_iff.mpr hran)
  rw [heq] at hret ⊢
  have h₁ : InOrder 1 s := h.succ (by decide) fun p => hnone p (mem_slots p)
  have hsecond := scan_invariant 1 (runSecondLevelProcesses env) (InOrder 1)
    (fun _ hs hex => runSecond_inOrder env hs hex) slots (false, s) h₁
  split at hret
  · rename_i hran₁
    rw [if_pos hran₁]
    exact (hsecond hret).2
  rename_i hran₁
  rw [if_neg hran₁]
  obtain ⟨heq₁, hnone₁⟩ := scan_not_ran slots htrap (Bool.eq_false_iff.mpr hran₁)
  rw [heq₁] at hret ⊢
  have h₂ : InOrder 2 s := h₁.succ (by decide) fun p => hnone₁ p (mem_slots p)
  have hthird := scan_invariant 2 (runThirdLevelProcesses env) (InOrder 2)
    (fun _ hs _ => runThird_inOrder env hs) slots (false, s) h₂
  exact (hthird hret).2

/-- Rounds only add switches. -/
lemma schedulerRound_inOrder (hstart : s.trap = false → Orderly 0 (s.leave env).t.proc)
    (hold : (∀ w ∈ s.switches, OrderlyReturn w) → ∀ w ∈ s.switches, StrictPriority w)
    (hret : ∀ w ∈ (schedulerRound env s).switches, OrderlyReturn w) :
    ∀ w ∈ (schedulerRound env s).switches, StrictPriority w := by
  unfold schedulerRound at hret ⊢
  by_cases htrap : s.trap = true
  · rw [if_pos htrap] at hret ⊢
    exact hold hret
  rw [if_neg htrap] at hret ⊢
  have hfalse : s.trap = false := Bool.eq_false_iff.mpr htrap
  exact schedulerBody_inOrder env hfalse (fun h => ⟨hstart hfalse, hold h⟩) hret

/-- A run keeps the order of the levels as long as every round starts without a `RUNNABLE`
process of negative level, and every process that was given the CPU by the scan of a level
comes back without a `RUNNABLE` process below that level. -/
theorem scheduler_strictPriority (s : Cpu) (hs : s.switches = []) (n : Nat)
    (hstart : ∀ k < n, (scheduler env k s).trap = false →
      Orderly 0 ((scheduler env k s).leave env).t.proc)
    (hret : ∀ w ∈ (scheduler env n s).switches, OrderlyReturn w) :
    ∀ w ∈ (scheduler env n s).switches, StrictPriority w := by
  induction n with
  | zero =>
    intro w hw
    simp [scheduler, hs] at hw
  | succ n ih =>
    have hsucc : scheduler env (n + 1) s = schedulerRound env (scheduler env n s) :=
      Function.iterate_succ_apply' _ _ _
    rw [hsucc] at hret ⊢
    exact schedulerRound_inOrder env (hstart n (Nat.lt_succ_self n))
      (ih fun k hk => hstart k (Nat.lt_succ_of_lt hk)) hret

/-- A level-0 process is `RUNNABLE`, and so is a level-2 process. -/
def twoLevelTable : Table := fun p =>
  if p = 0 then { state := .runnable, pid := 1, ticket := 10, cycleNum := 1 }
  else if p = 1 then { state := .runnable, pid := 2, level := 2, cycleNum := 1 }
  else {}

/-- Nothing happens at `sti`; a process that gets the CPU at level 0 goes to sleep, and one
of another level yields. -/
def blockingEnv : Env := fun _ m =>
  ({ m.1 with proc := fun p =>
      if (m.1.proc p).state = .running then
        { m.1.proc p with state := if (m.1.proc p).level = 0 then .sleeping else .runnable }
      else m.1.proc p }, m.2)

/-- The condition of the theorem holds on a run that serves the first level in its first
round and the third level in its second. -/
theorem scheduler_strictPriority_blocking :
    (scheduler blockingEnv 2 { t := ⟨twoLevelTable, 3, 0⟩, ticks := 5 }).switches.length = 2 ∧
    ∀ w ∈ (scheduler blockingEnv 2 { t := ⟨twoLevelTable, 3, 0⟩, ticks := 5 }).switches,
      StrictPriority w :=
  ⟨by decide +kernel, scheduler_strictPriority blockingEnv _ rfl 2
    (by decide +kernel) (by decide +kernel)⟩

/-- Two level-1 processes are `RUNNABLE` and a level-0 process sleeps. -/
def sleeperTable : Table := fun p =>
  if p = 0 then { state := .runnable, pid := 1, level := 1, cycleNum := 1 }
  else if p = 1 then { state := .runnable, pid := 2, level := 1, cycleNum := 1 }
  else if p = 2 then { state := .sleeping, pid := 3, chan := .addr 7, cycleNum := 1 }
  else {}

/-- Nothing happens at `sti`; the process that gets the CPU wakes the sleeper and yields. -/
def wakingEnv : Env := fun n m =>
  if n = 0 then m
  else
    let t := wakeup1 m.1 (.addr 7)
    ({ t with proc := fun p =>
        if (t.proc p).state = .running then { t.proc p with state := .runnable } else t.proc p },
      m.2)

/-- The second switch of the first round goes to a level-1 process while the level-0
process that the first one woke is `RUNNABLE`. -/
theorem strictPriority_fails : ¬ ∀ w ∈ (scheduler wakingEnv 1
    { t := ⟨sleeperTable, 4, 0⟩, ticks := 5 }).switches, StrictPriority w := by
  decide +kernel

end Xv6.Process
