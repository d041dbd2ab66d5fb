import Xv6.Process.WorkConserving

/-!
# The process that a lower level dispatches

The second and the third level remember the pid of the best process and look for
it in a second scan, which goes on after that process has run. In a reachable
table the pid names one slot, also among the `UNUSED` ones, and no other slot
takes it while the process runs, so the scan calls `run_p` once.
-/

namespace Xv6.Process

lemma slots_sorted : slots.Pairwise (· < ·) := by
  unfold slots
  exact List.pairwise_lt_finRange NPROC

variable {p : Fin NPROC}

/-- In a split of the table at `p` the smaller slots come before and the larger ones behind. -/
lemma lt_of_split {l₁ l₂ : List (Fin NPROC)} (h : slots = l₁ ++ p :: l₂) :
    (∀ q, q < p → q ∈ l₁) ∧ (∀ q, q ≠ p → q ∈ l₁ ∨ q ∈ l₂) ∧ p ∉ l₁ ∧ p ∉ l₂ := by
  have hsorted := slots_sorted
  rw [h, List.pairwise_append, List.pairwise_cons] at hsorted
  obtain ⟨-, ⟨hafter, -⟩, hbefore⟩ := hsorted
  have hmem : ∀ q, q ≠ p → q ∈ l₁ ∨ q ∈ l₂ := by
    intro q hq
    have hq' := mem_slots q
    rw [h] at hq'
    simpa [hq] using hq'
  refine ⟨fun q hq => ?_, hmem, fun hp => ?_, fun hp => ?_⟩
  · obtain hq₁ | hq₂ := hmem q (Fin.ne_of_lt hq)
    · exact hq₁
    · exact absurd hq (Fin.lt_asymm (hafter q hq₂))
  · exact Fin.lt_irrefl p (hbefore p hp p (by simp))
  · exact Fin.lt_irrefl p (hafter p hp)

/-- A `RUNNABLE` level-1 process of the greatest response ratio, the first one in the table. -/
structure HighestRatio (now : UInt32) (t : Table) (p : Fin NPROC) : Prop where
  level : (t p).level = 1
  runnable : (t p).state = .runnable
  greatest : ∀ q, (t q).level = 1 → (t q).state = .runnable → hrrn now (t q) ≤ hrrn now (t p)
  first : ∀ q < p, (t q).level = 1 → (t q).state = .runnable → hrrn now (t q) < hrrn now (t p)

/-- A `RUNNABLE` level-2 process of the least remaining priority, the first one in the table. -/
structure LeastPriority (t : Table) (p : Fin NPROC) : Prop where
  level : (t p).level = 2
  runnable : (t p).state = .runnable
  least : ∀ q, (t q).level = 2 → (t q).state = .runnable →
    (t p).remainingPriority ≤ (t q).remainingPriority
  first : ∀ q < p, (t q).level = 2 → (t q).state = .runnable →
    (t p).remainingPriority < (t q).remainingPriority

lemma hrrn_pick (now : UInt32) (t : Table)
    (hex : ∃ p, (t p).level = 1 ∧ (t p).state = .runnable) :
    ∃ p, HighestRatio now t p ∧ (slots.foldl (hrrnStep now t) (-1, -1)).2 = (t p).pid := by
  rcases Lib.foldl_bestStep_first (fun p => (t p).level = 1 ∧ (t p).state = .runnable)
    (fun p => hrrn now (t p)) (· > ·) (fun p => (t p).pid) slots (-1, -1)
    with ⟨-, hall⟩ | ⟨l₁, p, l₂, hsplit, hel, -, heq, hbefore, hafter⟩
  · obtain ⟨p, hp⟩ := hex
    have hbeats : hrrn now (t p) > -1 := lt_of_lt_of_le (by decide) (hrrn_nonneg now (t p))
    exact absurd hbeats (hall p (mem_slots p) hp)
  obtain ⟨hlt, hne, -⟩ := lt_of_split hsplit
  refine ⟨p, ⟨hel.1, hel.2, fun q hl hs => ?_, fun q hq hl hs => ?_⟩, congrArg Prod.snd heq⟩
  · by_cases hqp : q = p
    · rw [hqp]
    obtain hq | hq := hne q hqp
    · exact le_of_lt (hbefore q hq ⟨hl, hs⟩)
    · exact not_lt.mp (hafter q hq ⟨hl, hs⟩)
  · exact hbefore q (hlt q hq) ⟨hl, hs⟩

/-- The third level finds the least remaining priority, unless all are a billion or more. -/
lemma priority_pick (t : Table) (hex : ∃ p, (t p).level = 2 ∧ (t p).state = .runnable ∧
      (t p).remainingPriority < 1000000000) :
    ∃ p, LeastPriority t p ∧ (t p).remainingPriority < 1000000000 ∧
      (slots.foldl (priorityStep t) (1000000000, -1)).2 = (t p).pid := by
  rcases Lib.foldl_bestStep_first (fun p => (t p).level = 2 ∧ (t p).state = .runnable)
    (fun p => (t p).remainingPriority) (· < ·) (fun p => (t p).pid) slots (1000000000, -1)
    with ⟨-, hall⟩ | ⟨l₁, p, l₂, hsplit, hel, hbeats, heq, hbefore, hafter⟩
  · obtain ⟨p, hl, hs, hbeats⟩ := hex
    exact absurd hbeats (hall p (mem_slots p) ⟨hl, hs⟩)
  obtain ⟨hlt, hne, -⟩ := lt_of_split hsplit
  refine ⟨p, ⟨hel.1, hel.2, fun q hl hs => ?_, fun q hq hl hs => ?_⟩, hbeats, congrArg Prod.snd heq⟩
  · by_cases hqp : q = p
    · rw [hqp]
      exact Int32.le_refl _
    obtain hq | hq := hne q hqp
    · exact Int32.le_of_lt (hbefore q hq ⟨hl, hs⟩)
    · exact Int32.not_lt.mp (hafter q hq ⟨hl, hs⟩)
  · exact hbefore q (hlt q hq) ⟨hl, hs⟩

section RunP
variable (env : Env) {l : Int32} {p : Fin NPROC} {s : Cpu}

/-- `run_p` on a `RUNNABLE` process: the machine is given away with the process dispatched. -/
lemma runP_table (h : (s.t.proc p).state = .runnable) :
    (runP env l p s).t = (env s.away (dispatch s.t p, s.ticks)).1 := by
  simp [runP, Cpu.set, Cpu.leave, PTable.set, dispatch, h]

lemma runP_switches (h : (s.t.proc p).state = .runnable) : (runP env l p s).switches =
      s.switches ++ [⟨l, (charge s.t p).proc, p, (runP env l p s).t.proc⟩] := by
  simp [runP, Cpu.set, Cpu.leave, PTable.set, charge, h]

end RunP

lemma Numbered.dispatch {t : PTable} (ht : Numbered t) (hp : (t.proc p).state = .runnable) :
    Numbered (dispatch t p) :=
  ht.set rfl (by simp [hp])

variable {s : Cpu} {change : Proc → Proc}

/-- The second scan of a lower level calls `run_p` once when the pid names one slot before the
call and no other slot after it. -/
lemma runPid_once (env : Env) {l pid : Int32} (hp : (s.t.proc p).pid = pid)
    (hbefore : ∀ q ≠ p, (s.t.proc q).pid ≠ pid)
    (hafter : ∀ q ≠ p, ((runP env l p (s.set p (change (s.t.proc p)))).t.proc q).pid ≠ pid) :
    slots.foldl (runPidStep env l pid change) s = runP env l p (s.set p (change (s.t.proc p))) := by
  obtain ⟨l₁, l₂, hsplit⟩ := slots_split p
  obtain ⟨-, -, hp₁, hp₂⟩ := lt_of_split hsplit
  have hfirst : l₁.foldl (runPidStep env l pid change) s = s := by
    apply runPid_idle
    intro q hq
    exact hbefore q fun hqp => hp₁ (hqp ▸ hq)
  have hcall : runPidStep env l pid change s p =
      runP env l p (s.set p (change (s.t.proc p))) := if_pos hp
  rw [hsplit, List.foldl_append, hfirst, List.foldl_cons, hcall]
  apply runPid_idle
  intro q hq
  exact hafter q fun hqp => hp₂ (hqp ▸ hq)

variable {env : Env}

/-- A lower level that has chosen the pid of a `RUNNABLE` process dispatches that process and
nothing else. -/
lemma runPid_dispatches (henv : env.Acting) {l : Int32} (hs : Numbered s.t)
    (hp : (s.t.proc p).state = .runnable) (hchange : (change (s.t.proc p)).pid = (s.t.proc p).pid ∧
      (change (s.t.proc p)).state = (s.t.proc p).state) :
    slots.foldl (runPidStep env l (s.t.proc p).pid change) s =
      runP env l p (s.set p (change (s.t.proc p))) := by
  have hused : (s.t.proc p).state ≠ .unused := by simp [hp]
  apply runPid_once env rfl
  · intro q hq
    exact (Later.refl s.t).pid_ne hs hused hq
  intro q hq
  -- the table with which `run_p` is called
  have ht := hs.set hchange.1 (by rw [hchange.2]; exact id)
  have hself : (s.set p (change (s.t.proc p))).t.proc p = change (s.t.proc p) :=
    PTable.set_self s.t p _
  have hrun : ((s.set p (change (s.t.proc p))).t.proc p).state = .runnable := by
    rw [hself, hchange.2, hp]
  have hback := ((henv s.away (dispatch (s.set p (change (s.t.proc p))).t p) s.ticks).later
    (ht.dispatch hrun)).2
  have hne := hback.pid_ne (ht.dispatch hrun) (by simp [dispatch]) hq
  rw [runP_table env hrun]
  refine fun heq => hne (heq.trans ?_)
  simp [dispatch, hself, hchange.1]

/-- From a reachable table with a `RUNNABLE` level-1 process the second level divides by
positive counters only and switches once, to the first process of the greatest ratio. -/
theorem runSecond_dispatches {env : Env} (henv : env.Acting) (s : Cpu) (hs : Reachable s.t)
    (hex : ∃ p, (s.t.proc p).level = 1 ∧ (s.t.proc p).state = .runnable) :
    (∀ p, (s.t.proc p).level = 1 → (s.t.proc p).state = .runnable → 1 ≤ (s.t.proc p).cycleNum) ∧
    ∃ w, (runSecondLevelProcesses env s).switches = s.switches ++ [w] ∧
      HighestRatio s.ticks s.t.proc w.chosen := by
  refine ⟨fun p _ hp => hs.sane.cycle p (by simp [hp]), ?_⟩
  obtain ⟨p, hbest, hpid⟩ := hrrn_pick s.ticks s.t.proc hex
  have hcall : runSecondLevelProcesses env s = runP env 1 p (s.set p (s.t.proc p)) := by
    unfold runSecondLevelProcesses
    rw [hpid]
    exact runPid_dispatches henv hs.numbered hbest.runnable ⟨rfl, rfl⟩
  have hrun : ((s.set p (s.t.proc p)).t.proc p).state = .runnable := by
    rw [Cpu.set, PTable.set_self]
    exact hbest.runnable
  rw [hcall, runP_switches env hrun]
  exact ⟨_, rfl, hbest⟩

/-- The process that has the CPU yields. -/
def yieldEnv : Env := fun _ m =>
  match slots.find? fun p => (m.1.proc p).state = .running with
  | some p => (yield m.1 p, m.2)
  | none => m

lemma yieldEnv_acting : yieldEnv.Acting := by
  intro n t ticks
  unfold yieldEnv
  dsimp only
  split
  · rename_i p hfind
    have hrun := List.find?_some hfind
    have hrun := of_decide_eq_true hrun
    exact Relation.ReflTransGen.single ⟨.yield p, trivial, by simp [act, hrun]⟩
  · exact Relation.ReflTransGen.refl

/-- The first process has moved itself to another level, set its priority and yielded. -/
def movedTable (level priority : Int32) : PTable :=
  yield (setProcessRemainingPriority
    (changeProcessLevel (dispatch initTable 0) 1 level) 1 priority) 0

lemma reachable_movedTable (level priority : Int32) : Reachable (movedTable level priority) := by
  have hrun : ((dispatch initTable 0).proc 0).state = .running := by decide +kernel
  have hlevel : ((changeProcessLevel (dispatch initTable 0) 1 level).proc 0).state = .running := by
    rwa [changeProcessLevel_state]
  have hpriority : ((setProcessRemainingPriority (changeProcessLevel (dispatch initTable 0) 1
      level) 1 priority).proc 0).state = .running := by
    rw [setProcessRemainingPriority, setByPid_field Proc.state]
    · exact hlevel
    · exact fun _ => rfl
  have hstart := reachable_initTable.step (Step.dispatch 0 (by decide +kernel) (by decide +kernel))
  exact ((hstart.step (Step.changeLevel 0 1 level hrun)).step
    (Step.setPriority 0 1 priority hlevel)).step (Step.yield 0 hpriority)

/-- At level 1 the first process is dispatched by its ratio. -/
theorem runSecond_dispatches_moved :
    ∃ w, (runSecondLevelProcesses yieldEnv (atAcquire (movedTable 1 10) 7)).switches = [w] ∧
      HighestRatio 7 (movedTable 1 10).proc w.chosen :=
  (runSecond_dispatches yieldEnv_acting (atAcquire (movedTable 1 10) 7)
    (reachable_movedTable 1 10) ⟨0, by decide +kernel⟩).2

/-- The third level switches once, to the first process of the least remaining priority. A
positive one has been decremented, the others are as they were, and nothing is written after
the process comes back. -/
def DispatchesLeast (env : Env) (s : Cpu) : Prop :=
  ∃ w, (runThirdLevelProcesses env s).switches = s.switches ++ [w] ∧
    LeastPriority s.t.proc w.chosen ∧
    (w.before w.chosen).remainingPriority =
      (if 0 < (s.t.proc w.chosen).remainingPriority
        then (s.t.proc w.chosen).remainingPriority - 1
        else (s.t.proc w.chosen).remainingPriority) ∧
    (∀ q ≠ w.chosen, (w.before q).remainingPriority = (s.t.proc q).remainingPriority) ∧
    (runThirdLevelProcesses env s).t.proc = w.after

/-- The decrement is the intended one except at the least `int`, where the difference wraps. -/
lemma spendPriority_eq_iff (r : Proc) : (spendPriority r).remainingPriority =
      (if 0 < r.remainingPriority then r.remainingPriority - 1 else r.remainingPriority) ↔
    r.remainingPriority ≠ Int32.minValue := by
  by_cases hmin : r.remainingPriority = Int32.minValue
  · refine iff_of_false ?_ fun hne => hne hmin
    unfold spendPriority
    rw [hmin, if_pos (by decide), if_neg (by decide)]
    change Int32.minValue - 1 ≠ Int32.minValue
    decide
  refine iff_of_true ?_ hmin
  have hge := r.remainingPriority.le_toInt
  have hlt := r.remainingPriority.toInt_lt
  have hne : r.remainingPriority.toInt ≠ -2147483648 := fun heq => hmin (Int32.toInt_inj.mp heq)
  have hone : (1 : Int32).toInt = 1 := rfl
  have hzero : (0 : Int32).toInt = 0 := rfl
  have hsub : (r.remainingPriority - 1).toInt = r.remainingPriority.toInt - 1 := by
    rw [Int32.toInt_sub, hone]
    exact Int.bmod_eq_of_le (by omega) (by omega)
  have hiff : r.remainingPriority - 1 ≥ 0 ↔ 0 < r.remainingPriority := by
    rw [ge_iff_le, Int32.le_iff_toInt_le, Int32.lt_iff_toInt_lt, hsub, hzero]
    omega
  unfold spendPriority
  simp only [hiff]
  split <;> rfl

/-- Without a priority below the starting minimum the third level does nothing. -/
lemma runThird_idle (env : Env) (hs : Numbered s.t)
    (hnone : ¬ ∃ p, (s.t.proc p).level = 2 ∧ (s.t.proc p).state = .runnable ∧
      (s.t.proc p).remainingPriority < 1000000000) : runThirdLevelProcesses env s = s := by
  rcases priority_choice s.t.proc with ⟨hpid, -⟩ | ⟨p, hl, hp, hlt, -⟩
  · apply runPid_idle
    intro q _ heq
    have hpos := hs.nonneg q
    rw [heq, hpid] at hpos
    exact absurd hpos (by decide)
  · exact absurd ⟨p, hl, hp, hlt⟩ hnone

/-- Otherwise it calls `run_p` once, on the first process of the least priority. -/
lemma runThird_eq_runP (henv : env.Acting) (hs : Numbered s.t)
    (hex : ∃ p, (s.t.proc p).level = 2 ∧ (s.t.proc p).state = .runnable ∧
      (s.t.proc p).remainingPriority < 1000000000) : ∃ p, LeastPriority s.t.proc p ∧
      runThirdLevelProcesses env s = runP env 2 p (s.set p (spendPriority (s.t.proc p))) := by
  obtain ⟨p, hbest, -, hpid⟩ := priority_pick s.t.proc hex
  refine ⟨p, hbest, ?_⟩
  unfold runThirdLevelProcesses
  rw [hpid]
  apply runPid_dispatches henv hs hbest.runnable
  unfold spendPriority
  split <;> exact ⟨rfl, rfl⟩

lemma spendPriority_state (r : Proc) : (spendPriority r).state = r.state := by
  unfold spendPriority
  split <;> rfl

lemma runThird_switch (henv : env.Acting) (hs : Numbered s.t)
    (hex : ∃ p, (s.t.proc p).level = 2 ∧ (s.t.proc p).state = .runnable ∧
      (s.t.proc p).remainingPriority < 1000000000) :
    ∃ w, (runThirdLevelProcesses env s).switches = s.switches ++ [w] ∧
      LeastPriority s.t.proc w.chosen ∧
      (w.before w.chosen).remainingPriority =
        (spendPriority (s.t.proc w.chosen)).remainingPriority ∧
      (∀ q ≠ w.chosen, (w.before q).remainingPriority = (s.t.proc q).remainingPriority) ∧
      (runThirdLevelProcesses env s).t.proc = w.after := by
  obtain ⟨p, hbest, hcall⟩ := runThird_eq_runP henv hs hex
  have hrun : ((s.set p (spendPriority (s.t.proc p))).t.proc p).state = .runnable := by
    rw [Cpu.set, PTable.set_self, spendPriority_state]
    exact hbest.runnable
  rw [hcall, runP_switches env hrun]
  refine ⟨_, rfl, hbest, ?_, fun q hq => ?_, rfl⟩
  · simp [charge, Cpu.set]
  · simp only [charge, Cpu.set, PTable.set_of_ne _ _ hq]

/-- One call of the third level behaves as intended exactly when some process of the level has
a remaining priority below a billion and none has the least `int`. -/
theorem runThird_dispatches_iff {env : Env} (henv : env.Acting) (s : Cpu) (hs : Reachable s.t) :
    DispatchesLeast env s ↔ (∃ p, (s.t.proc p).level = 2 ∧ (s.t.proc p).state = .runnable ∧
        (s.t.proc p).remainingPriority < 1000000000) ∧
      ∀ p, (s.t.proc p).level = 2 → (s.t.proc p).state = .runnable →
        (s.t.proc p).remainingPriority ≠ Int32.minValue := by
  by_cases hlow : ∃ p, (s.t.proc p).level = 2 ∧ (s.t.proc p).state = .runnable ∧
      (s.t.proc p).remainingPriority < 1000000000
  · obtain ⟨w, hsw, hbest, hspent, hothers, hafter⟩ := runThird_switch henv hs.numbered hlow
    constructor
    · rintro ⟨w', hsw', -, hspent', -⟩
      obtain rfl : w = w' := by simpa [hsw] using hsw'
      refine ⟨hlow, fun p hl hp hmin => ?_⟩
      have hne := (spendPriority_eq_iff _).mp (hspent.symm.trans hspent')
      have hle := hbest.least p hl hp
      rw [hmin] at hle
      exact hne (Int32.le_antisymm hle (Int32.minValue_le _))
    rintro ⟨-, hne⟩
    refine ⟨w, hsw, hbest, ?_, hothers, hafter⟩
    rw [hspent]
    exact (spendPriority_eq_iff _).mpr (hne w.chosen hbest.level hbest.runnable)
  refine iff_of_false ?_ fun h => hlow h.1
  rintro ⟨w, hsw, -⟩
  rw [runThird_idle env hs.numbered hlow] at hsw
  simp at hsw

/-- A process of level 2 with some priority left is dispatched and spends one. -/
theorem runThird_dispatches_moved : DispatchesLeast yieldEnv (atAcquire (movedTable 2 10) 7) :=
  (runThird_dispatches_iff yieldEnv_acting (atAcquire (movedTable 2 10) 7)
    (reachable_movedTable 2 10)).mpr
    ⟨⟨0, by decide +kernel⟩, by decide +kernel⟩

/-- A process that asks for a priority of a billion is never dispatched, although no other
process is `RUNNABLE`. -/
theorem runThird_starves : Reachable (movedTable 2 1000000000) ∧
    ((movedTable 2 1000000000).proc 0).level = 2 ∧
    ((movedTable 2 1000000000).proc 0).state = .runnable ∧
    (runThirdLevelProcesses yieldEnv (atAcquire (movedTable 2 1000000000) 7)).switches = [] := by
  refine ⟨reachable_movedTable 2 1000000000, by decide +kernel, by decide +kernel, ?_⟩
  exact List.isEmpty_iff.mp (by decide +kernel)

end Xv6.Process
