import Xv6.Process.Scheduler
import Mathlib.Data.Nat.Cast.Order.Ring

/-!
# What the loops of the scheduler do to the table

Between two switches the scheduler only moves `cycleNum` and, at the third
level, `remaining_priority`. The relation `Agree` names the fields that the
three selection loops read and that it never writes. Each loop is then
described by what it adds to the list of switches.
-/

namespace Xv6.Process

/-- Equal state, pid, level and ticket in every slot. -/
structure Agree (t t' : Table) : Prop where
  state : ∀ q, (t q).state = (t' q).state
  pid : ∀ q, (t q).pid = (t' q).pid
  level : ∀ q, (t q).level = (t' q).level
  ticket : ∀ q, (t q).ticket = (t' q).ticket

lemma Agree.refl (t : Table) : Agree t t :=
  ⟨fun _ => rfl, fun _ => rfl, fun _ => rfl, fun _ => rfl⟩

lemma Agree.trans {t t' t'' : Table} (h : Agree t t') (h' : Agree t' t'') : Agree t t'' :=
  ⟨fun q => (h.state q).trans (h'.state q), fun q => (h.pid q).trans (h'.pid q),
    fun q => (h.level q).trans (h'.level q), fun q => (h.ticket q).trans (h'.ticket q)⟩

/-- Storing a record with the same four fields keeps the agreement. -/
lemma Agree.set (t : PTable) (p : Fin NPROC) (r : Proc)
    (h : r.state = (t.proc p).state ∧ r.pid = (t.proc p).pid ∧
      r.level = (t.proc p).level ∧ r.ticket = (t.proc p).ticket) :
    Agree (t.set p r).proc t.proc := by
  obtain ⟨hs, hp, hl, ht⟩ := h
  refine ⟨fun q => ?_, fun q => ?_, fun q => ?_, fun q => ?_⟩ <;> rw [PTable.set_apply] <;> split
  all_goals first | rfl | (rename_i hq; subst hq; assumption)

variable (env : Env)

/-- `run_p` either leaves the table as it was up to the cycle counter, or makes one switch. -/
lemma runP_cases (level : Int32) (p : Fin NPROC) (s : Cpu) :
    ((s.t.proc p).state ≠ .runnable ∧ Agree (runP env level p s).t.proc s.t.proc ∧
      (runP env level p s).ticks = s.ticks ∧ (runP env level p s).switches = s.switches) ∨
    ((s.t.proc p).state = .runnable ∧ ∃ w : Switch, w.level = level ∧ w.chosen = p ∧
      Agree w.before s.t.proc ∧ w.after = (runP env level p s).t.proc ∧
      (runP env level p s).switches = s.switches ++ [w]) := by
  have hcharge : Agree (s.set p { s.t.proc p with cycleNum := (s.t.proc p).cycleNum + 1 }).t.proc
      s.t.proc := Agree.set _ _ _ ⟨rfl, rfl, rfl, rfl⟩
  by_cases hr : (s.t.proc p).state = .runnable
  · refine Or.inr ⟨hr, ⟨level, _, p, _⟩, rfl, rfl, hcharge, rfl, ?_⟩
    simp [runP, Cpu.set, Cpu.leave, hr]
  refine Or.inl ⟨hr, ?_⟩
  have hrun : runP env level p s =
      s.set p { s.t.proc p with cycleNum := (s.t.proc p).cycleNum + 1 } := by
    simp [runP, Cpu.set, hr]
  rw [hrun]
  exact ⟨hcharge, rfl, rfl⟩

lemma runP_trap (level : Int32) (p : Fin NPROC) (s : Cpu) :
    (runP env level p s).trap = s.trap := by
  unfold runP
  dsimp only
  split <;> rfl

lemma runP_switches_extend (level : Int32) (p : Fin NPROC) (s : Cpu) :
    s.switches <+: (runP env level p s).switches := by
  rcases runP_cases env level p s with ⟨_, _, _, h⟩ | ⟨_, w, _, _, _, _, h⟩
  · exact h ▸ List.prefix_rfl
  · exact h ▸ List.prefix_append _ _

/-- A step of the lottery either moves only its counter or calls `run_p` on a level-0 slot. -/
lemma lotteryStep_cases (random : Int32) (st : Int32 × Cpu) (p : Fin NPROC) :
    (lotteryStep env random st p).2 = st.2 ∨
    ((st.2.t.proc p).level = 0 ∧ (lotteryStep env random st p).2 = runP env 0 p st.2) := by
  unfold lotteryStep
  by_cases hl : (st.2.t.proc p).level = 0
  · simp only [hl, if_true]
    split
    · exact Or.inr ⟨trivial, rfl⟩
    · exact Or.inl rfl
  · exact Or.inl (by simp [hl])

lemma hrrn_nonneg (now : UInt32) (r : Proc) : 0 ≤ hrrn now r :=
  div_nonneg (Nat.cast_nonneg _) (Nat.cast_nonneg _)

lemma agree_spendPriority (s : Cpu) (p : Fin NPROC) :
    Agree (s.set p (spendPriority (s.t.proc p))).t.proc s.t.proc := by
  apply Agree.set
  unfold spendPriority
  split <;> exact ⟨rfl, rfl, rfl, rfl⟩

lemma agree_id (s : Cpu) (p : Fin NPROC) : Agree (s.set p (id (s.t.proc p))).t.proc s.t.proc :=
  Agree.set _ _ _ ⟨rfl, rfl, rfl, rfl⟩

instance order_int32 : IsStrictTotalOrder Int32 (· < ·) where
  trichotomous a b hab hba := by
    rw [Int32.lt_iff_toInt_lt] at hab hba
    exact Int32.toInt_inj.mp (by omega)
  irrefl _ := Int32.lt_irrefl
  trans _ _ _ := Int32.lt_trans

/-- The pid chosen by the second level is the one of a `RUNNABLE` level-1 slot, or there is none. -/
lemma hrrn_choice (now : UInt32) (t : Table) : ((slots.foldl (hrrnStep now t) (-1, -1)).2 = -1 ∧
      ∀ p, ¬ ((t p).level = 1 ∧ (t p).state = .runnable)) ∨
    ∃ p, (t p).level = 1 ∧ (t p).state = .runnable ∧
      (slots.foldl (hrrnStep now t) (-1, -1)).2 = (t p).pid := by
  rcases Lib.foldl_bestStep_first (fun p => (t p).level = 1 ∧ (t p).state = .runnable)
    (fun p => hrrn now (t p)) (· > ·) (fun p => (t p).pid) slots (-1, -1)
    with ⟨heq, hall⟩ | ⟨_, p, _, _, hel, _, heq, _⟩
  · refine Or.inl ⟨congrArg Prod.snd heq, fun p hp => hall p (mem_slots p) hp ?_⟩
    exact lt_of_lt_of_le (by decide) (hrrn_nonneg now (t p))
  · exact Or.inr ⟨p, hel.1, hel.2, congrArg Prod.snd heq⟩

/-- The pid chosen by the third level is the one of a `RUNNABLE` level-2 slot whose remaining
priority is below the starting minimum, or there is none. -/
lemma priority_choice (t : Table) : ((slots.foldl (priorityStep t) (1000000000, -1)).2 = -1 ∧
      ∀ p, (t p).level = 2 → (t p).state = .runnable → ¬ (t p).remainingPriority < 1000000000) ∨
    ∃ p, (t p).level = 2 ∧ (t p).state = .runnable ∧ (t p).remainingPriority < 1000000000 ∧
      (slots.foldl (priorityStep t) (1000000000, -1)).2 = (t p).pid := by
  rcases Lib.foldl_bestStep_first (fun p => (t p).level = 2 ∧ (t p).state = .runnable)
    (fun p => (t p).remainingPriority) (· < ·) (fun p => (t p).pid) slots (1000000000, -1)
    with ⟨heq, hall⟩ | ⟨_, p, _, _, hel, hlt, heq, _⟩
  · exact Or.inl ⟨congrArg Prod.snd heq, fun p hl hs => hall p (mem_slots p) ⟨hl, hs⟩⟩
  · exact Or.inr ⟨p, hel.1, hel.2, hlt, congrArg Prod.snd heq⟩

/-- What every call of a scan keeps, the scan keeps. A call is only made while some process
of the level is `RUNNABLE`. -/
lemma scan_invariant (l : Int32) (run : Cpu → Cpu) (I : Cpu → Prop)
    (hrun : ∀ s, I s → (∃ p, (s.t.proc p).level = l ∧ (s.t.proc p).state = .runnable) → I (run s))
    (ps : List (Fin NPROC)) (st : Bool × Cpu) (h : I st.2) :
    I (ps.foldl (scanStep l run) st).2 := by
  induction ps generalizing st with
  | nil => exact h
  | cons p ps ih =>
    rw [List.foldl_cons]
    apply ih
    unfold scanStep
    split
    · exact h
    split
    · rename_i hp
      exact hrun st.2 h ⟨p, hp⟩
    · exact h

variable {l : Int32} {run : Cpu → Cpu}

/-- The flag `ran` is never taken back. -/
lemma scan_flag (ps : List (Fin NPROC)) {st : Bool × Cpu} (h : st.1 = true) :
    (ps.foldl (scanStep l run) st).1 = true := by
  induction ps generalizing st with
  | nil => exact h
  | cons p ps ih =>
    apply ih
    unfold scanStep
    split
    · exact h
    split
    · rfl
    · exact h

/-- A scan that sets no flag has met no process of its level and has changed nothing. -/
lemma scan_not_ran (ps : List (Fin NPROC)) {s : Cpu} (htrap : s.trap = false)
    (h : (ps.foldl (scanStep l run) (false, s)).1 = false) :
    (ps.foldl (scanStep l run) (false, s)).2 = s ∧
      ∀ p ∈ ps, ¬ ((s.t.proc p).level = l ∧ (s.t.proc p).state = .runnable) := by
  induction ps with
  | nil => exact ⟨rfl, by simp⟩
  | cons p ps ih =>
    rw [List.foldl_cons] at h ⊢
    by_cases hp : (s.t.proc p).level = l ∧ (s.t.proc p).state = .runnable
    · have hstep : scanStep l run (false, s) p = (true, run s) := by
        simp [scanStep, htrap, hp]
      rw [hstep, scan_flag ps rfl] at h
      cases h
    have hstep : scanStep l run (false, s) p = (false, s) := by
      simp [scanStep, htrap, hp]
    rw [hstep] at h ⊢
    obtain ⟨heq, hall⟩ := ih h
    refine ⟨heq, fun q hq => ?_⟩
    rcases List.mem_cons.mp hq with rfl | hq
    · exact hp
    · exact hall q hq

/-- A scan that meets a process of its level starts with one call from the unchanged state. -/
lemma scan_first_call (ps : List (Fin NPROC)) {s : Cpu} (htrap : s.trap = false)
    (hex : ∃ p ∈ ps, (s.t.proc p).level = l ∧ (s.t.proc p).state = .runnable) :
    ∃ rest : List (Fin NPROC),
      ps.foldl (scanStep l run) (false, s) = rest.foldl (scanStep l run) (true, run s) := by
  induction ps with
  | nil =>
    obtain ⟨p, hp, _⟩ := hex
    cases hp
  | cons p ps ih =>
    rw [List.foldl_cons]
    by_cases hp : (s.t.proc p).level = l ∧ (s.t.proc p).state = .runnable
    · exact ⟨ps, by simp [scanStep, htrap, hp]⟩
    have hstep : scanStep l run (false, s) p = (false, s) := by simp [scanStep, htrap, hp]
    rw [hstep]
    apply ih
    obtain ⟨q, hq, h⟩ := hex
    rcases List.mem_cons.mp hq with rfl | hq
    · exact absurd h hp
    · exact ⟨q, hq, h⟩

end Xv6.Process
