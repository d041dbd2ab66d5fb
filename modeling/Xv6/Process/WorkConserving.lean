import Xv6.Process.Acts
import Xv6.Process.Switches

/-!
# When a round of the scheduler gives the CPU away

The lottery counts the tickets of every level-0 slot, whatever its state, and
calls `run_p` on the winner and on all level-0 slots behind it. A round that
meets a `RUNNABLE` level-0 process therefore switches exactly when one of them
is at or behind the winner. The third level never looks at a process whose
remaining priority is a billion or more, and no level outside `0 .. 2` is
looked at at all.
-/

namespace Xv6.Process
open List

/-- Some `RUNNABLE` level-0 process is at or behind the winner of the lottery. -/
def DrawReaches (t : Table) (ticks : UInt32) : Prop :=
  ∃ p, (t p).level = 0 ∧ (t p).state = .runnable ∧
    randomTicket ticks (ticketSum t slots) ≤ ticketSum t (slots.take (p.val + 1))

/-- The condition for a switch: the lottery reaches a process, or level 0 has none and
the second level has one, or the third level has one below its starting minimum. -/
def Serves (t : Table) (ticks : UInt32) : Prop :=
  DrawReaches t ticks ∨
  ((∀ p, ¬ ((t p).level = 0 ∧ (t p).state = .runnable)) ∧
    ((∃ p, (t p).level = 1 ∧ (t p).state = .runnable) ∨
      ∃ p, (t p).level = 2 ∧ (t p).state = .runnable ∧ (t p).remainingPriority < 1000000000))

/-- No switch has been made from the table `t`, and nothing that the lottery reads has moved. -/
structure Quiet (t : Table) (ticks : UInt32) (s : Cpu) : Prop where
  agree : Agree s.t.proc t
  ticks : s.ticks = ticks
  switches : s.switches = []
  trap : s.trap = false

variable {l₁ l₂ ps : List (Fin NPROC)} {p : Fin NPROC} {t : Table} {l pid n random : Int32}
  {change : Proc → Proc} {ticks : UInt32} {s : Cpu}

lemma val_of_split (h : slots = l₁ ++ p :: l₂) : p.val = l₁.length := by
  have hget : slots[l₁.length]? = some p := by simp [h]
  have hlt : l₁.length < NPROC := by
    by_contra hge
    have hnone : slots[l₁.length]? = none := by
      apply getElem?_eq_none
      unfold slots
      rw [length_finRange]
      omega
    rw [hnone] at hget
    cases hget
  rw [slots_getElem? hlt] at hget
  exact (congrArg Fin.val (Option.some.inj hget)).symm

lemma take_of_split (h : slots = l₁ ++ p :: l₂) :
    slots.take p.val = l₁ ∧ slots.take (p.val + 1) = l₁ ++ [p] := by
  rw [val_of_split h, h]
  exact ⟨take_left' rfl, take_length_add_append 1⟩

lemma slots_split (p : Fin NPROC) : ∃ l₁ l₂, slots = l₁ ++ p :: l₂ := append_of_mem (mem_slots p)

lemma ticketSum_agree {t' : Table} (h : Agree t t') (ps : List (Fin NPROC)) (n : Int32) :
    ps.foldl (ticketStep t) n = ps.foldl (ticketStep t') n := by
  induction ps generalizing n with
  | nil => rfl
  | cons p ps ih =>
    rw [foldl_cons, foldl_cons, ih]
    simp [ticketStep, h.level, h.ticket]

variable (env : Env)

lemma lottery_switches_extend (random : Int32) (ps : List (Fin NPROC)) (st : Int32 × Cpu) :
    st.2.switches <+: (ps.foldl (lotteryStep env random) st).2.switches := by
  induction ps generalizing st with
  | nil => exact prefix_rfl
  | cons p ps ih =>
    rw [foldl_cons]
    refine List.IsPrefix.trans ?_ (ih _)
    rcases lotteryStep_cases env random st p with heq | ⟨_, heq⟩
    · exact heq ▸ prefix_rfl
    · exact heq ▸ runP_switches_extend env 0 p st.2

lemma runPid_switches_extend (ps : List (Fin NPROC)) (s : Cpu) :
    s.switches <+: (ps.foldl (runPidStep env l pid change) s).switches := by
  induction ps generalizing s with
  | nil => exact prefix_rfl
  | cons p ps ih =>
    rw [foldl_cons]
    refine List.IsPrefix.trans ?_ (ih _)
    unfold runPidStep
    split
    · exact runP_switches_extend env l p (s.set p (change (s.t.proc p)))
    · exact prefix_rfl

lemma runFirst_switches_extend (s : Cpu) :
    s.switches <+: (runFirstLevelProcesses env s).switches := by
  unfold runFirstLevelProcesses
  dsimp only
  split
  · exact prefix_rfl
  · exact lottery_switches_extend env _ slots (0, s)

/-- With the counter at `n`, the lottery loop meets a `RUNNABLE` level-0 slot at or behind
the random ticket. -/
def Hits (t : Table) (random : Int32) : Int32 → List (Fin NPROC) → Prop
  | _, [] => False
  | n, p :: ps =>
    ((t p).level = 0 ∧ (t p).state = .runnable ∧ random ≤ ticketStep t n p) ∨
      Hits t random (ticketStep t n p) ps

lemma hits_iff (t : Table) (random n : Int32) (ps : List (Fin NPROC)) :
    Hits t random n ps ↔ ∃ l₁ p l₂, ps = l₁ ++ p :: l₂ ∧ (t p).level = 0 ∧
      (t p).state = .runnable ∧ random ≤ (l₁ ++ [p]).foldl (ticketStep t) n := by
  induction ps generalizing n with
  | nil => simp [Hits]
  | cons p ps ih =>
    simp only [Hits, ih]
    constructor
    · rintro (⟨hl, hs, hle⟩ | ⟨l₁, q, l₂, rfl, hl, hs, hle⟩)
      · exact ⟨[], p, ps, rfl, hl, hs, hle⟩
      · exact ⟨p :: l₁, q, l₂, rfl, hl, hs, hle⟩
    rintro ⟨l₁, q, l₂, heq, hl, hs, hle⟩
    rcases l₁ with _ | ⟨a, l₁⟩
    · obtain ⟨rfl, rfl⟩ := List.cons.inj heq
      exact Or.inl ⟨hl, hs, hle⟩
    obtain ⟨rfl, rfl⟩ := List.cons.inj heq
    exact Or.inr ⟨l₁, q, l₂, rfl, hl, hs, hle⟩

lemma hits_slots_iff (t : Table) (ticks : UInt32) :
    Hits t (randomTicket ticks (ticketSum t slots)) 0 slots ↔ DrawReaches t ticks := by
  rw [hits_iff]
  constructor
  · rintro ⟨l₁, p, l₂, heq, hl, hs, hle⟩
    refine ⟨p, hl, hs, ?_⟩
    rwa [(take_of_split heq).2]
  rintro ⟨p, hl, hs, hle⟩
  obtain ⟨l₁, l₂, heq⟩ := slots_split p
  rw [(take_of_split heq).2] at hle
  exact ⟨l₁, p, l₂, heq, hl, hs, hle⟩

lemma Quiet.runP_not_runnable (hq : Quiet t ticks s) (hp : (t p).state ≠ .runnable) :
    Quiet t ticks (runP env l p s) := by
  rcases runP_cases env l p s with ⟨_, hagree, hticks, hsw⟩ | ⟨hrun, _⟩
  · exact ⟨hagree.trans hq.agree, hticks.trans hq.ticks, hsw.trans hq.switches,
      (runP_trap env l p s).trans hq.trap⟩
  · exact absurd (hq.agree.state p ▸ hrun) hp

lemma Quiet.runP_runnable (hq : Quiet t ticks s) (hp : (t p).state = .runnable) :
    (runP env l p s).switches ≠ [] := by
  rcases runP_cases env l p s with ⟨hnr, _⟩ | ⟨_, w, _, _, _, _, hsw⟩
  · exact absurd (hq.agree.state p ▸ hp) hnr
  · simp [hsw]

lemma ne_nil_of_prefix {l l' : List Switch} (h : l <+: l') (hl : l ≠ []) : l' ≠ [] := by
  rintro rfl
  exact hl (prefix_nil.mp h)

/-- One iteration of the lottery loop, with the counter taken from a table that agrees. -/
lemma lotteryStep_eq (h : Agree s.t.proc t) (random n : Int32) (p : Fin NPROC) :
    lotteryStep env random (n, s) p = (ticketStep t n p,
      if (t p).level = 0 ∧ random ≤ ticketStep t n p then runP env 0 p s else s) := by
  unfold lotteryStep ticketStep
  dsimp only
  rw [h.level, h.ticket]
  by_cases hl : (t p).level = 0
  · simp only [hl, if_true, true_and]
    split <;> rfl
  · simp only [hl, if_false, false_and]

/-- Without a hit the lottery loop makes no switch and only counts. -/
lemma lottery_noHit (ha : Agree s.t.proc t) (h : ¬ Hits t random n ps) :
    (ps.foldl (lotteryStep env random) (n, s)).1 = ps.foldl (ticketStep t) n ∧
    Agree (ps.foldl (lotteryStep env random) (n, s)).2.t.proc t ∧
    (ps.foldl (lotteryStep env random) (n, s)).2.ticks = s.ticks ∧
    (ps.foldl (lotteryStep env random) (n, s)).2.switches = s.switches ∧
    (ps.foldl (lotteryStep env random) (n, s)).2.trap = s.trap := by
  induction ps generalizing n s with
  | nil => exact ⟨rfl, ha, rfl, rfl, rfl⟩
  | cons p ps ih =>
    obtain ⟨hmiss, hrest⟩ := not_or.mp h
    rw [foldl_cons, foldl_cons, lotteryStep_eq env ha]
    split
    · rename_i hcall
      rcases runP_cases env 0 p s with ⟨_, hagree, hticks, hsw⟩ | ⟨hrun, _⟩
      · obtain ⟨hcount, ha', hticks', hsw', htrap'⟩ := ih (hagree.trans ha) hrest
        exact ⟨hcount, ha', hticks'.trans hticks, hsw'.trans hsw,
          htrap'.trans (runP_trap env 0 p s)⟩
      · exact absurd ⟨hcall.1, ha.state p ▸ hrun, hcall.2⟩ hmiss
    · exact ih ha hrest

lemma lottery_hit (ha : Agree s.t.proc t) (h : Hits t random n ps) :
    ∃ w ws, (ps.foldl (lotteryStep env random) (n, s)).2.switches = s.switches ++ w :: ws := by
  induction ps generalizing n s with
  | nil => exact h.elim
  | cons p ps ih =>
    rw [foldl_cons, lotteryStep_eq env ha]
    by_cases hcall : (t p).level = 0 ∧ random ≤ ticketStep t n p
    · rw [if_pos hcall]
      rcases runP_cases env 0 p s with ⟨hidle, hagree, _, hsw⟩ | ⟨_, w, _, _, _, _, hsw⟩
      · rw [← hsw]
        apply ih (hagree.trans ha)
        exact h.resolve_left fun hp => hidle ((ha.state p).trans hp.2.1)
      obtain ⟨ws, hws⟩ := lottery_switches_extend env random ps (ticketStep t n p, runP env 0 p s)
      refine ⟨w, ws, ?_⟩
      rw [← hws, hsw, append_assoc]
      rfl
    · rw [if_neg hcall]
      exact ih ha (h.resolve_left fun hp => hcall ⟨hp.1, hp.2.2⟩)

lemma runFirst_serves (hq : Quiet t ticks s) (hsum : ticketSum t slots ≠ 0) :
    (DrawReaches t ticks → (runFirstLevelProcesses env s).switches ≠ []) ∧
    (¬ DrawReaches t ticks → Quiet t ticks (runFirstLevelProcesses env s)) := by
  have heq : ticketSum s.t.proc slots = ticketSum t slots := ticketSum_agree hq.agree slots 0
  have hrun : runFirstLevelProcesses env s =
      (slots.foldl (lotteryStep env (randomTicket ticks (ticketSum t slots))) (0, s)).2 := by
    unfold runFirstLevelProcesses
    rw [heq, hq.ticks]
    exact if_neg hsum
  rw [hrun, ← hits_slots_iff]
  constructor
  · intro hhit
    obtain ⟨w, ws, hsw⟩ := lottery_hit env hq.agree hhit
    rw [hsw]
    simp
  intro hmiss
  obtain ⟨-, hagree, hticks, hsw, htrap⟩ := lottery_noHit env hq.agree hmiss
  exact ⟨hagree, hticks.trans hq.ticks, hsw.trans hq.switches, htrap.trans hq.trap⟩

/-- The second loop of a lower level switches when the pid it looks for is the one of a
`RUNNABLE` slot ahead. -/
lemma runPid_switches
    (hchange : ∀ s : Cpu, ∀ p, Agree (s.set p (change (s.t.proc p))).t.proc s.t.proc)
    (ps : List (Fin NPROC)) (hp : p ∈ ps) (hpid : (t p).pid = pid) (hrun : (t p).state = .runnable)
    (s : Cpu) (hq : Quiet t ticks s) :
    (ps.foldl (runPidStep env l pid change) s).switches ≠ [] := by
  induction ps generalizing s with
  | nil => cases hp
  | cons q ps ih =>
    rw [foldl_cons]
    by_cases hqpid : (s.t.proc q).pid = pid
    · have hstep : runPidStep env l pid change s q =
          runP env l q (s.set q (change (s.t.proc q))) := if_pos hqpid
      have hset : Quiet t ticks (s.set q (change (s.t.proc q))) :=
        ⟨(hchange s q).trans hq.agree, hq.ticks, hq.switches, hq.trap⟩
      rw [hstep]
      by_cases hr : (t q).state = .runnable
      · exact ne_nil_of_prefix (runPid_switches_extend env ps _) (hset.runP_runnable env hr)
      rcases mem_cons.mp hp with rfl | hp
      · exact absurd hrun hr
      · exact ih hp _ (hset.runP_not_runnable env hr)
    have hstep : runPidStep env l pid change s q = s := if_neg hqpid
    rw [hstep]
    rcases mem_cons.mp hp with rfl | hp
    · exact absurd ((hq.agree.pid p).trans hpid) hqpid
    · exact ih hp s hq

/-- It does nothing when no slot ahead has the pid. -/
lemma runPid_idle (ps : List (Fin NPROC)) (s : Cpu) (h : ∀ q ∈ ps, (s.t.proc q).pid ≠ pid) :
    ps.foldl (runPidStep env l pid change) s = s := by
  induction ps with
  | nil => rfl
  | cons p ps ih =>
    have hstep : runPidStep env l pid change s p = s := if_neg (h p (by simp))
    rw [foldl_cons, hstep]
    exact ih fun q hq => h q (by simp [hq])

/-- A scan that meets a process of its level sets the flag, and it makes a switch if its
first call does. -/
lemma scan_met (run : Cpu → Cpu) (htrap : s.trap = false)
    (hmono : ∀ s : Cpu, s.switches <+: (run s).switches)
    (hex : ∃ p, (s.t.proc p).level = l ∧ (s.t.proc p).state = .runnable) :
    (scan l run s).1 = true ∧ ((run s).switches ≠ [] → (scan l run s).2.switches ≠ []) := by
  obtain ⟨p, hp⟩ := hex
  obtain ⟨rest, heq⟩ : ∃ rest : List (Fin NPROC),
      scan l run s = rest.foldl (scanStep l run) (true, run s) :=
    scan_first_call slots htrap ⟨p, mem_slots p, hp⟩
  rw [heq]
  refine ⟨scan_flag rest rfl, fun hne => ?_⟩
  apply ne_nil_of_prefix _ hne
  exact scan_invariant l run (fun s' => (run s).switches <+: s'.switches)
    (fun s' hs' _ => hs'.trans (hmono s')) rest (true, run s) prefix_rfl

/-- A scan that meets no process of its level does nothing. -/
lemma scan_missed (run : Cpu → Cpu)
    (hnone : ∀ p, ¬ ((s.t.proc p).level = l ∧ (s.t.proc p).state = .runnable)) :
    scan l run s = (false, s) := by
  have hfold : ∀ ps : List (Fin NPROC), ps.foldl (scanStep l run) (false, s) = (false, s) := by
    intro ps
    induction ps with
    | nil => rfl
    | cons p ps ih =>
      have hstep : scanStep l run (false, s) p = (false, s) := by
        simp [scanStep, hnone p]
      rw [foldl_cons, hstep]
      exact ih
  exact hfold slots

/-- The scheduler at `acquire` of `ptable.lock`, before any switch. -/
def atAcquire (t : PTable) (ticks : UInt32) : Cpu := { t := t, ticks := ticks }

lemma quiet_atAcquire (t : PTable) (ticks : UInt32) : Quiet t.proc ticks (atAcquire t ticks) :=
  ⟨Agree.refl _, rfl, rfl, rfl⟩

variable {t : PTable}

lemma firstLevel_switches_iff (hsum : ticketSum t.proc slots ≠ 0)
    (hex : ∃ p, (t.proc p).level = 0 ∧ (t.proc p).state = .runnable) :
    (schedulerBody env (atAcquire t ticks)).switches ≠ [] ↔ DrawReaches t.proc ticks := by
  have hq := quiet_atAcquire t ticks
  obtain ⟨hflag, hsw⟩ := scan_met (runFirstLevelProcesses env) hq.trap
    (runFirst_switches_extend env) hex
  unfold schedulerBody
  dsimp only
  rw [if_pos hflag]
  constructor
  · intro hne
    by_contra hdraw
    apply hne
    exact (scan_invariant 0 (runFirstLevelProcesses env) (Quiet t.proc ticks)
      (fun s hs _ => (runFirst_serves env hs hsum).2 hdraw) slots (false, _) hq).switches
  · intro hdraw
    exact hsw ((runFirst_serves env hq hsum).1 hdraw)

lemma secondLevel_switches (hnone : ∀ p, ¬ ((t.proc p).level = 0 ∧ (t.proc p).state = .runnable))
    (hex : ∃ p, (t.proc p).level = 1 ∧ (t.proc p).state = .runnable) :
    (schedulerBody env (atAcquire t ticks)).switches ≠ [] := by
  have hq := quiet_atAcquire t ticks
  obtain ⟨hflag, hsw⟩ := scan_met (runSecondLevelProcesses env) hq.trap
    (fun s => runPid_switches_extend env slots s) hex
  unfold schedulerBody
  rw [scan_missed _ hnone]
  dsimp only
  rw [if_neg (by decide), if_pos hflag]
  apply hsw
  rcases hrrn_choice ticks t.proc with ⟨_, hnone⟩ | ⟨p, _, hs, hpid⟩
  · obtain ⟨p, hp⟩ := hex
    exact absurd hp (hnone p)
  · exact runPid_switches env agree_id slots (mem_slots p) hpid.symm hs _ hq

lemma thirdLevel_switches_iff (ht : Sane t)
    (hnone₀ : ∀ p, ¬ ((t.proc p).level = 0 ∧ (t.proc p).state = .runnable))
    (hnone₁ : ∀ p, ¬ ((t.proc p).level = 1 ∧ (t.proc p).state = .runnable)) :
    (schedulerBody env (atAcquire t ticks)).switches ≠ [] ↔
      ∃ p, (t.proc p).level = 2 ∧ (t.proc p).state = .runnable ∧
        (t.proc p).remainingPriority < 1000000000 := by
  have hq := quiet_atAcquire t ticks
  unfold schedulerBody
  rw [scan_missed _ hnone₀]
  dsimp only
  rw [if_neg (by decide), scan_missed _ hnone₁]
  dsimp only
  rw [if_neg (by decide)]
  rcases priority_choice t.proc with ⟨hpid, hall⟩ | ⟨p, hl, hs, hlt, hpid⟩
  · have hidle : runThirdLevelProcesses env (atAcquire t ticks) = atAcquire t ticks := by
      apply runPid_idle
      intro q _ heq
      have hneg : (t.proc q).pid = -1 := heq.trans hpid
      have hpos := ht.pid q
      rw [hneg] at hpos
      exact absurd hpos (by decide)
    have hscan := scan_invariant 2 (runThirdLevelProcesses env)
      (· = atAcquire t ticks) (fun s hs _ => by rw [hs, hidle]) slots (false, _) rfl
    constructor
    · intro hne
      exact absurd (congrArg Cpu.switches hscan) hne
    · rintro ⟨p, hl, hs, hlt⟩
      exact absurd hlt (hall p hl hs)
  obtain ⟨_, hsw⟩ := scan_met (runThirdLevelProcesses env) hq.trap
    (fun s => runPid_switches_extend env slots s) ⟨p, hl, hs⟩
  refine ⟨fun _ => ⟨p, hl, hs, hlt⟩, fun _ => hsw ?_⟩
  exact runPid_switches env agree_spendPriority slots (mem_slots p) hpid.symm hs _ hq

/-- One round from a reachable table, whose level-0 tickets do not sum to zero, switches to
some process exactly under the condition `Serves`. -/
theorem schedulerBody_switches_iff {t : PTable} (ht : Reachable t) (ticks : UInt32)
    (hsum : ticketSum t.proc slots ≠ 0) :
    (schedulerBody env { t := t, ticks := ticks }).switches ≠ [] ↔ Serves t.proc ticks := by
  change (schedulerBody env (atAcquire t ticks)).switches ≠ [] ↔ _
  unfold Serves
  by_cases h₀ : ∃ p, (t.proc p).level = 0 ∧ (t.proc p).state = .runnable
  · rw [firstLevel_switches_iff env hsum h₀]
    refine ⟨Or.inl, fun h => h.elim id ?_⟩
    rintro ⟨hnone, _⟩
    obtain ⟨p, hp⟩ := h₀
    exact absurd hp (hnone p)
  have hnone₀ : ∀ p, ¬ ((t.proc p).level = 0 ∧ (t.proc p).state = .runnable) :=
    fun p hp => h₀ ⟨p, hp⟩
  have hdraw : ¬ DrawReaches t.proc ticks := fun ⟨p, hl, hs, _⟩ => hnone₀ p ⟨hl, hs⟩
  by_cases h₁ : ∃ p, (t.proc p).level = 1 ∧ (t.proc p).state = .runnable
  · exact iff_of_true (secondLevel_switches env hnone₀ h₁) (Or.inr ⟨hnone₀, Or.inl h₁⟩)
  have hnone₁ : ∀ p, ¬ ((t.proc p).level = 1 ∧ (t.proc p).state = .runnable) :=
    fun p hp => h₁ ⟨p, hp⟩
  rw [thirdLevel_switches_iff env ht.sane hnone₀ hnone₁]
  constructor
  · exact fun h => Or.inr ⟨hnone₀, Or.inr h⟩
  rintro (h | ⟨_, h | h⟩)
  · exact absurd h hdraw
  · exact absurd h h₁
  · exact h

/-- The table after `userinit` at time zero. -/
def initTable : PTable := (userinit 0).get (by decide +kernel)

lemma reachable_initTable : Reachable initTable := Reachable.start 0 (Option.some_get _).symm

/-- The first process has the CPU and has allocated a slot for a child. -/
def embryoTable : PTable := ((allocproc (dispatch initTable 0) 0).get (by decide +kernel)).2

lemma reachable_embryoTable : Reachable embryoTable := by
  have hrun := reachable_initTable.step (Step.dispatch 0 (by decide +kernel) (by decide +kernel))
  exact hrun.step (Step.allocproc 0 _ 0 (by decide +kernel) (Option.some_get _).symm)

/-- The first process has forked and yielded; its child has run and sleeps. -/
def sleepingChildTable : PTable :=
  sleep (dispatch (yield (forkCommit embryoTable 0 1) 0) 1) 1 (.addr 5)

lemma reachable_sleepingChildTable : Reachable sleepingChildTable := by
  have hfork := reachable_embryoTable.step (Step.fork 0 1 (by decide +kernel) (by decide +kernel))
  have hyield := hfork.step (Step.yield 0 (by decide +kernel))
  have hchild := hyield.step (Step.dispatch 1 (by decide +kernel) (by decide +kernel))
  exact hchild.step (Step.sleep 1 (.addr 5) (by decide +kernel))

/-- At time zero the lottery falls on the sleeping child, behind the only `RUNNABLE`
process, and the round gives the CPU to nobody. -/
theorem schedulerBody_idles : Reachable sleepingChildTable ∧
    (sleepingChildTable.proc 0).state = .runnable ∧ ticketSum sleepingChildTable.proc slots ≠ 0 ∧
    (schedulerBody (fun _ m => m) { t := sleepingChildTable, ticks := 0 }).switches = [] := by
  refine ⟨reachable_sleepingChildTable, ?_, ?_, ?_⟩
  · decide +kernel
  · decide +kernel
  · exact isEmpty_iff.mp (by decide +kernel)

/-- With the first process alone the lottery reaches it. -/
theorem schedulerBody_switches_init :
    (schedulerBody (fun _ m => m) { t := initTable, ticks := 3 }).switches ≠ [] := by
  apply (schedulerBody_switches_iff _ reachable_initTable 3 (by decide +kernel)).mpr
  exact Or.inl ⟨0, by decide +kernel⟩

end Xv6.Process
