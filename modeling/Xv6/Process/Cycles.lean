import Xv6.Process.Dispatch

/-!
# What `cycleNum` counts

`run_p` moves the cycle counter before it looks at the state. The lower levels
only call it on the process they have chosen, so there every call is a switch.
The lottery calls it on each level-0 slot behind the random ticket, and a slot
in use that is not `RUNNABLE` is charged without having run. As long as no
lottery meets such a slot, the counter of a process is one more than the number
of switches to it.

## Implementation notes

A process is a slot with a pid. Since pids are not given out twice, the switches
since `allocproc` are the ones that were made while the slot had that pid.
-/

namespace Xv6.Process

/-- The number of switches to the process that has `pid` in slot `p`. -/
def timesSwitched (ws : List Switch) (p : Fin NPROC) (pid : Int32) : ℕ :=
  ws.countP fun w => w.chosen = p ∧ (w.before p).pid = pid

/-- Every process has been charged once for each switch to it. -/
structure Counted (t : PTable) (ws : List Switch) : Prop where
  numbered : Numbered t
  below : ∀ w ∈ ws, (w.before w.chosen).pid.toInt < t.nextpid.toInt
  cycle : ∀ p, (t.proc p).state ≠ .unused →
    (t.proc p).cycleNum = timesSwitched ws p (t.proc p).pid + 1

variable {t : PTable} {ws : List Switch} {p : Fin NPROC}

section
variable (h : Counted t ws)
include h

/-- Nobody has been switched to while the slot had a pid that is yet to be given out. -/
lemma Counted.timesSwitched_new {pid : Int32}
    (hpid : t.nextpid.toInt ≤ pid.toInt) (p : Fin NPROC) : timesSwitched ws p pid = 0 := by
  apply List.countP_eq_zero.mpr
  rintro w hw heq
  obtain ⟨rfl, rfl⟩ := of_decide_eq_true heq
  have hbelow := h.below w hw
  omega

lemma Counted.later {t' : PTable} (hl : Acts t t') : Counted t' ws := by
  obtain ⟨hnum, hlater⟩ := hl.later h.numbered
  refine ⟨hnum, fun w hw => ?_, fun p hp => ?_⟩
  · have hbelow := h.below w hw
    have hnext := hlater.nextpid
    omega
  obtain ⟨hused, hpid, hcycle⟩ | ⟨hnew, hone⟩ := hlater.cycle p hp
  · rw [hpid, hcycle]
    exact h.cycle p hused
  · rw [h.timesSwitched_new hnew p, hone]

lemma Counted.set {r : Proc} (hpid : r.pid = (t.proc p).pid)
    (hused : r.state ≠ .unused → (t.proc p).state ≠ .unused ∧ r.cycleNum = (t.proc p).cycleNum) :
    Counted (t.set p r) ws := by
  refine ⟨h.numbered.set hpid fun hr => (hused hr).1, h.below, fun q => ?_⟩
  rw [PTable.set_apply]
  split
  · rename_i hq
    subst hq
    intro hr
    rw [hpid, (hused hr).2]
    exact h.cycle q (hused hr).1
  · exact h.cycle q

lemma Counted.dispatch (hp : (t.proc p).state = .runnable) {w : Switch}
    (hchosen : w.chosen = p) (hpid : (w.before p).pid = (t.proc p).pid) :
    Counted (dispatch t p) (ws ++ [w]) := by
  have hused : (t.proc p).state ≠ .unused := by simp [hp]
  have hpids : ∀ q, ((Process.dispatch t p).proc q).pid = (t.proc q).pid :=
    PTable.set_field Proc.pid t p rfl
  refine ⟨h.numbered.dispatch hp, fun v hv => ?_, fun q => ?_⟩
  · rcases List.mem_append.mp hv with hv | hv
    · exact h.below v hv
    obtain rfl : v = w := by simpa using hv
    rw [hchosen, hpid]
    exact h.numbered.below p
  rw [hpids q]
  unfold timesSwitched
  rw [List.countP_append, List.countP_singleton]
  unfold Process.dispatch
  rw [PTable.set_apply]
  split
  · rename_i hq
    subst hq
    intro _
    rw [if_pos (by simp [hchosen, hpid])]
    exact congrArg (· + 1) (h.cycle q hused)
  rename_i hq
  rw [if_neg (by simp [hchosen, Ne.symm hq])]
  exact h.cycle q

end

section Calls
variable {env : Env} (henv : env.Acting)
include henv

variable {s : Cpu}

section
variable (h : Counted s.t s.switches)
include h

lemma Counted.runP {l : Int32} {p : Fin NPROC}
    (hp : (s.t.proc p).state = .runnable ∨ (s.t.proc p).state = .unused) :
    Counted (runP env l p s).t (runP env l p s).switches := by
  obtain hrun | hfree := hp
  · have hpid : ((charge s.t p).proc p).pid = (s.t.proc p).pid := by simp [charge]
    rw [runP_switches env hrun, runP_table env hrun]
    refine Counted.later ?_ (henv s.away (Process.dispatch s.t p) s.ticks)
    exact h.dispatch hrun rfl hpid
  have hcharge : Process.runP env l p s =
      s.set p { s.t.proc p with cycleNum := (s.t.proc p).cycleNum + 1 } := by
    simp [Process.runP, Cpu.set, hfree]
  rw [hcharge]
  exact h.set rfl fun hne => absurd hfree hne

lemma Counted.leave : Counted (s.leave env).t (s.leave env).switches :=
  h.later (henv s.away s.t s.ticks)

lemma Counted.runSecond (hex : ∃ p, (s.t.proc p).level = 1 ∧ (s.t.proc p).state = .runnable) :
    Counted (runSecondLevelProcesses env s).t (runSecondLevelProcesses env s).switches := by
  obtain ⟨p, hbest, hpid⟩ := hrrn_pick s.ticks s.t.proc hex
  have hcall : runSecondLevelProcesses env s = Process.runP env 1 p (s.set p (s.t.proc p)) := by
    unfold runSecondLevelProcesses
    rw [hpid]
    exact runPid_dispatches henv h.numbered hbest.runnable ⟨rfl, rfl⟩
  rw [hcall]
  apply Counted.runP henv
  · exact h.set rfl fun hr => ⟨hr, rfl⟩
  rw [Cpu.set, PTable.set_self]
  exact .inl hbest.runnable

lemma Counted.runThird :
    Counted (runThirdLevelProcesses env s).t (runThirdLevelProcesses env s).switches := by
  by_cases hex : ∃ p, (s.t.proc p).level = 2 ∧ (s.t.proc p).state = .runnable ∧
      (s.t.proc p).remainingPriority < 1000000000
  · obtain ⟨p, hbest, hcall⟩ := runThird_eq_runP henv h.numbered hex
    rw [hcall]
    apply Counted.runP henv
    · apply h.set
      · unfold spendPriority
        split <;> rfl
      rw [spendPriority_state]
      refine fun hr => ⟨hr, ?_⟩
      unfold spendPriority
      split <;> rfl
    · rw [Cpu.set, PTable.set_self, spendPriority_state]
      exact .inl hbest.runnable
  · rw [runThird_idle env h.numbered hex]
    exact h

end
end Calls

/-- In the lottery held in state `s`, every slot that `run_p` is called on is `RUNNABLE` or free
when the loop gets there. -/
def DrawsReady (env : Env) (s : Cpu) : Prop :=
  ∀ p : Fin NPROC,
    let random := randomTicket s.ticks (ticketSum s.t.proc slots)
    let st := (slots.take p.val).foldl (lotteryStep env random) (0, s)
    (st.2.t.proc p).level = 0 → random ≤ st.1 + (st.2.t.proc p).ticket →
      (st.2.t.proc p).state = .runnable ∨ (st.2.t.proc p).state = .unused

/-- Every lottery of a scan of level 0 is of that kind. -/
def ScansReady (env : Env) (s : Cpu) : Prop :=
  ∀ p : Fin NPROC,
    let st := (slots.take p.val).foldl (scanStep 0 (runFirstLevelProcesses env)) (false, s)
    (st.2.t.proc p).level = 0 → (st.2.t.proc p).state = .runnable → DrawsReady env st.2

instance (env : Env) (s : Cpu) : Decidable (DrawsReady env s) :=
  inferInstanceAs (Decidable (∀ _ : Fin NPROC, _ → _ → _ ∨ _))

instance (env : Env) (s : Cpu) : Decidable (ScansReady env s) :=
  inferInstanceAs (Decidable (∀ _ : Fin NPROC, _ → _ → DrawsReady env _))

/-- A loop over the table keeps what each iteration keeps, in the state that the slots before
it have led to. -/
lemma foldl_slots {β : Type} {f : β → Fin NPROC → β} (I : β → Prop) {b : β} (hb : I b)
    (hstep : ∀ p : Fin NPROC, I ((slots.take p.val).foldl f b) →
      I (f ((slots.take p.val).foldl f b) p)) : I (slots.foldl f b) := by
  have hrest : ∀ l₂ l₁, slots = l₁ ++ l₂ → I (l₁.foldl f b) → I (slots.foldl f b) := by
    intro l₂
    induction l₂ with
    | nil =>
      intro l₁ heq hl₁
      rw [heq, List.append_nil]
      exact hl₁
    | cons p l₂ ih =>
      intro l₁ heq hl₁
      obtain ⟨htake, -⟩ := take_of_split heq
      have hp := hstep p (htake.symm ▸ hl₁)
      rw [htake] at hp
      apply ih (l₁ ++ [p])
      · rw [heq, List.append_cons]
      · rw [List.foldl_append]
        exact hp
  exact hrest slots [] rfl hb

section Run
variable {env : Env} (henv : env.Acting)
include henv

variable {s : Cpu}

lemma Counted.runFirst (h : Counted s.t s.switches) (hready : DrawsReady env s) :
    Counted (runFirstLevelProcesses env s).t (runFirstLevelProcesses env s).switches := by
  unfold runFirstLevelProcesses
  dsimp only
  split
  · exact h
  apply foldl_slots (fun st : Int32 × Cpu => Counted st.2.t st.2.switches) h
  intro p hst
  have hp := hready p
  unfold lotteryStep
  split
  · rename_i hlevel
    dsimp only
    split
    · rename_i hreached
      exact hst.runP henv (hp hlevel hreached)
    · exact hst
  · exact hst

lemma Counted.scanFirst (h : Counted s.t s.switches) (hready : ScansReady env s) :
    Counted (scan 0 (runFirstLevelProcesses env) s).2.t
      (scan 0 (runFirstLevelProcesses env) s).2.switches := by
  apply foldl_slots (fun st : Bool × Cpu => Counted st.2.t st.2.switches) h
  intro p hst
  have hp := hready p
  unfold scanStep
  split
  · exact hst
  split
  · rename_i hmet
    exact hst.runFirst henv (hp hmet.1 hmet.2)
  · exact hst

lemma Counted.schedulerBody (h : Counted s.t s.switches) (hready : ScansReady env s) :
    Counted (schedulerBody env s).t (schedulerBody env s).switches := by
  have hfirst := h.scanFirst henv hready
  unfold Process.schedulerBody
  dsimp only
  split
  · exact hfirst
  have hsecond := scan_invariant 1 (runSecondLevelProcesses env)
    (fun s => Counted s.t s.switches) (fun s hs hex => hs.runSecond henv hex) slots (false, _)
    hfirst
  split
  · exact hsecond
  exact scan_invariant 2 (runThirdLevelProcesses env) (fun s => Counted s.t s.switches)
    (fun s hs _ => hs.runThird henv) slots (false, _) hsecond

/-- In every run of the scheduler whose lotteries call `run_p` on `RUNNABLE` processes and free
slots only, the cycle counter of every process is one more than the number of switches to it,
whatever the processes do to levels, tickets and priorities meanwhile. -/
theorem scheduler_counts_switches (s : Cpu) (hs : Counted s.t s.switches) (n : ℕ)
    (hready : ∀ k < n, ScansReady env ((scheduler env k s).leave env)) (p : Fin NPROC)
    (hp : ((scheduler env n s).t.proc p).state ≠ .unused) :
    ((scheduler env n s).t.proc p).cycleNum - 1 =
      timesSwitched (scheduler env n s).switches p ((scheduler env n s).t.proc p).pid := by
  have hrun : Counted (scheduler env n s).t (scheduler env n s).switches := by
    clear hp
    induction n with
    | zero => exact hs
    | succ n ih =>
      have hsucc : scheduler env (n + 1) s = schedulerRound env (scheduler env n s) :=
        Function.iterate_succ_apply' _ _ _
      have hn := ih fun k hk => hready k (Nat.lt_succ_of_lt hk)
      rw [hsucc]
      unfold schedulerRound
      split
      · exact hn
      · exact (hn.leave henv).schedulerBody henv (hready n (Nat.lt_succ_self n))
  rw [hrun.cycle p hp]
  exact Nat.add_sub_cancel _ 1

end Run

/-- What happens while the scheduler is away for the `n`th time, as a list of sections. -/
def scriptEnv (script : ℕ → List Act) : Env := fun n m =>
  ((Lib.execAll act (fun _ _ => True) m.1 (script n)).getD m.1, m.2)

lemma scriptEnv_acting (script : ℕ → List Act) : (scriptEnv script).Acting := by
  intro n t ticks
  unfold scriptEnv
  cases h : Lib.execAll act (fun _ _ => True) t (script n) with
  | none => exact Relation.ReflTransGen.refl
  | some t' => exact Lib.reaches_of_execAll h

lemma counted_initTable : Counted initTable [] := by
  refine ⟨reachable_initTable.numbered, by simp, ?_⟩
  change ∀ p, (initTable.proc p).state ≠ .unused → (initTable.proc p).cycleNum = 1
  decide +kernel

/-- The first process yields twice. -/
theorem scheduler_counts_yields :
    ((scheduler (scriptEnv fun _ => [.yield 0]) 2 (atAcquire initTable 3)).t.proc 0).cycleNum - 1 =
      timesSwitched (scheduler (scriptEnv fun _ => [.yield 0]) 2 (atAcquire initTable 3)).switches 0
        ((scheduler (scriptEnv fun _ => [.yield 0]) 2 (atAcquire initTable 3)).t.proc 0).pid :=
  scheduler_counts_switches (scriptEnv_acting _) (atAcquire initTable 3) counted_initTable 2
    (by decide +kernel) 0 (by decide +kernel)

/-- The first process is interrupted in `fork`, behind `allocproc`. The lottery goes on with the
slot of the child, which is charged for a cycle it does not get. -/
theorem embryo_is_charged : Counted initTable [] ∧
    ((scheduler (scriptEnv fun n => if n = 0 then [] else [.allocproc 0 0, .yield 0]) 1
      (atAcquire initTable 3)).t.proc 1).state = .embryo ∧
    ((scheduler (scriptEnv fun n => if n = 0 then [] else [.allocproc 0 0, .yield 0]) 1
      (atAcquire initTable 3)).t.proc 1).cycleNum = 2 ∧ timesSwitched (scheduler (scriptEnv fun n =>
        if n = 0 then [] else [.allocproc 0 0, .yield 0]) 1 (atAcquire initTable 3)).switches 1
      ((scheduler (scriptEnv fun n => if n = 0 then [] else [.allocproc 0 0, .yield 0]) 1
        (atAcquire initTable 3)).t.proc 1).pid = 0 :=
  ⟨counted_initTable, by decide +kernel, by decide +kernel, by decide +kernel⟩

end Xv6.Process
