import Xv6.Process.Lives

/-!
# `kill`

`kill` looks for the pid alone, so it also hits a slot that is `UNUSED`: one that
has never been used or that `wait` has freed has pid zero, and one that a failed
`fork` has given back keeps the pid of the child. `allocproc` does not clear the
mark, and the next process in that slot starts with it.
-/

namespace Xv6.Process
open Lib

/-- `kill` returns zero if a process has the pid, and changes the entry of such a process only. -/
def KillsLive (t : PTable) (pid : Int32) : Prop :=
  ((kill t pid).1 = 0 ↔ ∃ p, (t.proc p).state ≠ .unused ∧ (t.proc p).pid = pid) ∧
    ∀ q, ¬ ((t.proc q).state ≠ .unused ∧ (t.proc q).pid = pid) → (kill t pid).2.proc q = t.proc q

/-- No `UNUSED` slot carries the pid of a call of `kill`, and `fork` does not fail for a child
that is marked. -/
def Careful (s : Sys) : Move → Prop
  | .run _ (.kill pid) => ∀ q, (s.table.proc q).state = .unused → (s.table.proc q).pid ≠ pid
  | .run p (.next false) => ∀ np, (s.pc p).child = some np → (s.table.proc np).killed = false
  | _ => True

instance (s : Sys) : ∀ m, Decidable (Careful s m)
  | .run _ (.kill _) => inferInstanceAs (Decidable (∀ _, _))
  | .run _ (.next false) => inferInstanceAs (Decidable (∀ _, _))
  | .run _ (.next true) | .run _ (.fork _) | .run _ .exit | .run _ .wait | .run _ (.sleep _)
  | .run _ .yield | .run _ .exec | .run _ (.changeProcessLevel _ _)
  | .run _ (.setProcessTicket _ _) | .run _ (.setProcessRemainingPriority _ _)
  | .run _ (.setFile _ _) | .run _ (.setCwd _)
  | .dispatch _ _ | .wakeup _ => .isTrue trivial

/-- The mark of one record: an `UNUSED` one has none, and an embryo only by its own pid. -/
structure Proc.Clean (called : Bool) (r : Proc) : Prop where
  unused : r.state = .unused → r.killed = false
  embryo : r.state = .embryo → r.killed = true → called = true

variable {called : Bool} {r : Proc}

lemma Proc.Clean.of_state (hunused : r.state ≠ .unused) (hembryo : r.state ≠ .embryo) :
    r.Clean called :=
  ⟨fun h => absurd h hunused, fun h => absurd h hembryo⟩

lemma Proc.Clean.congr {r' : Proc} (h : r.Clean called) (hkilled : r'.killed = r.killed)
    (hunused : r'.state = .unused → r.state = .unused)
    (hembryo : r'.state = .embryo → r.state = .embryo) : r'.Clean called where
  unused hr := hkilled.trans (h.unused (hunused hr))
  embryo hr hk := h.embryo (hembryo hr) (hkilled.symm.trans hk)

lemma Proc.Clean.moved (h : r.Clean called) (o : Option (Fin NPROC)) {st : ProcState}
    (hst : st = r.state ∨ st ≠ .unused ∧ st ≠ .embryo) : (r.moved o st).Clean called := by
  obtain rfl | ⟨hunused, hembryo⟩ := hst
  · exact h.congr rfl id id
  · exact .of_state hunused hembryo

def Sys.Clean (s : Sys) : Prop := ∀ q, (s.table.proc q).Clean (s.called q)

variable {called : Fin NPROC → Bool}

lemma clean_set {t : PTable} (h : ∀ q, (t.proc q).Clean (called q))
    {p : Fin NPROC} (hr : r.Clean (called p)) : ∀ q, ((t.set p r).proc q).Clean (called q) :=
  PTable.forall_set (P := fun q r => r.Clean (called q)) h hr

lemma clean_setByPid {t : PTable} (h : ∀ q, (t.proc q).Clean (called q)) (pid : Int32)
    {f : Proc → Proc} (hf : ∀ r, (f r).killed = r.killed ∧ (f r).state = r.state) :
    ∀ q, ((setByPid t pid f).proc q).Clean (called q) := by
  intro q
  have hstate := setByPid_field Proc.state t pid (fun r => (hf r).2) q
  have hkilled := setByPid_field Proc.killed t pid (fun r => (hf r).1) q
  exact (h q).congr hkilled hstate.symm.trans hstate.symm.trans

/-- The mark is kept clean by every careful move. -/
lemma Moved.clean {s s' : Sys} {m : Move} (hm : Moved s m s') (hok : Careful s m)
    (h : s.Clean) : s'.Clean := by
  have hsleepReturn : ∀ p, (s.table.proc p).state = .running →
      ∀ q, ((Process.sleepReturn s.table p).proc q).Clean (s.called q) := by
    intro p hrun
    exact clean_set h (.of_state (by simp [hrun]) (by simp [hrun]))
  cases hm with
  | @fork p np now t hrun hpc halloc =>
    have hspec := allocproc_spec halloc
    intro q
    by_cases hq : q = np
    · subst hq
      have hkilled := (h q).unused hspec.unused
      refine ⟨fun _ => ?_, fun _ hk => ?_⟩
      · simp [hspec.proc, Proc.allocated, hkilled]
      · simp [hspec.proc, Proc.allocated, hkilled] at hk
    · simpa [hspec.other q hq, hq] using h q
  | same | advance | exit | setFile | setCwd => exact h
  | @forkFail p np hrun hpc =>
    have hkilled : (s.table.proc np).killed = false :=
      hok np (by obtain hp | hp := hpc <;> rw [hp] <;> rfl)
    exact clean_set h ⟨fun _ => hkilled, fun hembryo => by simp at hembryo⟩
  | @link p np ok hrun hpc => exact clean_set h ((h np).congr rfl id id)
  | dup hrun hpc =>
    unfold Sys.dupFile
    split <;> exact h
  | start hrun hpc | sleep hrun hpc | yield hrun | dispatch hidle hp =>
    exact clean_set h (.of_state (by simp) (by simp))
  | close hrun hpc =>
    unfold Sys.closeFile
    split <;> exact h
  | @leave p ok hrun hpc =>
    intro q
    rw [Sys.exit_table, exit_apply]
    refine (h q).moved _ ?_
    split
    · exact .inr (by simp)
    split
    · exact .inr (by simp)
    · exact .inl rfl
  | @wait p a hrun hpc =>
    unfold Sys.wait
    obtain ⟨z, -, -, hround⟩ | ⟨-, hround | hround⟩ :=
      waitRound_spec (Process.sleepReturn s.table p) p
    · rw [hround]
      exact clean_set (hsleepReturn p hrun)
        ⟨fun _ => rfl, fun hembryo => by simp [Proc.freed] at hembryo⟩
    · rw [hround]
      exact hsleepReturn p hrun
    · rw [hround]
      exact clean_set (hsleepReturn p hrun) (.of_state (by simp) (by simp))
  | sleepReturn hrun hpc => exact hsleepReturn _ hrun
  | @kill p pid hrun =>
    have hcalled : ∀ q, (s.table.proc q).Clean ((s.recordCall pid).called q) :=
      fun q => ⟨(h q).unused, fun he hk => by simp [(h q).embryo he hk]⟩
    unfold Sys.kill
    obtain ⟨z, hz, hkill⟩ | ⟨-, hkill⟩ := kill_spec s.table pid
    · rw [hkill]
      refine clean_set hcalled ⟨fun hunused => ?_, fun _ _ => by simp [hz]⟩
      -- the slot is in use
      have hstate : (s.table.proc z).state = .unused := by
        unfold Proc.hit at hunused
        dsimp only at hunused
        split at hunused
        · cases hunused
        · exact hunused
      exact absurd hz (hok z hstate)
    · rw [hkill]
      exact hcalled
  | exec hrun => exact clean_set h (.of_state (by simp [hrun]) (by simp [hrun]))
  | changeLevel | setTicket | setPriority =>
    simp only [Sys.Clean, Sys.setTable_table, changeProcessLevel, setProcessTicket,
      setProcessRemainingPriority]
    exact clean_setByPid h _ fun _ => ⟨rfl, rfl⟩
  | wakeup =>
    intro q
    rw [Sys.setTable_table, wakeup1_apply]
    refine (h q).moved _ ?_
    split
    · exact .inr (by simp)
    · exact .inl rfl

/-- `kill` hits only processes exactly when no `UNUSED` slot carries the pid. -/
lemma Sys.Good.killsLive_iff {s : Sys} (h : s.Good) (pid : Int32) :
    KillsLive s.table pid ↔ ∀ q, (s.table.proc q).state = .unused → (s.table.proc q).pid ≠ pid := by
  constructor
  · rintro ⟨hreturn, -⟩ q hunused hq
    obtain ⟨p, -, hkill⟩ | ⟨hnone, -⟩ := kill_spec s.table pid
    · -- the call returns zero, so a process has the pid, and pids are not shared
      obtain ⟨r, hr, hpid⟩ := hreturn.mp (by rw [hkill])
      have hrq := h.ledger.unique r q (congrArg Int32.toInt (hpid.trans hq.symm))
        (h.ledger.pos r (mt ProcState.phase_eq_free.mp hr))
      exact hr (hrq ▸ hunused)
    · exact hnone q hq
  intro hcareful
  obtain ⟨p, hp, hkill⟩ | ⟨hnone, hkill⟩ := kill_spec s.table pid
  · have hlive : (s.table.proc p).state ≠ .unused := fun hunused => hcareful p hunused hp
    refine ⟨⟨fun _ => ⟨p, hlive, hp⟩, fun _ => by rw [hkill]⟩, fun q hq => ?_⟩
    have hne : q ≠ p := by
      rintro rfl
      exact hq ⟨hlive, hp⟩
    rw [hkill, PTable.set_of_ne _ _ hne]
  refine ⟨⟨fun hzero => ?_, fun ⟨q, _, hq⟩ => absurd hq (hnone q)⟩, fun q _ => by rw [hkill]⟩
  rw [hkill] at hzero
  exact absurd hzero (show (-1 : Int32) ≠ 0 by decide)

/-- In every run in which no `UNUSED` slot carries the pid of a call of `kill` and no `fork` fails
for a child that is marked, a child that becomes `RUNNABLE` has no mark but that of a call of
`kill` with its own pid; and a call of `kill` hits only processes exactly when no `UNUSED` slot
carries its pid. -/
theorem fork_clean_of_careful (s : Sys) (h : Sys.Reached Careful s) :
    (∀ pid, KillsLive s.table pid ↔
      ∀ q, (s.table.proc q).state = .unused → (s.table.proc q).pid ≠ pid) ∧
    ∀ p np, s.pc p = .born np → (s.table.proc np).killed = true → s.called np = true := by
  have hgood := Sys.Good.reached h
  have hclean : s.Clean := by
    refine h.invariant ?_ fun s s' m _ hok hm hs => hm.clean hok hs
    intro now s hfresh q
    by_cases hq : q = s.table.initproc
    · exact .of_state (by simp [hfresh.proc, hq]) (by simp [hfresh.proc, hq])
    · exact ⟨by simp [hfresh.proc, hq], by simp [hfresh.proc, hq]⟩
  refine ⟨hgood.killsLive_iff, fun p np hpc => ?_⟩
  have hlink : s.family.child p = some (np, true) := by rw [Sys.family_child, hpc]; rfl
  exact (hclean np).embryo (ProcState.phase_eq_embryo.mp (hgood.tree.embryo p np true hlink))

/-- `initproc` forks, up to the start of the child. -/
def forkUnstarted : List Move :=
  [.dispatch 0 0, .run 0 (.fork 0)] ++ List.replicate 20 (.run 0 (.next true))

theorem forkUnstarted_clean : ∃ s, Sys.Reached Careful s ∧ s.pc 0 = .born 1 ∧
    (∀ pid, KillsLive s.table pid ↔
      ∀ q, (s.table.proc q).state = .unused → (s.table.proc q).pid ≠ pid) ∧
    ∀ p np, s.pc p = .born np → (s.table.proc np).killed = true → s.called np = true := by
  obtain ⟨s, hreach, hpc⟩ := Sys.exists_reached Careful 0 0 forkUnstarted
    (fun s => s.pc 0 = .born 1) (by decide +kernel)
  exact ⟨s, hreach, hpc, fork_clean_of_careful s hreach⟩

/-- `initproc` calls `kill(0)` and forks. -/
def killZero : List Move :=
  [.dispatch 0 0, .run 0 (.kill 0), .run 0 (.fork 0)] ++ List.replicate 20 (.run 0 (.next true))

/-- `kill(0)` returns zero though no process has pid zero, and the next child starts killed. -/
theorem kill_zero_hits_next_child : (∃ s, Sys.Reached (fun _ _ => True) s ∧ (kill s.table 0).1 = 0 ∧
        ∀ p, ¬ ((s.table.proc p).state ≠ .unused ∧ (s.table.proc p).pid = 0)) ∧
    ∃ s, Sys.Reached (fun _ _ => True) s ∧
      s.pc 0 = .born 1 ∧ (s.table.proc 1).killed = true ∧ s.called 1 = false :=
  ⟨Sys.exists_reached (fun _ _ => True) 0 0 [] _ (by decide +kernel),
    Sys.exists_reached (fun _ _ => True) 0 0 killZero _ (by decide +kernel)⟩

end Xv6.Process
