import Xv6.Process.Lives

/-!
# `exit` and `wait`

A process that sleeps in `wait` has no child that has exited. `exit` wakes the
parent before it makes the state `ZOMBIE`, and `initproc` when it hands an exited
child over, all in one critical section; `wait` looks at its children and goes to
sleep in one.
-/

namespace Xv6.Process
open Lib

/-- The process sleeps in `wait`, on its own table entry. -/
def PTable.WaitsAsleep (t : PTable) (p : Fin NPROC) : Prop :=
  (t.proc p).state = .sleeping ∧ (t.proc p).chan = .proc p

/-- A child of `p` that has exited. -/
def PTable.ExitedChild (t : PTable) (p z : Fin NPROC) : Prop :=
  (t.proc z).state = .zombie ∧ (t.proc z).parent = some p

/-- No process sleeps in `wait` while it has a child that has exited. -/
def PTable.NoMissedExit (t : PTable) : Prop := ∀ p z, t.WaitsAsleep p → ¬ t.ExitedChild p z

namespace PTable

variable {t t' : PTable}

section
variable (h : t.NoMissedExit)
include h

/-- A change that puts no process to sleep in `wait` and that makes no child exit. -/
lemma NoMissedExit.mono (hsleep : ∀ p, t'.WaitsAsleep p → t.WaitsAsleep p)
    (hexit : ∀ p z, t'.ExitedChild p z → t.ExitedChild p z) : t'.NoMissedExit :=
  fun p z hp hz => h p z (hsleep p hp) (hexit p z hz)

lemma NoMissedExit.set {q : Fin NPROC} {r : Proc}
    (hsleep : r.state = .sleeping → r.chan = .proc q → t.WaitsAsleep q)
    (hzombie : r.state = .zombie → (t.proc q).state = .zombie ∧ r.parent = (t.proc q).parent) :
    (t.set q r).NoMissedExit := by
  apply h.mono
  · rintro p ⟨hstate, hchan⟩
    by_cases hp : p = q
    · subst hp
      rw [set_self] at hstate hchan
      exact hsleep hstate hchan
    · rw [set_of_ne t r hp] at hstate hchan
      exact ⟨hstate, hchan⟩
  rintro p z ⟨hstate, hparent⟩
  by_cases hz : z = q
  · subst hz
    rw [set_self] at hstate hparent
    obtain ⟨hz, hp⟩ := hzombie hstate
    exact ⟨hz, hp.symm.trans hparent⟩
  · rw [set_of_ne t r hz] at hstate hparent
    exact ⟨hstate, hparent⟩

lemma NoMissedExit.setByPid (pid : Int32) {f : Proc → Proc}
    (hf : ∀ r, (f r).state = r.state ∧ (f r).chan = r.chan ∧ (f r).parent = r.parent) :
    (Process.setByPid t pid f).NoMissedExit := by
  have hstate := setByPid_field Proc.state t pid fun r => (hf r).1
  have hchan := setByPid_field Proc.chan t pid fun r => (hf r).2.1
  have hparent := setByPid_field Proc.parent t pid fun r => (hf r).2.2
  apply h.mono
  · rintro p ⟨hs, hc⟩
    exact ⟨(hstate p).symm.trans hs, (hchan p).symm.trans hc⟩
  · rintro p z ⟨hs, hp⟩
    exact ⟨(hstate z).symm.trans hs, (hparent z).symm.trans hp⟩

lemma NoMissedExit.wakeup1 (chan : Chan) : (Process.wakeup1 t chan).NoMissedExit := by
  apply h.mono
  · rintro p ⟨hs, hc⟩
    rw [wakeup1_apply] at hs hc
    simp only [Proc.moved_state, Proc.moved_chan] at hs hc
    split at hs
    · cases hs
    · exact ⟨hs, hc⟩
  rintro p z ⟨hs, hp⟩
  rw [wakeup1_apply] at hs hp
  simp only [Proc.moved_state, Proc.moved_parent] at hs hp
  split at hs
  · cases hs
  · exact ⟨hs, hp⟩

variable {cur : Fin NPROC}

/-- `wait` goes to sleep when no child has exited. -/
lemma NoMissedExit.sleepWait
    (hnone : ∀ z, (t.proc z).parent = some cur → (t.proc z).state ≠ .zombie) :
    (sleep t cur (.proc cur)).NoMissedExit := by
  have hexit : ∀ p z, (sleep t cur (.proc cur)).ExitedChild p z → t.ExitedChild p z := by
    rintro p z ⟨hstate, hparent⟩
    by_cases hz : z = cur
    · subst hz
      simp [Process.sleep] at hstate
    · simp only [Process.sleep, set_of_ne t _ hz] at hstate hparent
      exact ⟨hstate, hparent⟩
  intro p z hp hz
  obtain ⟨hstate, hparent⟩ := hexit p z hz
  by_cases hcur : p = cur
  · exact hnone z (hcur ▸ hparent) hstate
  simp only [WaitsAsleep, Process.sleep, set_of_ne t _ hcur] at hp
  exact h p z hp ⟨hstate, hparent⟩

lemma NoMissedExit.exit (hself : (t.proc cur).parent ≠ some cur) :
    (Process.exit t cur).NoMissedExit := by
  rintro p z ⟨hsleep, hchan⟩ ⟨hzombie, hparent⟩
  rw [exit_apply] at hsleep hchan hzombie hparent
  simp only [Proc.moved_state, Proc.moved_chan, Proc.moved_parent] at hsleep hchan hzombie hparent
  -- the process slept before, and `exit` has not woken it
  have hp : t.WaitsAsleep p ∧ ¬ WokenByExit t cur p := by
    split at hsleep
    · cases hsleep
    split at hsleep
    · cases hsleep
    rename_i hwoken
    exact ⟨⟨hsleep, hchan⟩, hwoken⟩
  obtain ⟨⟨hsl, hch⟩, hnot⟩ := hp
  by_cases hz : z = cur
  · -- the process that exits: its parent has been woken
    subst hz
    rw [if_neg hself] at hparent
    refine hnot ⟨hsl, .inl ?_⟩
    rw [hch, parentChan, hparent]
  have hzt : (t.proc z).state = .zombie := by
    rw [if_neg hz] at hzombie
    split at hzombie
    · cases hzombie
    · exact hzombie
  split at hparent
  · -- a child of the process that exits: `initproc` has been woken
    rename_i hchild
    obtain rfl : t.initproc = p := Option.some.inj hparent
    exact hnot ⟨hsl, .inr ⟨hch, z, hchild, hzt⟩⟩
  · exact h p z ⟨hsl, hch⟩ ⟨hzt, hparent⟩

end
end PTable

lemma Moved.noMissedExit {s s' : Sys} {m : Move} (hm : Moved s m s') (hgood : s.Good)
    (h : s.table.NoMissedExit) : s'.table.NoMissedExit := by
  have hembryo : ∀ {p np b}, (s.pc p).link = some (np, b) → (s.table.proc np).state = .embryo := by
    intro p np b hlink
    exact ProcState.phase_eq_embryo.mp (hgood.tree.embryo p np b hlink)
  cases hm with
  | @fork p np now t hrun hpc halloc =>
    have hspec := allocproc_spec halloc
    rw [hspec.eq]
    exact h.set (by simp [Proc.allocated]) (by simp [Proc.allocated])
  | same | advance | exit | setFile | setCwd => exact h
  | forkFail hrun hpc | start hrun hpc | sleep hrun hpc | yield hrun | dispatch hidle hp =>
    exact h.set (by simp) (by simp)
  | @link p np ok hrun hpc =>
    have hnp : (s.table.proc np).state = .embryo := hembryo (by rw [hpc]; rfl)
    exact h.set (by simp [hnp]) (by simp [hnp])
  | dup hrun hpc =>
    unfold Sys.dupFile
    split <;> exact h
  | close hrun hpc =>
    unfold Sys.closeFile
    split <;> exact h
  | @leave p ok hrun hpc => exact h.exit (hgood.tree.noSelf p)
  | @wait p a hrun hpc =>
    have hreturn : (Process.sleepReturn s.table p).NoMissedExit :=
      h.set (by simp [hrun]) (by simp [hrun])
    unfold Sys.wait
    obtain ⟨z, -, -, hround⟩ | ⟨hnone, hround | hround⟩ :=
      waitRound_spec (Process.sleepReturn s.table p) p
    · rw [hround]
      exact hreturn.set (by simp [Proc.freed]) (by simp [Proc.freed])
    · rw [hround]
      exact hreturn
    · rw [hround]
      exact hreturn.sleepWait hnone
  | sleepReturn hrun hpc | exec hrun => exact h.set (by simp [hrun]) (by simp [hrun])
  | @kill p pid hrun =>
    unfold Sys.kill
    obtain ⟨q, -, hkill⟩ | ⟨-, hkill⟩ := kill_spec s.table pid
    · rw [hkill]
      refine h.set ?_ ?_
      · unfold Proc.hit
        dsimp only
        split
        · simp
        · exact fun hs hc => ⟨hs, hc⟩
      unfold Proc.hit
      dsimp only
      split
      · simp
      · exact fun hs => ⟨hs, rfl⟩
    · rw [hkill]
      exact h
  | changeLevel | setTicket | setPriority =>
    simp only [Sys.setTable_table, changeProcessLevel, setProcessTicket,
      setProcessRemainingPriority]
    exact h.setByPid _ fun _ => ⟨rfl, rfl, rfl⟩
  | wakeup => exact h.wakeup1 _

/-- `exit` and `wait` do not miss each other in any run. -/
theorem wait_misses_no_exit (s : Sys) (h : Sys.Reached (fun _ _ => True) s) (p z : Fin NPROC)
    (hsleep : (s.table.proc p).state = .sleeping) (hchan : (s.table.proc p).chan = .proc p)
    (hparent : (s.table.proc z).parent = some p) : (s.table.proc z).state ≠ .zombie := by
  have hinv : s.table.NoMissedExit := by
    refine h.invariant (I := fun s => s.table.NoMissedExit) ?_ ?_
    · rintro now s hfresh q _ ⟨hstate, -⟩ -
      by_cases hq : q = s.table.initproc <;> simp [hfresh.proc, hq] at hstate
    · exact fun s s' m hgood _ hm hs => hm.noMissedExit hgood hs
  exact fun hzombie => hinv p z ⟨hsleep, hchan⟩ ⟨hzombie, hparent⟩

/-- `initproc` forks and waits. -/
def forkWait : List Move :=
  [.dispatch 0 0, .run 0 (.fork 0)] ++ List.replicate 21 (.run 0 (.next true)) ++ [.run 0 .wait]

theorem forkWait_misses_no_exit : ∃ s, Sys.Reached (fun _ _ => True) s ∧
    (s.table.proc 0).state = .sleeping ∧ (s.table.proc 0).chan = .proc 0 ∧
    (s.table.proc 1).parent = some 0 ∧ (s.table.proc 1).state ≠ .zombie := by
  obtain ⟨s, hreach, hsleep, hchan, hparent⟩ := Sys.exists_reached (fun _ _ => True) 0 0 forkWait
    (fun s => (s.table.proc 0).state = .sleeping ∧ (s.table.proc 0).chan = .proc 0 ∧
      (s.table.proc 1).parent = some 0) (by decide +kernel)
  exact ⟨s, hreach, hsleep, hchan, hparent, wait_misses_no_exit s hreach 0 1 hsleep hchan hparent⟩

end Xv6.Process
