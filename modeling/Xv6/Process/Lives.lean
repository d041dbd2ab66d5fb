import Mathlib.Data.List.Nodup
import Xv6.Process.Kinship

/-!
# The lives of processes

What holds of the table, the CPUs and the files in every state that the machine
reaches, from `fork` to `exit` and `wait`.
-/

namespace Xv6.Process
open Lib Function

/-- A process that runs has a CPU. -/
def Sys.OnCpu (s : Sys) : Prop := ∀ p, (s.table.proc p).state = .running → ∃ c, s.cpu c = some p

/-- What one slot holds, by the place of its process in `exit`. -/
structure Sys.TidyAt (s : Sys) (q : Fin NPROC) : Prop where
  working : s.pc q ≠ .idle → s.family.phase q = .alive
  stays : s.pc q = .leaving ∨ (∃ fd, s.pc q = .closing fd) → q ≠ s.table.initproc
  closing : ∀ fd, s.pc q = .closing fd → ∀ i : Fin Fs.NOFILE, i.val < fd → s.ofile q i = none
  gone : s.pc q = .leaving ∨ s.family.phase q = .zombie → (∀ i, s.ofile q i = none) ∧ s.cwd q = none

/-- A slot that a step leaves alone. -/
structure SameAt (s s' : Sys) (q : Fin NPROC) : Prop where
  phase : s'.family.phase q = s.family.phase q
  pc : s'.pc q = s.pc q
  ofile : s'.ofile q = s.ofile q
  cwd : s'.cwd q = s.cwd q

namespace Sys.TidyAt

variable {s s' : Sys} {q : Fin NPROC}

lemma congr (h : s.TidyAt q) (hinit : s'.table.initproc = s.table.initproc)
    (hsame : SameAt s s' q) : s'.TidyAt q where
  working := by
    rw [hsame.pc, hsame.phase]
    exact h.working
  stays := by
    rw [hsame.pc, hinit]
    exact h.stays
  closing := by
    rw [hsame.pc, hsame.ofile]
    exact h.closing
  gone := by
    rw [hsame.pc, hsame.phase, hsame.ofile, hsame.cwd]
    exact h.gone

/-- A slot whose process is not in a call and has not exited. -/
lemma of_idle (hpc : s.pc q = .idle) (hphase : s.family.phase q ≠ .zombie) : s.TidyAt q where
  working h := absurd hpc h
  stays h := by simp [hpc] at h
  closing fd h := by simp [hpc] at h
  gone h := by simp only [hpc, hphase, or_self, reduceCtorEq] at h

lemma of_alive (hphase : s.family.phase q = .alive) (hleaving : s.pc q ≠ .leaving)
    (hclosing : ∀ fd, s.pc q ≠ .closing fd) : s.TidyAt q where
  working _ := hphase
  stays h := h.elim (fun h => absurd h hleaving) fun ⟨fd, h⟩ => absurd h (hclosing fd)
  closing fd h := absurd h (hclosing fd)
  gone h := h.elim (fun h => absurd h hleaving) fun h => absurd (hphase.symm.trans h) nofun

/-- A slot that is not in use has no process in a call. -/
lemma idle (h : s.TidyAt q) (hphase : s.family.phase q ≠ .alive) : s.pc q = .idle := by
  by_contra hpc
  exact hphase (h.working hpc)

end Sys.TidyAt

def Sys.Tidy (s : Sys) : Prop := ∀ q, s.TidyAt q

variable {p : Fin NPROC} {m : Move} {ok : Sys → Move → Prop} {st : ProcState}
variable {s : Sys}

lemma phase_running (h : (s.table.proc p).state = .running) : s.family.phase p = .alive := by
  rw [Sys.family_phase, h]
  rfl

lemma phase_running_ne (h : (s.table.proc p).state = .running) : s.family.phase p ≠ .zombie := by
  rw [phase_running h]
  nofun

namespace Sys.Tidy

variable {s s' : Sys}

lemma of_two (h : s.Tidy) (p np : Fin NPROC) (hinit : s'.table.initproc = s.table.initproc)
    (hp : s'.TidyAt p) (hnp : s'.TidyAt np)
    (hother : ∀ q, q ≠ p → q ≠ np → SameAt s s' q) : s'.Tidy := by
  intro q
  by_cases hq : q = p
  · exact hq ▸ hp
  by_cases hqnp : q = np
  · exact hqnp ▸ hnp
  · exact (h q).congr hinit (hother q hq hqnp)

/-- A step that no parent sees and that moves no process to another place. -/
lemma of_kin (h : s.Tidy) (ht : SameKin s.table s'.table) (hpc : s'.pc = s.pc := by rfl)
    (hofile : s'.ofile = s.ofile := by rfl) (hcwd : s'.cwd = s.cwd := by rfl) : s'.Tidy :=
  fun q => (h q).congr ht.initproc ⟨ht.phase q, congrFun hpc q, congrFun hofile q, congrFun hcwd q⟩

lemma of_move (h : s.Tidy) {p : Fin NPROC} {pc : Pc} (ht : SameKin s.table s'.table)
    (hpc : s'.pc = update s.pc p pc) (hp : s'.TidyAt p)
    (hofile : ∀ q ≠ p, s'.ofile q = s.ofile q := by exact fun _ _ => rfl)
    (hcwd : ∀ q ≠ p, s'.cwd q = s.cwd q := by exact fun _ _ => rfl) : s'.Tidy := by
  refine h.of_two p p ht.initproc hp hp fun q hq _ => ⟨ht.phase q, ?_, hofile q hq, hcwd q hq⟩
  rw [hpc, update_of_ne hq]

/-- A process goes on inside of `fork` or `wait`, or returns. A slot in which no process is at
work may change. -/
lemma of_child (h : s.Tidy) {p np : Fin NPROC} {pc : Pc} (hp : s.family.phase p = .alive)
    (hidle : s.pc np = .idle) (hne : np ≠ p) (hinit : s'.table.initproc = s.table.initproc)
    (hpc : s'.pc = update s.pc p pc) (hplace : pc ≠ .leaving ∧ ∀ fd, pc ≠ .closing fd)
    {x : Phase} (hx : x ≠ .zombie) (hphase : s'.family.phase = update s.family.phase np x)
    (hofile : ∀ q ≠ np, s'.ofile q = s.ofile q := by exact fun _ _ => rfl)
    (hcwd : ∀ q ≠ np, s'.cwd q = s.cwd q := by exact fun _ _ => rfl) : s'.Tidy := by
  have hself : s'.pc p = pc := by rw [hpc, update_self]
  have hsame : ∀ q ≠ np, s'.family.phase q = s.family.phase q := fun q hq => by
    rw [hphase, update_of_ne hq]
  rw [← hself] at hplace
  refine h.of_two p np hinit (.of_alive ((hsame p hne.symm).trans hp) hplace.1 hplace.2)
    (.of_idle ?_ ?_) fun q hq hqnp => ⟨hsame q hqnp, ?_, hofile q hqnp, hcwd q hqnp⟩
  · rw [hpc, update_of_ne hne, hidle]
  · rwa [hphase, update_self]
  · rw [hpc, update_of_ne hq]

end Sys.Tidy

variable {s s' : Sys}

/-- Every move keeps what the slots hold. -/
lemma Moved.tidy (hm : Moved s m s') (h : s.Tidy) (htree : s.family.Tree) : s'.Tidy := by
  -- a slot with an embryo is not the one that runs, and no process is at work in it
  have hchild : ∀ {p} np b, (s.table.proc p).state = .running → (s.pc p).link = some (np, b) →
      s.family.phase np = .embryo ∧ s.pc np = .idle ∧ np ≠ p := by
    intro p np b hrun hlink
    have hembryo := htree.embryo p np b hlink
    refine ⟨hembryo, (h np).idle (by rw [hembryo]; nofun), ?_⟩
    rintro rfl
    exact absurd ((phase_running hrun).symm.trans hembryo) nofun
  cases hm with
  | @fork p np now t hrun hpc halloc =>
    have hspec := allocproc_spec halloc
    have hfree : s.family.phase np = .free := by
      rw [Sys.family_phase, hspec.unused]
      rfl
    have hne : np ≠ p := by
      rintro rfl
      exact absurd ((phase_running hrun).symm.trans hfree) nofun
    exact h.of_child (phase_running hrun) ((h np).idle (by rw [hfree]; nofun)) hne hspec.initproc
      rfl ⟨nofun, nofun⟩ (x := .embryo) nofun (congrArg Family.phase (family_fork hspec))
  | same => exact h
  | @forkFail p np hrun hpc =>
    have hlink : (s.pc p).link = some (np, false) := by
      obtain hp | hp := hpc <;> rw [hp] <;> rfl
    obtain ⟨-, hidle, hne⟩ := hchild np false hrun hlink
    exact h.of_child (phase_running hrun) hidle hne rfl rfl ⟨nofun, nofun⟩ (x := .free) nofun
      (congrArg Family.phase family_forkFail)
  | @advance p np ok pc hrun hpc =>
    have hp : (s.setPc p pc).TidyAt p := by
      obtain ⟨-, rfl⟩ | ⟨-, rfl⟩ := hpc
      · exact .of_alive (phase_running hrun) (by simp) (by simp)
      · exact .of_alive (phase_running hrun) (by simp) (by simp)
    exact h.of_move SameKin.rfl rfl hp
  | @link p np ok hrun hpc =>
    obtain ⟨hembryo, hidle, hne⟩ := hchild np false hrun (by rw [hpc]; rfl)
    exact h.of_child (phase_running hrun) hidle hne rfl rfl ⟨nofun, nofun⟩
      (ne_of_eq_of_ne hembryo nofun) (by rw [family_link, update_eq_self]; rfl)
  | @dup p np fd ok hrun hpc =>
    obtain ⟨hembryo, hidle, hne⟩ := hchild np true hrun (by rw [hpc]; rfl)
    have hnp : s.family.phase np ≠ .zombie := ne_of_eq_of_ne hembryo nofun
    unfold Sys.dupFile
    split
    · exact h.of_child (phase_running hrun) hidle hne rfl rfl ⟨nofun, nofun⟩ hnp
        (update_eq_self ..).symm fun q hq => update_of_ne hq ..
    · exact h.of_child (phase_running hrun) hidle hne rfl rfl ⟨nofun, nofun⟩ hnp
        (update_eq_self ..).symm (fun _ _ => rfl) fun q hq => by simp [hq]
  | @start p np ok hrun hpc =>
    obtain ⟨-, hidle, hne⟩ := hchild np true hrun (by rw [hpc]; rfl)
    exact h.of_child (phase_running hrun) hidle hne rfl rfl ⟨nofun, nofun⟩ (x := .alive) nofun
      (congrArg Family.phase family_start)
  | @exit p hrun hpc hinit =>
    refine h.of_move SameKin.rfl rfl ?_
    constructor
    · exact fun _ => phase_running hrun
    · exact fun _ => hinit
    · simp
    · intro hgone
      simp [hrun, ProcState.phase] at hgone
  | @close p fd ok hrun hpc =>
    unfold Sys.closeFile
    split
    · rename_i hfd
      refine h.of_move SameKin.rfl rfl ?_ fun q hq => update_of_ne hq ..
      constructor
      · exact fun _ => phase_running hrun
      · exact fun _ => (h p).stays (.inr ⟨fd, hpc⟩)
      · intro fd' hfd' i hi
        obtain rfl : fd + 1 = fd' := by simpa using hfd'
        by_cases hlast : i = ⟨fd, hfd⟩
        · simp [hlast]
        have hlt : i.val < fd := by
          have hne : i.val ≠ fd := fun he => hlast (Fin.ext he)
          omega
        simpa [hlast] using (h p).closing fd hpc i hlt
      · intro hgone
        simp [hrun, ProcState.phase] at hgone
    rename_i hfd
    refine h.of_move SameKin.rfl rfl ?_ (fun _ _ => rfl) (fun q hq => by simp [hq])
    constructor
    · exact fun _ => phase_running hrun
    · exact fun _ => (h p).stays (.inr ⟨fd, hpc⟩)
    · simp
    · refine fun _ => ⟨fun i => (h p).closing fd hpc i ?_, by simp⟩
      exact lt_of_lt_of_le i.isLt (not_lt.mp hfd)
  | @leave p ok hrun hpc =>
    have hfamily := family_exit (by rw [hpc]; rfl)
    have hp : (s.exit p).TidyAt p := by
      constructor
      · intro hwork
        simp [Sys.exit] at hwork
      · intro hleave
        simp [Sys.exit] at hleave
      · intro fd hclose
        simp [Sys.exit] at hclose
      · exact fun _ => (h p).gone (.inl hpc)
    refine h.of_two p p (exit_initproc s.table p) hp hp fun q hq _ => ?_
    refine ⟨?_, by simp [Sys.exit, hq], rfl, rfl⟩
    rw [hfamily]
    simp [hq]
  | @wait p a hrun hpc =>
    have hlink : (s.pc p).link = none := by
      obtain ⟨hp, -⟩ | hp := hpc <;> rw [hp] <;> rfl
    have hkin : SameKin s.table (Process.sleepReturn s.table p) := .sleepReturn p
    have hrun' : ((Process.sleepReturn s.table p).proc p).state = .running := by
      simp [Process.sleepReturn, hrun]
    unfold Sys.wait
    obtain ⟨z, hparent, hzombie, hround⟩ | ⟨-, hround | hround⟩ :=
      waitRound_spec (Process.sleepReturn s.table p) p
    · rw [hround]
      dsimp only
      have hne : z ≠ p := by
        rintro rfl
        rw [hrun'] at hzombie
        cases hzombie
      have hzphase : s.family.phase z = .zombie := by
        rw [Sys.family_phase, ← hkin.phase, hzombie]
        rfl
      exact h.of_child (phase_running hrun) ((h z).idle (by rw [hzphase]; decide)) hne
        hkin.initproc rfl ⟨nofun, nofun⟩ (x := .free) nofun
        (congrArg Family.phase (family_freed hkin hlink))
    · rw [hround]
      refine h.of_move hkin rfl (.of_idle ?_ ?_)
      · simp
      · exact phase_running_ne hrun'
    rw [hround]
    have hkin' := hkin.trans (.sleep hrun' (.proc p))
    refine h.of_move hkin' rfl (.of_alive ?_ ?_ ?_)
    · exact (hkin'.phase p).trans (phase_running hrun)
    · simp
    · simp
  | sleepReturn => exact h.of_kin (.sleepReturn _)
  | sleep hrun hpc => exact h.of_kin (.sleep hrun _)
  | yield hrun => exact h.of_kin (.yield hrun)
  | kill => exact h.of_kin (.kill _)
  | exec => exact h.of_kin (.exec _)
  | changeLevel => exact h.of_kin (.changeProcessLevel _ _)
  | setTicket => exact h.of_kin (.setProcessTicket _ _)
  | setPriority => exact h.of_kin (.setProcessRemainingPriority _ _)
  | @setFile p fd f hrun hpc =>
    exact h.of_move SameKin.rfl (update_eq_self ..).symm (.of_idle hpc (phase_running_ne hrun))
      fun q hq => update_of_ne hq ..
  | @setCwd p i hrun hpc =>
    exact h.of_move SameKin.rfl (update_eq_self ..).symm (.of_idle hpc (phase_running_ne hrun))
      (fun _ _ => rfl) fun q hq => update_of_ne hq ..
  | dispatch hidle hp => exact h.of_kin (.dispatch hp)
  | wakeup => exact h.of_kin (.wakeup1 _)

/-- What a move does to the CPUs: nothing, or a process gives up its own, or one that does not
run gets an idle one. -/
inductive Sys.Switch (s s' : Sys) : Prop
  | keep (hcpu : s'.cpu = s.cpu)
      (hrun : ∀ q, (s'.table.proc q).state = .running ↔ (s.table.proc q).state = .running)
  | off (p : Fin NPROC) (hcpu : s'.cpu = (s.leaveCpu p).cpu)
      (hrun : ∀ q, (s'.table.proc q).state = .running ↔ q ≠ p ∧ (s.table.proc q).state = .running)
  | take (c : Fin NCPU) (p : Fin NPROC) (hidle : s.cpu c = none)
      (hp : (s.table.proc p).state ≠ .running) (hcpu : s'.cpu = update s.cpu c (some p))
      (hrun : ∀ q, (s'.table.proc q).state = .running ↔ q = p ∨ (s.table.proc q).state = .running)

lemma PTable.set_running_iff {t : PTable} {r : Proc}
    (hr : r.state = .running ↔ (t.proc p).state = .running) (q : Fin NPROC) :
    ((t.set p r).proc q).state = .running ↔ (t.proc q).state = .running := by
  by_cases hqp : q = p
  · subst hqp
    simpa using hr
  · simp [hqp]

lemma ProcState.phase_eq_embryo : st.phase = .embryo ↔ st = .embryo := by
  cases st <;> simp [phase]

lemma Moved.switch (hm : Moved s m s') (htree : s.family.Tree) : s.Switch s' := by
  -- a child in `fork` does not run yet
  have hembryo : ∀ p np b, (s.pc p).link = some (np, b) → (s.table.proc np).state = .embryo :=
    fun p np b hlink => ProcState.phase_eq_embryo.mp (htree.embryo p np b hlink)
  have hreturn : ∀ p q, ((Process.sleepReturn s.table p).proc q).state = .running ↔
      (s.table.proc q).state = .running := fun p => PTable.set_running_iff Iff.rfl
  cases hm with
  | @fork p np now t hrun hpc halloc =>
    have hspec := allocproc_spec halloc
    refine .keep rfl fun q => ?_
    by_cases hq : q = np
    · simp [hq, hspec.unused, hspec.proc, Proc.allocated]
    · simp [hspec.other q hq]
  | same | advance | exit | setFile | setCwd => exact .keep rfl fun _ => Iff.rfl
  | @forkFail p np hrun hpc =>
    have hnp := hembryo p np false (by obtain hp | hp := hpc <;> rw [hp] <;> rfl)
    exact .keep rfl (PTable.set_running_iff (by simp [hnp]))
  | @start p np ok hrun hpc =>
    have hnp := hembryo p np true (by rw [hpc]; rfl)
    exact .keep rfl (PTable.set_running_iff (by simp [hnp]))
  | link | sleepReturn | exec => exact .keep rfl (PTable.set_running_iff Iff.rfl)
  | dup =>
    unfold Sys.dupFile
    split <;> exact .keep rfl fun _ => Iff.rfl
  | close =>
    unfold Sys.closeFile
    split <;> exact .keep rfl fun _ => Iff.rfl
  | @leave p ok hrun hpc =>
    refine .off p rfl fun q => ?_
    rw [Sys.exit_table, exit_apply, Proc.moved_state]
    split
    · simp [*]
    split
    · rename_i hwoken
      simp [hwoken.1]
    · simp [*]
  | @wait p a hrun hpc =>
    unfold Sys.wait
    obtain ⟨z, -, hzombie, hround⟩ | ⟨-, hround | hround⟩ :=
      waitRound_spec (Process.sleepReturn s.table p) p
    · rw [hround]
      refine .keep rfl fun q => (PTable.set_running_iff ?_ q).trans (hreturn p q)
      simp [Proc.freed, hzombie]
    · rw [hround]
      exact .keep rfl (hreturn p)
    rw [hround]
    refine .off p rfl fun q => ?_
    by_cases hq : q = p <;> simp [Process.sleep, hq, hreturn]
  | @sleep p | @yield p =>
    refine .off p rfl fun q => ?_
    by_cases hq : q = p <;> simp [Process.sleep, Process.yield, hq]
  | @kill p pid hrun =>
    unfold Sys.kill
    obtain ⟨z, -, hkill⟩ | ⟨-, hkill⟩ := kill_spec s.table pid
    · rw [hkill]
      refine .keep rfl (PTable.set_running_iff ?_)
      unfold Proc.hit
      dsimp only
      split <;> simp [*]
    · rw [hkill]
      exact .keep rfl fun _ => Iff.rfl
  | changeLevel | setTicket | setPriority => exact .keep rfl (by simp)
  | @dispatch c p hidle hp =>
    refine .take c p hidle (by simp [hp]) rfl fun q => ?_
    by_cases hq : q = p <;> simp [Process.dispatch, hq]
  | wakeup =>
    refine .keep rfl fun q => ?_
    rw [Sys.setTable_table, wakeup1_apply, Proc.moved_state]
    split
    · rename_i hsleep
      simp [hsleep.1]
    · rfl

/-- A process that runs has a CPU after every move. -/
lemma Sys.Switch.onCpu (h : s.Switch s') (hs : s.OnCpu) : s'.OnCpu := by
  intro q hq
  cases h with
  | keep hcpu hrun =>
    rw [hcpu]
    exact hs q ((hrun q).mp hq)
  | off p hcpu hrun =>
    obtain ⟨hne, hq⟩ := (hrun q).mp hq
    obtain ⟨c, hc⟩ := hs q hq
    exact ⟨c, by simp [hcpu, hc, hne]⟩
  | take c p hidle hp hcpu hrun =>
    rw [hcpu]
    obtain rfl | hq := (hrun q).mp hq
    · exact ⟨c, update_self ..⟩
    obtain ⟨c', hc'⟩ := hs q hq
    have hne : c' ≠ c := by
      rintro rfl
      simp [hidle] at hc'
    exact ⟨c', by rwa [update_of_ne hne]⟩

/-- Everything that holds between two moves. -/
structure Sys.Good (s : Sys) : Prop where
  tree : s.family.Tree
  ledger : s.family.Ledger
  tidy : s.Tidy
  onCpu : s.OnCpu

lemma Moved.good (hm : Moved s m s') (h : s.Good) : s'.Good := by
  have hstep := hm.family_step fun p hp => (h.tidy p).stays (.inl hp)
  exact ⟨h.tree.step hstep, h.ledger.step h.tree hstep, hm.tidy h.tidy h.tree,
    (hm.switch h.tree).onCpu h.onCpu⟩

/-- The machine behind `userinit`: `initproc` is `RUNNABLE` with pid one, and all other slots
are as the image has them. -/
structure Sys.Fresh (now : UInt32) (s : Sys) : Prop where
  proc : ∀ q, s.table.proc q =
    if q = s.table.initproc then (({} : Proc).allocated now 1).moved none .runnable else {}
  nextpid : s.table.nextpid = 2
  pc : ∀ q, s.pc q = .idle
  called : ∀ q, s.called q = false
  exited : s.exited = []
  waited : s.waited = []

lemma Sys.init_fresh {now : UInt32} {root : ℕ} (h : Sys.init now root = some s) :
    s.Fresh now := by
  unfold Sys.init at h
  split at h
  · cases h
  rename_i p t halloc
  have hspec := allocproc_spec halloc
  cases h
  refine ⟨fun q => ?_, hspec.nextpid, fun _ => rfl, fun _ => rfl, rfl, rfl⟩
  have hinit : (userinitCommit t p).initproc = p := rfl
  by_cases hq : q = p
  · subst hq
    simp only [hinit, if_true]
    simp [userinitCommit, hspec.proc]
    rfl
  simp only [hinit, hq, if_false]
  simp [userinitCommit, hq, hspec.other q hq]
  rfl

lemma Sys.Fresh.good {now : UInt32} (h : s.Fresh now) : s.Good := by
  have hphase : ∀ q, s.family.phase q = if q = s.family.init then .alive else .free := by
    intro q
    by_cases hq : q = s.table.initproc <;> simp [h.proc, hq, ProcState.phase]
  have hparent : ∀ q, (s.table.proc q).parent = none := by
    intro q
    by_cases hq : q = s.table.initproc <;> simp [h.proc, hq]
  have hpid : ∀ q, s.family.pid q = if q = s.family.init then 1 else 0 := by
    intro q
    by_cases hq : q = s.table.initproc <;> simp [h.proc, hq, Proc.moved, Proc.allocated]
  constructor
  · exact .start hphase hparent fun q => by simp [h.pc]
  · exact .start hphase hpid (by simp [h.nextpid]) (by simp [h.exited]) (by simp [h.waited])
  · intro q
    refine .of_idle (h.pc q) ?_
    rw [hphase]
    split <;> decide
  · intro q hq
    by_cases hinit : q = s.table.initproc <;> simp [h.proc, hinit] at hq

lemma Sys.Good.reached (h : Sys.Reached ok s) : s.Good := by
  obtain ⟨now, root, s₀, hinit, hreach⟩ := h
  exact hreach.invariant (fun _ _ _ hs _ hstep => (Moved.of_step hstep).good hs)
    (Sys.init_fresh hinit).good

/-- What holds behind `userinit` and is kept by the moves holds in every state. -/
lemma Sys.Reached.invariant {ok : Sys → Move → Prop} {I : Sys → Prop}
    (hfresh : ∀ now s, Sys.Fresh now s → I s)
    (hmove : ∀ s s' m, s.Good → ok s m → Moved s m s' → I s → I s') (h : Sys.Reached ok s) :
    I s := by
  obtain ⟨now, root, s₀, hinit, hreach⟩ := h
  have hstart := Sys.init_fresh hinit
  have hinv : s.Good ∧ I s := by
    refine hreach.invariant (I := fun s => s.Good ∧ I s) ?_ ⟨hstart.good, hfresh now s₀ hstart⟩
    intro s s' m hs hok hstep
    have hm := Moved.of_step hstep
    exact ⟨hm.good hs.1, hmove s s' m hs.1 hok hm hs.2⟩
  exact hinv.2

/-- The state is neither `UNUSED`, `EMBRYO` nor `ZOMBIE`. -/
def ProcState.Living (st : ProcState) : Prop := st ≠ .unused ∧ st ≠ .embryo ∧ st ≠ .zombie

lemma ProcState.phase_eq_alive : st.phase = .alive ↔ st.Living := by
  cases st <;> simp [phase, Living]

lemma ProcState.phase_eq_zombie : st.phase = .zombie ↔ st = .zombie := by
  cases st <;> simp [phase]

lemma ProcState.phase_eq_free : st.phase = .free ↔ st = .unused := by
  cases st <;> simp [phase]

/-- The table, the CPUs and the files between two moves. -/
structure Sys.Orderly (s : Sys) : Prop where
  pid_pos : ∀ p, (s.table.proc p).state ≠ .unused → 0 < (s.table.proc p).pid
  pid_inj : ∀ p q, (s.table.proc p).state ≠ .unused → (s.table.proc q).state ≠ .unused →
    (s.table.proc p).pid = (s.table.proc q).pid → p = q
  running : ∀ p, (s.table.proc p).state = .running → ∃ c, s.cpu c = some p
  parent : ∀ p, (s.table.proc p).state ≠ .unused → (s.table.proc p).state ≠ .embryo →
    p ≠ s.table.initproc →
    ∃ q, (s.table.proc p).parent = some q ∧ (s.table.proc q).state.Living
  zombie : ∀ z, (s.table.proc z).state = .zombie → (∀ fd, s.ofile z fd = none) ∧ s.cwd z = none
  /-- The pid of an exited process is in the table until it has been returned once. -/
  exited : ∀ pid, pid ∈ s.exited ↔
    (∃ z, (s.table.proc z).state = .zombie ∧ (s.table.proc z).pid = pid) ∧
        (s.waited.map Prod.snd).count pid = 0 ∨
      (s.waited.map Prod.snd).count pid = 1

/-- What a move does to a process that has exited. -/
inductive Sys.ZombieKept (s s' : Sys) (z : Fin NPROC) : Prop
  | same (hstate : (s'.table.proc z).state = .zombie)
      (hpid : (s'.table.proc z).pid = (s.table.proc z).pid)
      (hparent : (s'.table.proc z).parent = (s.table.proc z).parent)
  /-- The parent has exited too. -/
  | handed (p : Fin NPROC) (hp : (s.table.proc z).parent = some p)
      (hexit : (s'.table.proc p).state = .zombie) (hstate : (s'.table.proc z).state = .zombie)
      (hpid : (s'.table.proc z).pid = (s.table.proc z).pid)
      (hparent : (s'.table.proc z).parent = some s.table.initproc)
  /-- A call of `wait` by the parent has returned the pid. -/
  | reaped (p : Fin NPROC) (hp : (s.table.proc z).parent = some p)
      (hstate : (s'.table.proc z).state = .unused)
      (hwaited : s'.waited = s.waited ++ [(p, (s.table.proc z).pid)])

lemma toInt_injective : Function.Injective Int32.toInt := fun _ _ h => Int32.toInt_inj.mp h

lemma Sys.family_waited_snd (s : Sys) :
    s.family.waited.map Prod.snd = (s.waited.map Prod.snd).map Int32.toInt := by
  simp [Function.comp_def]

lemma Sys.Good.orderly (h : s.Good) : s.Orderly := by
  have hfree : ∀ {p}, (s.table.proc p).state ≠ .unused → s.family.phase p ≠ .free :=
    fun hp => mt ProcState.phase_eq_free.mp hp
  constructor
  · intro p hp
    exact Int32.lt_iff_toInt_lt.mpr (h.ledger.pos p (hfree hp))
  · intro p q hp _ hpid
    exact h.ledger.unique p q (congrArg Int32.toInt hpid) (h.ledger.pos p (hfree hp))
  · exact h.onCpu
  · intro p hp hembryo hinit
    have hphase : s.family.phase p = .alive ∨ s.family.phase p = .zombie := by
      by_cases hz : (s.table.proc p).state = .zombie
      · exact .inr (ProcState.phase_eq_zombie.mpr hz)
      · exact .inl (ProcState.phase_eq_alive.mpr ⟨hp, hembryo, hz⟩)
    obtain ⟨q, hq, hlive⟩ := h.tree.parent p hphase hinit
    exact ⟨q, hq, ProcState.phase_eq_alive.mp hlive⟩
  · intro z hz
    exact (h.tidy z).gone (.inr (ProcState.phase_eq_zombie.mpr hz))
  intro pid
  have hmem : pid.toInt ∈ s.family.exited ↔ pid ∈ s.exited :=
    List.mem_map_of_injective toInt_injective
  have hwaited : pid.toInt ∈ s.family.waited.map Prod.snd ↔ pid ∈ s.waited.map Prod.snd := by
    rw [Sys.family_waited_snd]
    exact List.mem_map_of_injective toInt_injective
  have hnodup : (s.waited.map Prod.snd).Nodup := by
    have hmap := h.ledger.waited_nodup
    rw [Sys.family_waited_snd] at hmap
    exact List.Nodup.of_map _ hmap
  constructor
  · intro hpid
    obtain ⟨z, hz, hzpid⟩ | hw := h.ledger.fate _ (hmem.mpr hpid)
    · have hnot := (h.ledger.zombie z hz).2
      rw [hzpid, hwaited] at hnot
      exact .inl ⟨⟨z, ProcState.phase_eq_zombie.mp hz, toInt_injective hzpid⟩,
        List.count_eq_zero_of_not_mem hnot⟩
    · exact .inr (List.count_eq_one_of_mem hnodup (hwaited.mp hw))
  rintro (⟨⟨z, hz, rfl⟩, -⟩ | hone)
  · exact hmem.mp (h.ledger.zombie z (ProcState.phase_eq_zombie.mpr hz)).1
  have hin : pid ∈ s.waited.map Prod.snd := List.count_pos_iff.mp (by omega)
  exact hmem.mp (h.ledger.waited_exited _ (hwaited.mpr hin))

lemma Moved.zombieKept (hm : Moved s m s') (h : s.Good) {z : Fin NPROC}
    (hz : (s.table.proc z).state = .zombie) : s.ZombieKept s' z := by
  have hstep := hm.family_step fun p hp => (h.tidy p).stays (.inl hp)
  cases hstep.kept h.tree (ProcState.phase_eq_zombie.mpr hz) with
  | same hphase hpid hparent =>
    exact .same (ProcState.phase_eq_zombie.mp hphase) (toInt_injective hpid) hparent
  | handed p hp hphase hpid hexit hparent =>
    exact .handed p hp (ProcState.phase_eq_zombie.mp hexit) (ProcState.phase_eq_zombie.mp hphase)
      (toInt_injective hpid) hparent
  | reaped p hp hphase hwaited =>
    refine .reaped p hp (ProcState.phase_eq_free.mp hphase) ?_
    have hmap : s'.waited.map (Prod.map id Int32.toInt) =
        (s.waited ++ [(p, (s.table.proc z).pid)]).map (Prod.map id Int32.toInt) := by
      simpa using hwaited
    exact (Function.injective_id.prodMap toInt_injective).list_map hmap

/-- The life of a process in every run, and what each move does to one that has exited. -/
theorem process_lifecycle (s : Sys) (h : Sys.Reached (fun _ _ => True) s) :
    s.Orderly ∧ ∀ m s', s.step m = some s' →
      ∀ z, (s.table.proc z).state = .zombie → s.ZombieKept s' z := by
  have hgood := Sys.Good.reached h
  exact ⟨hgood.orderly, fun m s' hstep z hz => (Moved.of_step hstep).zombieKept hgood hz⟩

/-- `initproc` forks, and the child exits. -/
def forkExit : List Move :=
  [.dispatch 0 0, .run 0 (.fork 0)] ++ List.replicate 21 (.run 0 (.next true)) ++
    [.run 0 .yield, .dispatch 0 1, .run 1 .exit] ++ List.replicate 18 (.run 1 (.next true))

theorem forkExit_lifecycle : ∃ s, Sys.Reached (fun _ _ => True) s ∧
    (s.table.proc 1).state = .zombie ∧ s.Orderly ∧ ∀ m s', s.step m = some s' →
      ∀ z, (s.table.proc z).state = .zombie → s.ZombieKept s' z := by
  obtain ⟨s, hreach, hzombie⟩ := Sys.exists_reached (fun _ _ => True) 0 0 forkExit
    (fun s => (s.table.proc 1).state = .zombie) (by decide +kernel)
  exact ⟨s, hreach, hzombie, process_lifecycle s hreach⟩

/-- The CPUs have processes that run, and no two have the same one. -/
structure Sys.CpusApart (s : Sys) : Prop where
  running : ∀ c p, s.cpu c = some p → (s.table.proc p).state = .running
  one : ∀ c c' p, s.cpu c = some p → s.cpu c' = some p → c = c'

lemma Sys.Switch.cpusApart (h : s.Switch s') (hs : s.CpusApart) : s'.CpusApart := by
  cases h with
  | keep hcpu hrun => exact ⟨by simpa [hcpu, hrun] using hs.running, by simpa [hcpu] using hs.one⟩
  | off p hcpu hrun =>
    have hleft : ∀ {c q}, s'.cpu c = some q → s.cpu c = some q ∧ q ≠ p := by
      intro c q hc
      rw [hcpu, Sys.leaveCpu_cpu] at hc
      grind
    exact ⟨fun c q hc => (hrun q).mpr ⟨(hleft hc).2, hs.running c q (hleft hc).1⟩,
      fun c c' q hc hc' => hs.one c c' q (hleft hc).1 (hleft hc').1⟩
  | take c₀ p hidle hp hcpu hrun =>
    -- no other CPU has the process, since it did not run
    have hother : ∀ c, s.cpu c ≠ some p := fun c hc => hp (hs.running c p hc)
    have hgot : ∀ {c q}, s'.cpu c = some q → c = c₀ ∧ q = p ∨ q ≠ p ∧ s.cpu c = some q := by
      intro c q hc
      rw [hcpu, update_apply] at hc
      grind
    refine ⟨fun c q hc => (hrun q).mpr ?_, fun c c' q hc hc' => ?_⟩
    · exact (hgot hc).imp And.right fun h => hs.running c q h.2
    have := hs.one c c' q
    grind

/-- Whatever the processes and the schedulers of the CPUs do in turn, the processes that run are
those that the CPUs have, each on one of them. -/
theorem cpus_apart (s : Sys) (h : Sys.Reached (fun _ _ => True) s) : s.CpusApart ∧
    ∀ p, (s.table.proc p).state = .running ↔ ∃! c, s.cpu c = some p := by
  obtain ⟨now, root, s₀, hinit, hreach⟩ := h
  have hgood : s.Good ∧ s.CpusApart := by
    refine hreach.invariant (I := fun s => s.Good ∧ s.CpusApart) ?_ ?_
    · intro s s' m hs _ hstep
      have hm := Moved.of_step hstep
      exact ⟨hm.good hs.1, (hm.switch hs.1.tree).cpusApart hs.2⟩
    · refine ⟨(Sys.init_fresh hinit).good, ?_⟩
      unfold Sys.init at hinit
      split at hinit
      · cases hinit
      · cases hinit
        exact ⟨by simp, by simp⟩
  refine ⟨hgood.2, fun p => ⟨fun hp => ?_, ?_⟩⟩
  · obtain ⟨c, hc⟩ := hgood.1.onCpu p hp
    exact ⟨c, hc, fun c' hc' => hgood.2.one c' c p hc' hc⟩
  · rintro ⟨c, hc, -⟩
    exact hgood.2.running c p hc

theorem forkExit_cpus_apart : ∃ s, Sys.Reached (fun _ _ => True) s ∧
    (s.table.proc 0).state = .running ∧ ∃! c, s.cpu c = some 0 := by
  obtain ⟨s, hreach, hrun⟩ := Sys.exists_reached (fun _ _ => True) 0 0 (forkExit.take 9)
    (fun s => (s.table.proc 0).state = .running) (by decide +kernel)
  exact ⟨s, hreach, hrun, ((cpus_apart s hreach).2 0).mp hrun⟩

/-- No pid is given out twice: a new process gets one above those of all processes there are, and
no process that has exited had it. -/
theorem pids_fresh (s : Sys) (h : Sys.Reached (fun _ _ => True) s) : s.exited.Nodup ∧
    ∀ now np t, allocproc s.table now = some (np, t) → (t.proc np).pid ∉ s.exited ∧
      ∀ q, (s.table.proc q).pid < (t.proc np).pid := by
  have hledger := (Sys.Good.reached h).ledger
  refine ⟨List.Nodup.of_map _ hledger.exited_nodup, fun now np t halloc => ?_⟩
  have hpid : (t.proc np).pid = s.table.nextpid := by
    simp [(allocproc_spec halloc).proc, Proc.allocated]
  rw [hpid]
  refine ⟨fun hmem => ?_, fun q => Int32.lt_iff_toInt_lt.mpr (hledger.lt q)⟩
  exact absurd (hledger.exited_lt _ (List.mem_map_of_mem hmem)).2 (lt_irrefl _)

theorem forkExit_pids_fresh : ∃ s, Sys.Reached (fun _ _ => True) s ∧ s.exited = [2] ∧
    s.exited.Nodup := by
  obtain ⟨s, hreach, hexited⟩ := Sys.exists_reached (fun _ _ => True) 0 0 forkExit
    (fun s => s.exited = [2]) (by decide +kernel)
  exact ⟨s, hreach, hexited, (pids_fresh s hreach).1⟩

end Xv6.Process
