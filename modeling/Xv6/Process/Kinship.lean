import Xv6.Process.Family
import Xv6.Process.Lifecycle

/-!
# The table as a family of processes

Every move of the machine is a step of the family that its table holds, or leaves
the family as it is.
-/

namespace Xv6.Process

/-- What a parent sees of the state. -/
def ProcState.phase : ProcState → Phase
  | .unused => .free
  | .embryo => .embryo
  | .sleeping => .alive
  | .runnable => .alive
  | .running => .alive
  | .zombie => .zombie

/-- The child of a call of `fork`, and whether the call has set its parent. -/
def Pc.link : Pc → Option (Fin NPROC × Bool)
  | .allocated np => some (np, false)
  | .stacked np => some (np, false)
  | .copied np => some (np, false)
  | .linked np _ => some (np, true)
  | .born np => some (np, true)
  | _ => none

@[simp] lemma Pc.link_idle : Pc.idle.link = none := rfl

@[simps]
def Sys.family (s : Sys) : Family (Fin NPROC) where
  phase q := (s.table.proc q).state.phase
  parent q := (s.table.proc q).parent
  pid q := (s.table.proc q).pid.toInt
  next := s.table.nextpid.toInt
  init := s.table.initproc
  child q := (s.pc q).link
  exited := s.exited.map Int32.toInt
  waited := s.waited.map (Prod.map id Int32.toInt)

/-- A change of the table that no parent sees. -/
structure SameKin (t t' : PTable) : Prop where
  phase : ∀ q, (t'.proc q).state.phase = (t.proc q).state.phase
  parent : ∀ q, (t'.proc q).parent = (t.proc q).parent
  pid : ∀ q, (t'.proc q).pid = (t.proc q).pid
  nextpid : t'.nextpid = t.nextpid
  initproc : t'.initproc = t.initproc

namespace SameKin

variable {t t' t'' : PTable}

protected lemma rfl : SameKin t t := ⟨fun _ => rfl, fun _ => rfl, fun _ => rfl, rfl, rfl⟩

protected lemma trans (h : SameKin t t') (h' : SameKin t' t'') : SameKin t t'' where
  phase q := (h'.phase q).trans (h.phase q)
  parent q := (h'.parent q).trans (h.parent q)
  pid q := (h'.pid q).trans (h.pid q)
  nextpid := h'.nextpid.trans h.nextpid
  initproc := h'.initproc.trans h.initproc

variable {p : Fin NPROC}

lemma set {r : Proc} (hphase : r.state.phase = (t.proc p).state.phase)
    (hparent : r.parent = (t.proc p).parent) (hpid : r.pid = (t.proc p).pid) :
    SameKin t (t.set p r) := by
  have hslot : ∀ q, ((t.set p r).proc q).state.phase = (t.proc q).state.phase ∧
      ((t.set p r).proc q).parent = (t.proc q).parent ∧
      ((t.set p r).proc q).pid = (t.proc q).pid := by
    intro q
    by_cases hq : q = p
    · subst hq
      rw [PTable.set_self]
      exact ⟨hphase, hparent, hpid⟩
    · rw [PTable.set_of_ne t r hq]
      exact ⟨rfl, rfl, rfl⟩
  exact ⟨fun q => (hslot q).1, fun q => (hslot q).2.1, fun q => (hslot q).2.2, rfl, rfl⟩

lemma setByPid (pid : Int32) {f : Proc → Proc}
    (hf : ∀ r, (f r).state = r.state ∧ (f r).parent = r.parent ∧ (f r).pid = r.pid) :
    SameKin t (Process.setByPid t pid f) where
  phase := setByPid_field (fun r => r.state.phase) t pid fun r => congrArg _ (hf r).1
  parent := setByPid_field Proc.parent t pid fun r => (hf r).2.1
  pid := setByPid_field Proc.pid t pid fun r => (hf r).2.2
  nextpid := rfl
  initproc := rfl

lemma wakeup1 (chan : Chan) : SameKin t (Process.wakeup1 t chan) := by
  constructor
  · intro q
    rw [wakeup1_apply, Proc.moved_state]
    split
    · rename_i h
      rw [h.1]
      rfl
    · rfl
  · intro q
    rw [wakeup1_parent]
  · intro q
    rw [wakeup1_apply]
    rfl
  · rfl
  · rfl

lemma kill (pid : Int32) : SameKin t (Process.kill t pid).2 := by
  obtain ⟨p, -, hkill⟩ | ⟨-, hkill⟩ := kill_spec t pid
  · rw [hkill]
    refine set ?_ rfl rfl
    unfold Proc.hit
    dsimp only
    split
    · rename_i h
      rw [h]
      rfl
    · rfl
  · rw [hkill]
    exact SameKin.rfl

lemma sleepReturn (p : Fin NPROC) : SameKin t (Process.sleepReturn t p) := set rfl rfl rfl

lemma sleep (h : (t.proc p).state = .running) (chan : Chan) :
    SameKin t (Process.sleep t p chan) := set (by rw [h]; rfl) rfl rfl

lemma yield (h : (t.proc p).state = .running) : SameKin t (yield t p) :=
  set (by rw [h]; rfl) rfl rfl

lemma exec (p : Fin NPROC) : SameKin t (execCommit t p) := set rfl rfl rfl

lemma dispatch (h : (t.proc p).state = .runnable) : SameKin t (dispatch t p) :=
  set (by rw [h]; rfl) rfl rfl

lemma changeProcessLevel (pid level : Int32) : SameKin t (changeProcessLevel t pid level) :=
  setByPid pid fun _ => ⟨rfl, rfl, rfl⟩

lemma setProcessTicket (pid ticket : Int32) : SameKin t (setProcessTicket t pid ticket) :=
  setByPid pid fun _ => ⟨rfl, rfl, rfl⟩

lemma setProcessRemainingPriority (pid priority : Int32) :
    SameKin t (setProcessRemainingPriority t pid priority) := setByPid pid fun _ => ⟨rfl, rfl, rfl⟩

end SameKin

lemma Sys.family_eq {s s' : Sys} (ht : SameKin s.table s'.table)
    (hpc : ∀ q, (s'.pc q).link = (s.pc q).link) (hexited : s'.exited = s.exited)
    (hwaited : s'.waited = s.waited) : s'.family = s.family := by
  ext1
  · funext q
    exact ht.phase q
  · funext q
    exact ht.parent q
  · funext q
    exact congrArg Int32.toInt (ht.pid q)
  · exact congrArg Int32.toInt ht.nextpid
  · exact ht.initproc
  · funext q
    exact hpc q
  · exact congrArg (List.map Int32.toInt) hexited
  · exact congrArg (List.map (Prod.map id Int32.toInt)) hwaited

lemma toInt_add_one {x : Int32} (h : x ≠ Int32.maxValue) : (x + 1).toInt = x.toInt + 1 := by
  have hne : x.toInt ≠ Int32.maxValue.toInt := fun he => h (Int32.toInt_inj.mp he)
  have hmax : Int32.maxValue.toInt = 2147483647 := by decide
  have hle := Int32.toInt_le x
  have hge := Int32.le_toInt x
  rw [Int32.toInt_add, show (1 : Int32).toInt = 1 from by decide, Int.bmod_def]
  omega

section Changes
variable {s : Sys} {p np : Fin NPROC}

lemma family_fork {now : UInt32} {t : PTable} (h : Allocated s.table now np t) :
    (((s.setTable t).setPc p (.allocated np)).forgetCalls np).family =
      ((s.family.setPhase np .embryo).newPid np).setChild p (some (np, false)) := by
  ext1
  · funext q
    by_cases hq : q = np
    · subst hq
      simp [h.proc, Proc.allocated, ProcState.phase]
    · simp [h.other q hq, hq]
  · funext q
    by_cases hq : q = np
    · subst hq
      simp [h.proc, Proc.allocated]
    · simp [h.other q hq]
  · funext q
    by_cases hq : q = np
    · subst hq
      simp [h.proc, Proc.allocated]
    · simp [h.other q hq, hq]
  · simp [h.nextpid, toInt_add_one h.not_max]
  · simp [h.initproc]
  · funext q
    by_cases hq : q = p
    · subst hq
      simp [Pc.link]
    · simp [hq]
  · rfl
  · rfl

lemma family_moved {o : Option (Fin NPROC)} {st : ProcState} {pc : Pc} :
    ((s.setTable (s.table.set np ((s.table.proc np).moved o st))).setPc p pc).family =
      ((s.family.setPhase np st.phase).setParent np o).setChild p pc.link := by
  ext1
  · funext q
    by_cases hq : q = np
    · subst hq
      simp
    · simp [hq]
  · funext q
    by_cases hq : q = np
    · subst hq
      simp
    · simp [hq]
  · funext q
    by_cases hq : q = np
    · subst hq
      simp [Proc.moved]
    · simp [hq]
  · rfl
  · rfl
  · funext q
    by_cases hq : q = p
    · subst hq
      simp
    · simp [hq]
  · rfl
  · rfl

lemma family_forkFail :
    (s.forkFail p np).family = (s.family.setPhase np .free).setChild p none := by
  calc (s.forkFail p np).family
      = ((s.family.setPhase np .free).setParent np (s.family.parent np)).setChild p none :=
        family_moved
    _ = (s.family.setPhase np .free).setChild p none :=
        congrArg (Family.setChild · p none) (Family.setParent_eq_self _ rfl)

lemma family_link : ((s.setTable (forkParent s.table p np)).setPc p (.linked np 0)).family =
      (s.family.setParent np (some p)).setChild p (some (np, true)) := by
  calc ((s.setTable (forkParent s.table p np)).setPc p (.linked np 0)).family
      = ((s.family.setPhase np (s.family.phase np)).setParent np (some p)).setChild p
          (some (np, true)) := family_moved
    _ = (s.family.setParent np (some p)).setChild p (some (np, true)) := by
        rw [Family.setPhase_eq_self _ rfl]

lemma family_start : ((s.setTable (forkStart s.table np)).setPc p .idle).family =
      (s.family.setPhase np .alive).setChild p none := by
  calc ((s.setTable (forkStart s.table np)).setPc p .idle).family
      = ((s.family.setPhase np .alive).setParent np (s.family.parent np)).setChild p none :=
        family_moved
    _ = (s.family.setPhase np .alive).setChild p none :=
        congrArg (Family.setChild · p none) (Family.setParent_eq_self _ rfl)

lemma family_exit (hpc : (s.pc p).link = none) :
    (s.exit p).family = ((s.family.handOver p).setPhase p .zombie).logExit (s.family.pid p) := by
  ext1
  · funext q
    by_cases hq : q = p
    · subst hq
      simp [Sys.exit, exit_apply, ProcState.phase]
    by_cases hw : WokenByExit s.table p q
    · simp [Sys.exit, exit_apply, hq, hw, ProcState.phase, hw.1]
    · simp [Sys.exit, exit_apply, hq, hw]
  · funext q
    simp [Sys.exit, exit_apply]
  · funext q
    simp [Sys.exit, exit_apply, Proc.moved]
  · simp [Sys.exit]
  · simp [Sys.exit]
  · funext q
    by_cases hq : q = p
    · subst hq
      simp [Sys.exit, hpc]
    · simp [Sys.exit, hq]
  · simp [Sys.exit]
  · rfl

lemma family_freed {t : PTable} (ht : SameKin s.table t) {z : Fin NPROC}
    (hpc : (s.pc p).link = none) :
    (((s.setTable (t.set z (t.proc z).freed)).setPc p .idle).recordWait p (t.proc z).pid).family =
      (((s.family.setPhase z .free).setParent z none).clearPid z).logWait p (s.family.pid z) := by
  ext1
  · funext q
    by_cases hq : q = z
    · subst hq
      simp [Proc.freed, ProcState.phase]
    · simp [hq, ht.phase]
  · funext q
    by_cases hq : q = z
    · subst hq
      simp [Proc.freed]
    · simp [hq, ht.parent]
  · funext q
    by_cases hq : q = z
    · subst hq
      simp [Proc.freed]
    · simp [hq, ht.pid]
  · simp [ht.nextpid]
  · simp [ht.initproc]
  · funext q
    by_cases hq : q = p
    · subst hq
      simp [hpc]
    · simp [hq]
  · rfl
  · simp [ht.pid]

end Changes

namespace Moved

variable {s s' : Sys} {m : Move}

/-- A change that no parent sees. -/
lemma family_same (ht : SameKin s.table s'.table)
    (hpc : ∀ q, (s'.pc q).link = (s.pc q).link := by exact fun _ => rfl)
    (hexited : s'.exited = s.exited := by rfl) (hwaited : s'.waited = s.waited := by rfl) :
    s.family.Step s'.family := by
  rw [Sys.family_eq ht hpc hexited hwaited]
  exact .refl

/-- Every move is a step of the family. -/
lemma family_step (h : Moved s m s') (hleaving : ∀ p, s.pc p = .leaving → p ≠ s.table.initproc) :
    s.family.Step s'.family := by
  have halive : ∀ {p}, (s.table.proc p).state = .running → s.family.phase p = .alive := by
    intro p hp
    rw [Sys.family_phase, hp]
    rfl
  have hpcs : ∀ {p pc}, pc.link = (s.pc p).link →
      ∀ q, (Function.update s.pc p pc q).link = (s.pc q).link := by
    intro p pc h q
    by_cases hq : q = p
    · subst hq
      rw [Function.update_self, h]
    · rw [Function.update_of_ne hq]
  cases h with
  | @fork p np now t hrun hpc halloc =>
    have hspec := allocproc_spec halloc
    rw [family_fork hspec]
    exact .conceive (halive hrun) (by simp [hpc, Pc.link]) (by simp [hspec.unused, ProcState.phase])
  | same => exact .refl
  | @forkFail p np hrun hpc =>
    have hlink : (s.pc p).link = some (np, false) := by
      obtain hp | hp := hpc <;> rw [hp] <;> rfl
    rw [family_forkFail]
    exact .fail hlink
  | @advance p np ok pc hrun hpc =>
    have hlink : pc.link = (s.pc p).link := by
      obtain ⟨hp, rfl⟩ | ⟨hp, rfl⟩ := hpc <;> rw [hp] <;> rfl
    exact family_same SameKin.rfl (hpcs hlink)
  | @link p np ok hrun hpc =>
    rw [family_link]
    exact .adopt (by simp [hpc, Pc.link])
  | @dup p np fd ok hrun hpc =>
    unfold Sys.dupFile
    split
    · exact family_same SameKin.rfl (hpcs (by rw [hpc]; rfl))
    · exact family_same SameKin.rfl (hpcs (by rw [hpc]; rfl))
  | @start p np ok hrun hpc =>
    rw [family_start]
    exact .bear (by simp [hpc, Pc.link])
  | @exit p hrun hpc hinit => exact family_same SameKin.rfl (hpcs (by rw [hpc]; rfl))
  | @close p fd ok hrun hpc =>
    unfold Sys.closeFile
    split
    · exact family_same SameKin.rfl (hpcs (by rw [hpc]; rfl))
    · exact family_same SameKin.rfl (hpcs (by rw [hpc]; rfl))
  | @leave p ok hrun hpc =>
    have hlink : (s.pc p).link = none := by rw [hpc]; rfl
    rw [family_exit hlink]
    exact .exit (halive hrun) hlink (hleaving p hpc)
  | @wait p a hrun hpc =>
    have hlink : (s.pc p).link = none := by
      obtain ⟨hp, -⟩ | hp := hpc <;> rw [hp] <;> rfl
    have hkin : SameKin s.table (Process.sleepReturn s.table p) := .sleepReturn p
    unfold Sys.wait
    obtain ⟨z, hparent, hzombie, hround⟩ | ⟨-, hround | hround⟩ :=
      waitRound_spec (Process.sleepReturn s.table p) p
    · rw [hround]
      dsimp only
      rw [family_freed hkin hlink]
      refine .wait (halive hrun) ?_ ?_
      · rw [Sys.family_phase, ← hkin.phase, hzombie]
        rfl
      · rw [Sys.family_parent, ← hkin.parent, hparent]
    · rw [hround]
      exact family_same hkin (hpcs hlink.symm)
    rw [hround]
    refine family_same (hkin.trans (.sleep ?_ _)) (hpcs hlink.symm)
    simp [Process.sleepReturn, hrun]
  | sleepReturn => exact family_same (.sleepReturn _)
  | sleep hrun hpc => exact family_same (.sleep hrun _)
  | yield hrun => exact family_same (.yield hrun)
  | kill => exact family_same (.kill _)
  | exec => exact family_same (.exec _)
  | changeLevel => exact family_same (.changeProcessLevel _ _)
  | setTicket => exact family_same (.setProcessTicket _ _)
  | setPriority => exact family_same (.setProcessRemainingPriority _ _)
  | setFile | setCwd => exact family_same SameKin.rfl
  | dispatch hidle hp => exact family_same (.dispatch hp)
  | wakeup => exact family_same (.wakeup1 _)

end Moved
end Xv6.Process
