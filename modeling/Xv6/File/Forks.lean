import Xv6.File.Histories
import Xv6.Process.Table

/-!
# Processes that share the inode cache

Processes open files, make directories, change their working directories and
fork. The inode cache has an entry for every inode that a process is in or has
open, and for the ones that a call works on. Its size is smaller than what the
other tables allow, so that `iget` may find no free entry and panic.

## Implementation notes

Whether `fork` finds memory for the child is an input.
-/

namespace Xv6.File
open Fs Lib Function Exec Store
open Process (ProcState)

/-- The file system and the states of the processes. -/
structure Users where
  fs : FsState
  state : Pid → ProcState
  nextpid : Int32

namespace Users

def setFs (u : Users) (s : FsState) : Users := { u with fs := s }

def setState (u : Users) (p : Pid) (x : ProcState) : Users := { u with state := update u.state p x }

end Users

/-- `filedup` -/
def filedup (f : Fin NFILE) : FsExec Unit := do
  let s ← Exec.get
  stopIf ((s.file f).ref < 1) (.panic .filedup)
  Exec.modify (·.onStore fun v => v.setFile f ((v.file f).withRef ((v.file f).ref + 1)))

/-- One turn of the loop of `fork` over the open files. -/
def copyFd (p np : Pid) (fd : Fin NOFILE) : FsExec Unit := do
  let s ← Exec.get
  match s.ofile p fd with
  | none => pure ()
  | some f => do
    filedup f
    Exec.modify (·.onStore (·.setFd np fd (some f)))

/-- `np->cwd = idup(curproc->cwd)` -/
def copyCwd (p np : Pid) : FsExec Unit := do
  let i ← fsOp p .cwd
  fsOp p (.idup i)
  Exec.modify (·.onStore (·.setCwd np (some i)))

/-- Computations on the file system and the processes. -/
abbrev UsersExec (α : Type) : Type := Exec Stop Users α

/-- `fork` -/
def fork (p : Pid) (memory : Bool) : UsersExec ℤ := do
  let u ← Exec.get
  match (List.finRange NPROC).find? fun q => u.state q = .unused with
  | none => pure (-1)
  | some np => do
    Exec.modify fun u => { u.setState np .embryo with nextpid := u.nextpid + 1 }
    if memory then
      Exec.zoom Users.fs Users.setFs do
        Exec.each (copyFd p np) (List.finRange NOFILE)
        copyCwd p np
      Exec.modify (·.setState np .runnable)
      pure u.nextpid.toInt
    else
      Exec.modify (·.setState np .unused)
      pure (-1)

/-- The calls of a user process. -/
inductive UserCall
  | file (r : Request)
  | fork (memory : Bool)

/-- The code that serves a call. -/
def UserCall.run (p : Pid) : UserCall → UsersExec ℤ
  | .file r => Exec.zoom Users.fs Users.setFs (serve p r)
  | .fork memory => File.fork p memory

/-- A complete call of a process that may run. -/
def Users.step (u : Users) (c : Pid × UserCall) : Option Users :=
  if u.state c.1 = .runnable then
    match c.2.run c.1 u with
    | .ok _ u' => some u'
    | .stop _ _ => none
  else
    none

/-! ## What holds between two calls -/

/-- The file system is sound, processes that run have a working directory, and unused entries of
the process table hold nothing. -/
structure Users.Orderly (u : Users) : Prop where
  sound : Sound u.fs
  running : ∀ p, u.state p = .runnable → ∃ i, u.fs.cwd p = some i
  unused : ∀ p, u.state p = .unused → u.fs.cwd p = none ∧ ∀ fd, u.fs.ofile p fd = none

section
variable {v w : Store} {s : FsState} {u u' : Users} {p q np : Pid} {r : Request} {i : Inum}
  {f : Fin NFILE} {fd : Fin NOFILE}

@[simp] lemma Store.reap_cwd : (v.reap i).cwd = v.cwd := by
  unfold Store.reap
  split <;> rfl

@[simp] lemma Store.put_ofile : (v.put i).ofile = v.ofile := by
  unfold Store.put
  split <;> rfl

lemma Creates.processes {path : Path} {t : FileType} {major minor : Int16} {c : Inum}
    (h : Creates p v path t major minor c w) : w.cwd = v.cwd ∧ w.ofile = v.ofile := by
  obtain ⟨dp, name, -, -, -, -, -, rfl⟩ := h.exists_entry
  have huse := newborn_sameUse v c dp t major minor
  rw [Store.created, reap_cwd, reap_ofile]
  exact ⟨huse.cwd, huse.ofile⟩

/-- A call that opens something changes the process that makes it, and leaves it a working
directory. -/
lemma Result.processes {a : ℤ} (h : Result p v r a w) (hr : r.Opens) (hp : v.cwd p = some i) :
    (∀ q, q ≠ p → w.cwd q = v.cwd q ∧ w.ofile q = v.ofile q) ∧ ∃ j, w.cwd p = some j := by
  have hopened : ∀ {w' : Store} {c : Inum} {f : Fin NFILE} {fd : Fin NOFILE} {omode : UInt32},
      w'.cwd = v.cwd ∧ w'.ofile = v.ofile →
      (∀ q, q ≠ p → (w'.opened p c f fd omode).cwd q = v.cwd q ∧
        (w'.opened p c f fd omode).ofile q = v.ofile q) ∧
      ∃ j, (w'.opened p c f fd omode).cwd p = some j := by
    intro w' c f fd omode hsame
    refine ⟨fun q hq => ⟨congrFun hsame.1 q, ?_⟩, i, (congrFun hsame.1 p).trans hp⟩
    exact (update_of_ne hq _ _).trans (congrFun hsame.2 q)
  have hcreated : w.cwd = v.cwd ∧ w.ofile = v.ofile →
      (∀ q, q ≠ p → w.cwd q = v.cwd q ∧ w.ofile q = v.ofile q) ∧ ∃ j, w.cwd p = some j :=
    fun hsame => ⟨fun q _ => ⟨congrFun hsame.1 q, congrFun hsame.2 q⟩, i,
      (congrFun hsame.1 p).trans hp⟩
  cases h with
  | fail => exact ⟨fun _ _ => ⟨rfl, rfl⟩, i, hp⟩
  | mkdir h | mknod h | create _ h => exact hcreated h.processes
  | createOpen h => exact hopened h.processes
  | «open» => exact hopened ⟨rfl, rfl⟩
  | @chdir _ i _ _ =>
    refine ⟨fun q hq => ⟨?_, ?_⟩, i, update_self _ _ _⟩
    · exact (update_of_ne hq _ _).trans (congrFun put_cwd q)
    · exact congrFun put_ofile q
  | link | unlink | close | exit => exact hr.elim

lemma Users.Orderly.file (h : u.Orderly) (hr : r.Opens) (hp : u.state p = .runnable)
    {a : ℤ} (hserve : serve p r u.fs = .ok a s) : (u.setFs s).Orderly := by
  obtain ⟨i, hcwd⟩ := h.running p hp
  rcases serve_cases (spec_result r (h.sound.consistent.usable hcwd)) (h.sound.settled.rep p) with
    ⟨a', s₁, b, hrun, hb, hheld, heff⟩ | ⟨e, s₁, hrun, -⟩
  · obtain ⟨-, rfl⟩ : a = a' ∧ s = s₁ := by simpa using hserve.symm.trans hrun
    have hcare : u.fs.Careful p r := by cases r <;> trivial
    have hcons := heff.consistent h.sound.consistent hcwd hcare
    obtain ⟨hothers, j, hj⟩ := heff.processes hr hcwd
    rw [← hb.store] at hcons hothers hj
    refine ⟨⟨hb.settled hheld, hcons⟩, fun q hq => ?_, fun q hq => ?_⟩
    · obtain rfl | hne := eq_or_ne q p
      · exact ⟨j, hj⟩
      obtain ⟨k, hk⟩ := h.running q hq
      exact ⟨k, (hothers q hne).1.trans hk⟩
    have hne : q ≠ p := by
      rintro rfl
      exact absurd (hp.symm.trans hq) (by decide)
    obtain ⟨hnone, hfds⟩ := h.unused q hq
    refine ⟨(hothers q hne).1.trans hnone, fun fd => ?_⟩
    exact (congrFun (hothers q hne).2 fd).trans (hfds fd)
  · exact absurd (hserve.symm.trans hrun) (by simp)

/-! ## Forking -/

lemma Settled.frame (h : Settled s) {g : Store → Store} (hnode : (g s.toStore).node = s.node)
    (href : (g s.toStore).ref = s.ref) : Settled (s.onStore g) :=
  ((h.rep 0).frame hnode href).settled rfl

lemma Settled.addRef (h : Settled s) (hi : 0 < s.ref i) : Settled (s.onStore (·.addRef i)) := by
  have hpos : ∀ j, 0 < (s.addRef i).ref j → 0 < s.ref j := by
    intro j hj
    by_cases hji : j = i
    · rwa [hji]
    · simpa [hji] using hj
  refine ⟨h.unlocked, fun j hj => h.coherent j (hpos j hj), fun j htype hlink => ?_⟩
  obtain ⟨href, hvalid⟩ := h.orphan j htype hlink
  refine ⟨?_, hvalid⟩
  change 0 < (s.addRef i).ref j
  rw [addRef_ref_eq]
  exact Nat.add_pos_left href _

namespace Store.Consistent

lemma file_ref_pos (hv : v.Consistent) (hfd : v.ofile p fd = some f) : 0 < (v.file f).ref := by
  have hfds := setFd_fds v p fd none f
  rw [hfd] at hfds
  simp only [reduceCtorEq, if_false, if_true] at hfds
  have := hv.descriptors f
  omega

lemma dup (hv : v.Consistent) (hf : 0 < (v.file f).ref) (hfd : v.ofile np fd = none) :
    ((v.setFile f ((v.file f).withRef ((v.file f).ref + 1))).setFd np fd (some f)).Consistent := by
  let w := (v.setFile f ((v.file f).withRef ((v.file f).ref + 1))).setFd np fd (some f)
  have hself : w.file f = (v.file f).withRef ((v.file f).ref + 1) := update_self _ _ _
  have hother : ∀ g, g ≠ f → w.file g = v.file g := fun g hg => update_of_ne hg _ _
  have htype : ∀ g, (w.file g).type = (v.file g).type ∧ (w.file g).ip = (v.file g).ip := by
    intro g
    obtain rfl | hg := eq_or_ne g f
    · rw [hself]
      exact ⟨rfl, rfl⟩
    · rw [hother g hg]
      exact ⟨rfl, rfl⟩
  refine ⟨hv.toTree.of_eq rfl rfl rfl, fun j => ?_, hv.cwdDir, fun g hg => ?_, fun g => ?_,
    fun g hg => ?_, hv.kept⟩
  · have hfiles : w.files j = v.files j := by
      unfold files tally
      refine Finset.sum_congr rfl fun g _ => ?_
      simp only [(htype g).1, (htype g).2]
    rw [hfiles, if_neg (by simp), add_zero]
    exact hv.ref_eq
  · change w.type (w.file g).ip ≠ .free
    rw [(htype g).2]
    exact hv.fileType g ((htype g).1.symm.trans hg)
  · have hfds := setFd_fds v np fd (some f) g
    rw [hfd] at hfds
    have hold := hv.descriptors g
    change (w.file g).ref = (v.setFd np fd (some f)).fds g
    obtain rfl | hg := eq_or_ne g f
    · rw [hself]
      change (v.file g).ref + 1 = _
      simp only [reduceCtorEq, if_false, if_true] at hfds
      omega
    rw [hother g hg]
    simp only [reduceCtorEq, if_false, Option.some.injEq, Ne.symm hg] at hfds
    omega
  obtain rfl | hgf := eq_or_ne g f
  · change (w.file g).ref = 0 at hg
    rw [hself] at hg
    exact absurd hg (Nat.succ_ne_zero _)
  change (w.file g).type = .none
  rw [(htype g).1]
  refine hv.closed g ?_
  rwa [← hother g hgf]

lemma enter (hv : v.Consistent) (hi : v.type i = .dir) (hnp : v.cwd np = none) :
    ((v.addRef i).setCwd np (some i)).Consistent := by
  refine ⟨hv.toTree.of_eq rfl rfl rfl, fun j => ?_, fun q j hj => ?_, hv.fileType, hv.descriptors,
    hv.closed, fun j htype hlink => ?_⟩
  · have hcwds := setCwd_cwds (v := v) (p := np) (o := some i) (i := j)
    have href := addRef_ref_eq (v := v) (i := i) (j := j)
    rw [hv.ref_eq] at href
    rw [hnp] at hcwds
    calc (v.addRef i).ref j
        = v.cwds j + v.files j + if j = i then 1 else 0 := href
      _ = (v.setCwd np (some i)).cwds j + v.files j + 0 := by
          simp only [reduceCtorEq, if_false, Option.some.injEq, eq_comm] at hcwds ⊢
          omega
  · obtain rfl | hq := eq_or_ne q np
    · have hij : i = j := by simpa [setCwd] using hj
      exact hij ▸ hi
    · exact hv.cwdDir q j ((update_of_ne hq _ _).symm.trans hj)
  refine (hv.kept j htype hlink).trans_le ?_
  change v.ref j ≤ (v.addRef i).ref j
  rw [addRef_ref_eq]
  exact Nat.le_add_right _ _

end Store.Consistent

/-- What the loop of `fork` has done when it is through with the descriptors in `done`. -/
structure Copying (s₀ : FsState) (np : Pid) (done : List (Fin NOFILE)) (s : FsState) : Prop where
  sound : Sound s
  cwd : s.cwd = s₀.cwd
  others : ∀ q, q ≠ np → s.ofile q = s₀.ofile q
  rest : ∀ fd, fd ∉ done → s.ofile np fd = none

variable {S : Stop → FsState → Prop}

lemma wp_copyFd {s₀ : FsState} {done : List (Fin NOFILE)} (h : Copying s₀ np done s)
    (hfd : fd ∉ done) :
    wp (copyFd p np fd) (fun _ => Copying s₀ np (done ++ [fd])) S s := by
  have hrest : ∀ g, g ∉ done ++ [fd] → g ∉ done ∧ g ≠ fd := fun g hg => by simpa using hg
  rw [copyFd, wp_bind, wp_get]
  split
  case h_1 =>
    exact (wp_pure _).mpr ⟨h.sound, h.cwd, h.others, fun g hg => h.rest g (hrest g hg).1⟩
  case h_2 f hf =>
    have hpos := h.sound.consistent.file_ref_pos hf
    rw [wp_bind, filedup, wp_bind, wp_get, wp_bind, wp_stopIf]
    refine ⟨fun hzero => absurd hpos (by omega), fun _ => ?_⟩
    rw [wp_modify, wp_modify]
    refine ⟨⟨?_, h.sound.consistent.dup hpos (h.rest fd hfd)⟩, h.cwd, fun q hq => ?_,
      fun g hg => ?_⟩
    · exact (h.sound.settled.frame rfl rfl).frame rfl rfl
    · exact (update_of_ne hq _ _).trans (h.others q hq)
    obtain ⟨hdone, hne⟩ := hrest g hg
    have hrow : (update s.ofile np (update (s.ofile np) fd (some f))) np g = none := by
      rw [update_self, update_of_ne hne]
      exact h.rest g hdone
    exact hrow

lemma wp_copy (hs : Sound s) (hcwd : s.cwd p = some i)
    (hnp : s.cwd np = none) (hfds : ∀ fd, s.ofile np fd = none) : wp (do
      Exec.each (copyFd p np) (List.finRange NOFILE)
      copyCwd p np)
      (fun _ s' => Sound s' ∧ s'.cwd = update s.cwd np (some i) ∧
        ∀ q, q ≠ np → s'.ofile q = s.ofile q) S s := by
  refine wp_seq (wp_each (copyFd p np) (Copying s np) _ ?_
    ⟨hs, rfl, fun _ _ => rfl, fun fd _ => hfds fd⟩) ?_
  · intro done fd rest hsplit s' h'
    refine wp_copyFd h' fun hmem => ?_
    have hnodup := List.nodup_finRange NOFILE
    rw [hsplit, List.nodup_append] at hnodup
    exact hnodup.2.2 fd hmem fd List.mem_cons_self rfl
  intro _ s' h'
  have hdir : s'.type i = .dir := h'.sound.consistent.cwdDir p i (h'.cwd ▸ hcwd)
  have hpos : 0 < s'.ref i := by
    have hcwds := setCwd_cwds (v := s'.toStore) (p := p) (o := none) (i := i)
    have href := h'.sound.consistent.ref_eq (i := i)
    rw [h'.cwd, hcwd] at hcwds
    simp only [if_true, reduceCtorEq, if_false] at hcwds
    omega
  have hrun : copyCwd p np s' =
      .ok () ((s'.onStore (·.addRef i)).onStore (·.setCwd np (some i))) := by
    rw [copyCwd, bind_ok (fsOp_cwd (h'.cwd ▸ hcwd))]
    rfl
  refine wp_of_ok hrun ⟨⟨?_, ?_⟩, ?_, h'.others⟩
  · exact (h'.sound.settled.addRef hpos).frame rfl rfl
  · exact h'.sound.consistent.enter hdir (h'.cwd ▸ hnp)
  · exact congrArg (update · np (some i)) h'.cwd

/-- `fork` never stops. -/
lemma Users.Orderly.fork (h : u.Orderly) (hp : u.state p = .runnable) (memory : Bool) :
    ∃ a u', fork p memory u = .ok a u' ∧ u'.Orderly := by
  refine wp_exists ?_
  rw [File.fork, wp_bind, wp_get]
  split
  case h_1 => exact (wp_pure _).mpr h
  case h_2 np hnp =>
    have hunused : u.state np = .unused := by simpa using List.find?_some hnp
    obtain ⟨hcwd, hfds⟩ := h.unused np hunused
    obtain ⟨i, hi⟩ := h.running p hp
    have hback : ∀ q x, q ≠ np → update (update u.state np .embryo) np x q =
        u.state q := fun q x hq => by
      rw [update_of_ne hq, update_of_ne hq]
    rw [wp_bind, wp_modify]
    split
    · rw [wp_bind, wp_zoom]
      refine wp_post (wp_copy h.sound hi hcwd hfds) ?_
      rintro _ s' ⟨hs', hcwd', hothers⟩
      rw [wp_bind, wp_modify]
      refine (wp_pure _).mpr ⟨hs', fun q hq => ?_, fun q hq => ?_⟩
      · obtain rfl | hne := eq_or_ne q np
        · exact ⟨i, (congrFun hcwd' q).trans (update_self _ _ _)⟩
        obtain ⟨j, hj⟩ := h.running q ((hback q _ hne).symm.trans hq)
        exact ⟨j, ((congrFun hcwd' q).trans (update_of_ne hne _ _)).trans hj⟩
      have hne : q ≠ np := by
        rintro rfl
        exact absurd ((update_self _ _ _).symm.trans hq) (by decide)
      obtain ⟨hnone, hfree⟩ := h.unused q ((hback q _ hne).symm.trans hq)
      refine ⟨((congrFun hcwd' q).trans (update_of_ne hne _ _)).trans hnone, fun fd => ?_⟩
      exact (congrFun (hothers q hne) fd).trans (hfree fd)
    rw [wp_bind, wp_modify]
    refine (wp_pure _).mpr ⟨h.sound, fun q hq => ?_, fun q hq => ?_⟩
    · obtain rfl | hne := eq_or_ne q np
      · exact absurd ((update_self _ _ _).symm.trans hq) (by decide)
      · exact h.running q ((hback q _ hne).symm.trans hq)
    obtain rfl | hne := eq_or_ne q np
    · exact ⟨hcwd, hfds⟩
    · exact h.unused q ((hback q _ hne).symm.trans hq)

/-! ## Runs -/

/-- `fork`, and the calls that open or make something or change the working directory. -/
def UserCall.Opens : UserCall → Prop
  | .file r => r.Opens
  | .fork _ => True

instance : DecidablePred Request.Opens
  | .open _ _ | .mkdir _ | .mknod _ _ _ | .chdir _ => isTrue trivial
  | .link _ _ | .unlink _ | .close _ | .exit => isFalse id

instance (v : Store) (p : Pid) : DecidablePred (v.Roomy p)
  | .open (some path) omode => inferInstanceAs (Decidable
      (if omode &&& O_CREATE ≠ 0 then v.CreateRoom p path else v.NamexRoom p path false))
  | .mkdir (some path) | .mknod (some path) _ _ => inferInstanceAs (Decidable (v.CreateRoom p path))
  | .chdir (some path) => inferInstanceAs (Decidable (v.NamexRoom p path false))
  | .open none _ | .mkdir none | .mknod none _ _ | .chdir none => isTrue trivial
  | .link _ _ | .unlink _ | .close _ | .exit => isTrue trivial

instance : DecidablePred UserCall.Opens
  | .file r => inferInstanceAs (Decidable r.Opens)
  | .fork _ => isTrue trivial

lemma Users.Orderly.step {c : Pid × UserCall} (h : u.Orderly) (hc : c.2.Opens)
    (hstep : u.step c = some u') : u'.Orderly := by
  obtain ⟨p, c⟩ := c
  unfold Users.step at hstep
  split at hstep
  case isTrue hp =>
    cases c with
    | file r =>
      simp only [UserCall.run, Exec.zoom] at hstep
      cases hserve : serve p r u.fs with
      | ok a s =>
        rw [hserve] at hstep
        cases hstep
        exact h.file hc hp hserve
      | stop e s =>
        rw [hserve] at hstep
        cases hstep
    | fork memory =>
      obtain ⟨a, u₁, hrun, h₁⟩ := h.fork hp memory
      rw [show UserCall.run p (.fork memory) u = .ok a u₁ from hrun] at hstep
      cases hstep
      exact h₁
  case isFalse => cases hstep

lemma Store.roomy_of_inUse (h : v.inUse + 2 ≤ NINODE) (r : Request) : v.Roomy p r := by
  have hcreate : ∀ path, v.CreateRoom p path := by
    intro path
    refine ⟨namexRoom_of_inUse h, fun x _ => ?_⟩
    have hlt : (v.addRef x.1).inUse < NINODE := by
      have := inUse_addRef_le (v := v) (i := x.1)
      omega
    exact ⟨roomOf_of_inUse hlt, fun _ _ _ => .inr hlt⟩
  unfold Store.Roomy
  split
  · split
    · exact hcreate _
    · exact namexRoom_of_inUse h
  · exact hcreate _
  · exact hcreate _
  · exact namexRoom_of_inUse h
  · trivial

/-- A call that opens something returns if there is room for the inodes it gets, and panics
otherwise. -/
lemma Users.Orderly.opens (h : u.Orderly) (hp : u.state p = .runnable) (hr : r.Opens)
    (hdisk : ∀ e, u.fs.Stocked e) : (u.fs.Roomy p r ∧ (serve p r u.fs).reason = none) ∨
      ¬ u.fs.Roomy p r ∧ (serve p r u.fs).reason = some (.panic .iget) := by
  obtain ⟨i, hcwd⟩ := h.running p hp
  have hspec := spec_opens (E := fun e => e = .panic .iget ∧ ¬ u.fs.Roomy p r) hr
    (h.sound.consistent.usable hcwd) (fun e => .inl (hdisk e)) fun hno => ⟨rfl, hno⟩
  rcases serve_cases hspec (h.sound.settled.rep p) with ⟨a, s, b, hrun, -, hroom, -⟩ |
    ⟨e, s, hrun, rfl, hno⟩
  · rw [hrun]
    exact .inl ⟨hroom, rfl⟩
  · rw [hrun]
    exact .inr ⟨hno, rfl⟩

end

/-- Whatever processes have opened, made and forked: `fork` returns, and with enough inodes and
blocks on the disk another such call returns exactly if there is room in the inode cache for the
inodes that it gets. Otherwise `iget` panics. Two free entries are room enough. -/
theorem opens_return_iff (u₀ u : Users) (h₀ : u₀.Orderly)
    (hrun : Reaches Users.step (fun _ c => c.2.Opens) u₀ u) (p : Pid) (hp : u.state p = .runnable) :
    (∀ memory, (fork p memory u).reason = none) ∧ ∀ r : Request, r.Opens → (∀ e, u.fs.Stocked e) →
      ((serve p r u.fs).reason = none ↔ u.fs.Roomy p r) ∧
      ((serve p r u.fs).reason = some (.panic .iget) ↔ ¬ u.fs.Roomy p r) ∧
      (u.fs.inUse + 2 ≤ NINODE → u.fs.Roomy p r) := by
  have h : u.Orderly := hrun.invariant (fun _ _ _ hs hc hstep => hs.step hc hstep) h₀
  refine ⟨fun memory => ?_, fun r hr hdisk => ?_⟩
  · obtain ⟨a, u', hfork, -⟩ := h.fork hp memory
    rw [hfork]
    rfl
  rcases h.opens hp hr hdisk with ⟨hroom, hreason⟩ | ⟨hno, hreason⟩
  · simp [hroom, hreason]
  · have hfull : ¬ u.fs.inUse + 2 ≤ NINODE := fun hroom => hno (roomy_of_inUse hroom r)
    simp [hno, hreason, hfull]

/-! ## Four processes with forty-nine files -/

/-- `init` and the shell in the root directory of a disk with 64 inodes. -/
def desk : Users where
  fs := { image with ninodes := 64, ninodes_lt := by decide, nfree := 900 }
  state p := if p.val < 2 then .runnable else .unused
  nextpid := 3

lemma Store.Consistent.resize {v : Store} (hv : v.Consistent) {n k : ℕ} (hn : v.ninodes ≤ n)
    (hlt : n < 65536)
    (hk : ({ v with ninodes := n, ninodes_lt := hlt, nfree := k } : Store).blocks ≤ FSSIZE) :
    ({ v with ninodes := n, ninodes_lt := hlt, nfree := k } : Store).Consistent := by
  let w : Store := { v with ninodes := n, ninodes_lt := hlt, nfree := k }
  have hcount : ∀ q, w.count q = v.count q := by
    intro q
    refine (Finset.sum_subset (Finset.range_mono hn) fun i _ hi => ?_).symm
    refine Node.count_of_ne fun hdir => hi (Finset.mem_range.mpr ?_)
    exact (hv.range i fun hfree => nomatch hdir.symm.trans hfree).2
  exact ⟨{
    root := hv.root
    range := fun i hi => ⟨(hv.range i hi).1, (hv.range i hi).2.trans_le hn⟩
    shaped := hv.shaped
    entry := hv.entry
    noSelf := hv.noSelf
    nlink := fun i hi => by
      have := hv.nlink i hi
      rwa [← hcount] at this
    named := fun d hd => by
      have := hv.named d hd
      rwa [← hcount] at this
    parent := hv.parent
    rootParent := hv.rootParent
    capacity := hk }, hv.refs, hv.cwdDir, hv.fileType, hv.descriptors, hv.closed, hv.kept⟩

lemma desk_orderly : desk.Orderly where
  sound := ⟨⟨image_settled.unlocked, image_settled.coherent, image_settled.orphan⟩,
    image_sound.consistent.resize (by decide) (by decide) (by decide +kernel)⟩
  running := by
    intro p hp
    have hlt : p.val < 2 := by
      by_contra hge
      exact nomatch (if_neg hge).symm.trans hp
    exact ⟨1, if_pos hlt⟩
  unused := by
    intro p hp
    have hge : ¬ p.val < 2 := by
      intro hlt
      exact nomatch (if_pos hlt).symm.trans hp
    exact ⟨if_neg hge, fun _ => rfl⟩

/-- The disk, the file table and the process have room. -/
def Users.Spare (u : Users) (p : Pid) : Prop :=
  u.fs.freeInum ≠ none ∧ 3 ≤ u.fs.nfree ∧
  (∀ d < u.fs.ninodes, u.fs.type d = .dir →
    DIRENTSIZE * ((u.fs.node d).ents.length + 1) ≤ MAXFILE * BSIZE) ∧
  u.fs.freeFile ≠ none ∧ u.fs.freeFd p ≠ none

instance (u : Users) (p : Pid) : Decidable (u.Spare p) := inferInstanceAs (Decidable (_ ∧ _))

lemma Users.Orderly.stocked {u : Users} {p : Pid} (h : u.Orderly) (hspare : u.Spare p)
    (e : Stop) : u.fs.Stocked e := by
  obtain ⟨hinum, hfree, hsmall, -, -⟩ := hspare
  unfold Store.Stocked
  split
  · exact hinum
  · exact hfree
  · intro d hd
    exact hsmall d (h.sound.consistent.range d fun hno => nomatch hd.symm.trans hno).2 hd
  · trivial

/-- The first process opens a new file. -/
theorem desk_opens : (fork 0 true desk).reason = none ∧
    (serve 0 (.open (some [0x62]) O_CREATE) desk.fs).reason = none := by
  have h := opens_return_iff desk desk desk_orderly Relation.ReflTransGen.refl 0 rfl
  have hdisk := desk_orderly.stocked (p := 0) (by decide +kernel)
  exact ⟨h.1 true, (h.2 (.open (some [0x62]) O_CREATE) trivial hdisk).1.mpr (by decide +kernel)⟩

/-- Process `p` makes and opens `n` files, the first one with the number `k`. -/
def makeFiles (p : Pid) (k n : ℕ) : List (Pid × UserCall) :=
  (List.range n).map fun j => (p, .file (.open (some [0x62, UInt8.ofNat (0x30 + k + j)]) O_CREATE))

/-- Two processes fork, and the four open sixteen files each; the last one only one. -/
def crowdHistory : List (Pid × UserCall) :=
  [(0, .fork true), (1, .fork true)] ++ makeFiles 0 0 16 ++ makeFiles 1 16 16 ++
    makeFiles 2 32 16 ++ makeFiles 3 48 1

/-- With forty-nine files open, one more `open` panics in `iget`. -/
theorem crowd_panics : desk.Orderly ∧ ∃ u,
    Reaches Users.step (fun _ c => c.2.Opens) desk u ∧ u.state 3 = .runnable ∧
    (∀ e, u.fs.Stocked e) ∧ u.Spare 3 ∧
    (serve 3 (.open (some [0x63]) O_CREATE) u.fs).reason = some (.panic .iget) := by
  obtain ⟨u, hreach, hstate, hspare, hpanic⟩ := exists_of_execAll
    Users.step (fun _ c => c.2.Opens) desk crowdHistory
    (fun u => u.state 3 = .runnable ∧ u.Spare 3 ∧
      (serve 3 (.open (some [0x63]) O_CREATE) u.fs).reason = some (.panic .iget))
    (by decide +kernel)
  have h : u.Orderly := hreach.invariant (fun _ _ _ hs hc hstep => hs.step hc hstep) desk_orderly
  exact ⟨desk_orderly, u, hreach, hstate, h.stocked hspare, hspare, hpanic⟩

end Xv6.File
