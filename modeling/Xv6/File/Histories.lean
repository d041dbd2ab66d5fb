import Xv6.File.PreserveUse
import Xv6.File.SelfDeadlock
import Xv6.Lib.Runs

/-!
# Histories of complete system calls

Processes make complete calls one after another, in any order. As long as no
directory is removed while a process uses it, the file system stays consistent:
no entry dangles, link counts are exact, and no inode is lost. A directory that
is removed while it is in use outlives its name. Its `..` is no longer counted
as a link to the parent, and what is created in it is lost with it.
-/

namespace Xv6.File
open Fs Lib

namespace Store

variable (v : Store)

/-- No process is in the inode or has it open. -/
def Idle (i : Inum) : Prop :=
  (∀ p, v.cwd p ≠ some i) ∧ ∀ f, (v.file f).type = .inode → (v.file f).ip ≠ i

instance (i : Inum) : Decidable (v.Idle i) := inferInstanceAs (Decidable (_ ∧ _))

/-- A directory is not removed while it is in use. -/
def Careful (p : Pid) : Request → Prop
  | .unlink (some path) =>
    match v.namex p path true with
    | some (dp, name) =>
      match v.lookup dp name with
      | some (ip, _) => Name.Plain name → v.type ip = .dir → v.Empty ip → v.Idle ip
      | none => True
    | none => True
  | _ => True

instance (p : Pid) (r : Request) : Decidable (v.Careful p r) := by
  unfold Careful
  split
  · split
    · split <;> infer_instance
    · infer_instance
  · infer_instance

/-- A directory without a name. -/
def Unlinked (d : Inum) : Prop := d ≠ ROOTINO ∧ v.count (plainTo d) = 0

instance (d : Inum) : Decidable (v.Unlinked d) := inferInstanceAs (Decidable (_ ∧ _))

/-- The entries other than `.` that name `i`, without the `..` of unlinked directories. -/
def linkCount (i : Inum) : ℕ :=
  ∑ d ∈ Finset.range v.ninodes,
    if v.type d = .dir then
      (v.node d).ents.countP fun e => linkTo i e && !(e.name == dotdot && decide (v.Unlinked d))
    else 0

/-- Some process is in the inode or has it open. -/
def InUse (i : Inum) : Prop :=
  (∃ p, v.cwd p = some i) ∨
    ∃ p fd f, v.ofile p fd = some f ∧ (v.file f).type = .inode ∧ (v.file f).ip = i

/-- Link counts are exact and every inode without links is in use. -/
structure LinksExact : Prop where
  nlink : ∀ i, v.type i ≠ .free → (v.node i).info.nlink.toInt = v.linkCount i
  used : ∀ i, v.type i ≠ .free → v.linkCount i = 0 → v.InUse i

end Store

/-- A complete call of a process that has not exited. -/
def call (s : FsState) (c : Pid × Request) : Option FsState :=
  match s.cwd c.1, serve c.1 c.2 s with
  | some _, .ok _ s' => some s'
  | _, _ => none

variable {v w : Store} {s s' : FsState} {p : Pid} {r : Request} {i : Inum}

variable {c : Pid × Request}

lemma call_eq_some (h : call s c = some s') :
    (∃ i, s.cwd c.1 = some i) ∧ ∃ a, serve c.1 c.2 s = .ok a s' := by
  unfold call at h
  split at h
  case h_1 i a s₁ hcwd hserve =>
    cases h
    exact ⟨⟨i, hcwd⟩, a, hserve⟩
  case h_2 => cases h

lemma Store.Idle.ref (h : v.Idle i) (hv : v.Consistent) : v.ref i = 0 := by
  have hcwds : v.cwds i = 0 := tally_eq_zero_iff.mpr fun p _ => if_neg (h.1 p)
  have hfiles : v.files i = 0 := tally_eq_zero_iff.mpr fun f _ => if_neg fun hf => h.2 f hf.1 hf.2
  rw [hv.ref_eq, hcwds, hfiles]

lemma Store.Idle.not_inUse (h : v.Idle i) : ¬ v.InUse i := by
  intro huse
  rcases huse with ⟨p, hp⟩ | ⟨-, -, f, -, htype, hip⟩
  · exact h.1 p hp
  · exact h.2 f htype hip

lemma Store.Consistent.creates {path : Path} {t : FileType} {major minor : Int16} {c : Inum}
    (hv : v.Consistent) (hp : v.cwd p = some i) (ht : t ≠ .free)
    (h : Creates p v path t major minor c w) :
    w.Consistent ∧ w.type c ≠ .free ∧ w.file = v.file ∧ w.ofile = v.ofile := by
  obtain ⟨dp, name, hpath, hnone, hc, hfits, hdots, rfl⟩ := h.exists_entry
  have hdp : v.type dp = .dir := ((hv.ready hp).namex hpath).2 rfl
  have hne := Store.Consistent.child_ne hdp hc
  have huse := Store.newborn_sameUse v c dp t major minor
  refine ⟨hv.created hdp hc ht hnone hfits fun hd => (hdots hd).1, ?_, ?_, ?_⟩
  · unfold Store.type
    rw [Store.created_info hne]
    exact ht
  · rw [Store.created, Store.reap_file]
    exact huse.file
  · rw [Store.created, Store.reap_ofile]
    exact huse.ofile

/-- Every effect of a call keeps a consistent file system consistent if no directory in use is
removed. -/
lemma Result.consistent {a : ℤ} (h : Result p v r a w) (hv : v.Consistent) (hp : v.cwd p = some i)
    (hcare : v.Careful p r) : w.Consistent := by
  have hready := hv.ready hp
  have hfree : ∀ f, v.freeFile = some f → (v.file f).ref = 0 := fun f hf => by
    simpa using List.find?_some hf
  have hfreeFd : ∀ fd, v.freeFd p = some fd → v.ofile p fd = none := fun fd hfd => by
    simpa using List.find?_some hfd
  cases h with
  | fail => exact hv
  | link hold hip hnew hnone hfits =>
    exact hv.linked (hready.namex hold).1 hip ((hready.namex hnew).2 rfl) hnone hfits
  | @unlink path ip dp k name hpath hplain hentry hempty =>
    unfold Store.Careful at hcare
    simp only [hpath, hentry] at hcare
    have hlook := Store.lookup_some hentry
    have hrem : v.Removable ip dp k name :=
      ⟨(hready.namex hpath).2 rfl, hlook.1, hlook.2, hplain, hempty,
        fun hd => (hcare hplain hd (hempty hd)).ref hv⟩
    exact hrem.consistent hv
  | mkdir h | mknod h | create _ h => exact (hv.creates hp (by decide) h).1
  | createOpen h hf hfd =>
    obtain ⟨hw, hc, hfile, hofile⟩ := hv.creates hp (by decide) h
    exact hw.opened hc (by rw [hfile]; exact hfree _ hf) (by rw [hofile]; exact hfreeFd _ hfd)
  | «open» hi hf hfd => exact hv.opened hi (hfree _ hf) (hfreeFd _ hfd)
  | chdir hi hdir hold => exact hv.chdir hdir hold
  | close hfd => exact hv.closeFd
  | exit hc =>
    refine (hv.closeAll _).leave ?_
    rw [Store.closeAll_cwd]
    exact hc

lemma Sound.call (h : Sound s) (hcare : s.Careful c.1 c.2)
    (hcall : call s c = some s') : Sound s' := by
  obtain ⟨⟨i, hp⟩, a, hserve⟩ := call_eq_some hcall
  rcases serve_cases (spec_result c.2 (h.consistent.usable hp)) (h.settled.rep c.1) with
    ⟨a', s₁, b, hrun, hb, hheld, heff⟩ | ⟨e, s₁, hrun, -⟩
  · obtain ⟨-, rfl⟩ : a = a' ∧ s' = s₁ := by simpa using hserve.symm.trans hrun
    refine ⟨hb.settled hheld, ?_⟩
    rw [hb.store]
    exact heff.consistent h.consistent hp hcare
  · exact absurd (hserve.symm.trans hrun) (by simp)

lemma Sound.history (h : Sound s)
    (hrun : Reaches File.call (fun s c => s.Careful c.1 c.2) s s') : Sound s' :=
  hrun.invariant (fun _ _ _ hs hcare hcall => hs.call hcare hcall) h

/-- No call meets an inode without a type. -/
lemma Sound.typed (h : Sound s) (hp : s.cwd p = some i) :
    (serve p r s).reason ≠ some (.panic .ilockNoType) := by
  rcases serve_cases (spec_result r (h.consistent.usable hp)) (h.settled.rep p) with
    ⟨a, s₁, -, hrun, -⟩ | ⟨e, s₁, hrun, he⟩
  · rw [hrun]
    exact nofun
  rw [hrun]
  intro heq
  obtain rfl : e = .panic .ilockNoType := Option.some.inj heq
  cases he with
  | short h => cases h

lemma Store.Consistent.linkCount_eq (hv : v.Consistent) : v.linkCount i = v.count (linkTo i) := by
  unfold Store.linkCount Store.count tally
  refine Finset.sum_congr rfl ?_
  intro d _
  by_cases hd : v.type d = .dir
  · have hnamed : ¬ v.Unlinked d := by
      intro hun
      have := hv.named d hd
      rw [hun.2, if_neg hun.1] at this
      exact absurd this (by decide)
    rw [if_pos hd, Node.count_dir hd]
    simp [hnamed]
  · rw [if_neg hd, Node.count_of_ne hd]

lemma Store.Consistent.inUse (hv : v.Consistent) (hi : 0 < v.ref i) : v.InUse i := by
  rw [hv.ref_eq] at hi
  rcases Nat.add_pos_iff_pos_or_pos.mp hi with hcwd | hfile
  · obtain ⟨p, -, hp⟩ := tally_ite_pos_iff.mp hcwd
    exact .inl ⟨p, hp⟩
  obtain ⟨f, -, hf⟩ := tally_ite_pos_iff.mp hfile
  have href : (v.file f).ref ≠ 0 := fun h => by
    rw [hv.closed f h] at hf
    exact absurd hf.1 (by decide)
  rw [hv.descriptors] at href
  obtain ⟨p, -, hp⟩ := tally_pos_iff.mp (Nat.pos_of_ne_zero href)
  obtain ⟨fd, -, hfd⟩ := tally_ite_pos_iff.mp hp
  exact .inr ⟨p, fd, f, hfd, hf⟩

lemma Store.Consistent.linksExact (hv : v.Consistent) : v.LinksExact where
  nlink := by
    intro i hi
    rw [hv.linkCount_eq]
    exact hv.nlink i hi
  used := by
    intro i hi hzero
    have hlink := hv.nlink i hi
    rw [← hv.linkCount_eq, hzero] at hlink
    exact hv.inUse (hv.kept i hi (nlink_eq_zero_iff.mpr hlink))

/-- `mkdir("d")`, `mkdir("d/e")`; process 1 leaves its directory for `d`, is refused `unlink(".")`
and returns; then `unlink("d/e")` and `unlink("d")`. -/
def tidyHistory : List (Pid × Request) :=
  [(0, .mkdir (some [0x64])), (0, .mkdir (some [0x64, 0x2f, 0x65])), (1, .chdir (some [0x64])),
    (1, .unlink (some dot)), (1, .chdir (some [0x2f])), (0, .unlink (some [0x64, 0x2f, 0x65])),
    (0, .unlink (some [0x64]))]

/-- The state after `tidyHistory`. -/
def tidyState : FsState :=
  (execAll File.call (fun s c => s.Careful c.1 c.2) image tidyHistory).get (by decide +kernel)

lemma tidyState_reached : Reaches File.call (fun s c => s.Careful c.1 c.2) image tidyState :=
  reaches_of_execAll (Option.some_get _).symm

/-- In a history in which no directory in use is removed, no entry dangles and no lookup meets
an inode without a type. -/
theorem noDangling_of_careful (hs : Sound s)
    (hrun : Reaches File.call (fun s c => s.Careful c.1 c.2) s s') :
    s'.NoDangling ∧ ∀ p r i, s'.cwd p = some i →
      (serve p r s').reason ≠ some (.panic .ilockNoType) :=
  ⟨(hs.history hrun).consistent.entry, fun _ _ _ hp => (hs.history hrun).typed hp⟩

theorem tidyState_noDangling : tidyState.NoDangling :=
  (noDangling_of_careful image_sound tidyState_reached).1

/-- Process 1 is in `d/e` while `d/e` and `d` are removed. -/
def danglingHistory : List (Pid × Request) :=
  [(0, .mkdir (some [0x64])), (0, .mkdir (some [0x64, 0x2f, 0x65])),
    (1, .chdir (some [0x64, 0x2f, 0x65])), (0, .unlink (some [0x64, 0x2f, 0x65])),
    (0, .unlink (some [0x64]))]

/-- The `..` of the removed directory names the inode of its parent, which has been freed, and
`open("..")` panics. -/
theorem removed_parent_dangles : Sound image ∧
    ∃ s', Reaches File.call (fun _ _ => True) image s' ∧ ¬ s'.NoDangling ∧
      (serve 1 (.open (some dotdot) O_RDONLY) s').reason = some (.panic .ilockNoType) := by
  refine ⟨image_sound, ?_⟩
  obtain ⟨s', hreach, hdir, hmem, hfree, hpanic⟩ := exists_of_execAll File.call
    (fun _ _ => True) image danglingHistory
    (fun s => s.type 4 = .dir ∧ ⟨3, dotdot⟩ ∈ (s.node 4).ents ∧ s.type 3 = .free ∧
      (serve 1 (.open (some dotdot) O_RDONLY) s).reason = some (.panic .ilockNoType))
    (by decide +kernel)
  exact ⟨s', hreach, fun hsafe => hsafe 4 hdir _ hmem (by decide) hfree, hpanic⟩

/-- In a history in which no directory in use is removed, link counts are exact and no inode is
lost. -/
theorem linksExact_of_careful (hs : Sound s)
    (hrun : Reaches File.call (fun s c => s.Careful c.1 c.2) s s') : s'.LinksExact :=
  (hs.history hrun).consistent.linksExact

theorem tidyState_linksExact : tidyState.LinksExact :=
  linksExact_of_careful image_sound tidyState_reached

/-- In such a history a directory other than the root has one name, in the directory that is
its `..`. -/
theorem named_in_parent (hs : Sound s)
    (hrun : Reaches File.call (fun s c => s.Careful c.1 c.2) s s') {d : Inum}
    (hd : s'.type d = .dir) : s'.count (plainTo d) = (if d = ROOTINO then 0 else 1) ∧
      ∃ par, Shaped d par (s'.node d).ents ∧ ∀ d' e, s'.type d' = .dir → e ∈ (s'.node d').ents →
        e.inum = d → Name.Plain e.name → d' = par := by
  have htree := (hs.history hrun).consistent.toTree
  obtain ⟨par, hshaped⟩ := htree.shaped d hd
  exact ⟨htree.named d hd, par, hshaped, fun d' e hd' he hed hplain =>
    (htree.parent d d' hd hd' e he hed hplain).unique hshaped⟩

theorem child_named_in_parent : ∃ s, Reaches File.call (fun s c => s.Careful c.1 c.2) image s ∧
    s.type 4 = .dir ∧ s.count (plainTo 4) = 1 := by
  obtain ⟨s, hrun, hd⟩ := exists_of_execAll File.call (fun s c => s.Careful c.1 c.2) image
    (tidyHistory.take 2) (fun s => s.type 4 = .dir) (by decide +kernel)
  exact ⟨s, hrun, hd, (named_in_parent image_sound hrun hd).1⟩

/-- Process 1 is in `d` while `d` is removed, creates `e` there and leaves. -/
def leakingHistory : List (Pid × Request) :=
  [(0, .mkdir (some [0x64])), (1, .chdir (some [0x64])), (0, .unlink (some [0x64])),
    (1, .mknod (some [0x65]) 1 1), (1, .chdir (some [0x2f]))]

/-- The inode of `e` has a link count of one and no name, and nothing refers to it. -/
theorem removed_directory_leaks : Sound image ∧
    ∃ s', Reaches File.call (fun _ _ => True) image s' ∧ ¬ s'.LinksExact ∧
      ∃ i, s'.type i ≠ .free ∧ (s'.node i).info.nlink = 1 ∧ s'.linkCount i = 0 ∧ ¬ s'.InUse i := by
  refine ⟨image_sound, ?_⟩
  obtain ⟨s', hreach, htype, hlink, hcount, hidle⟩ := exists_of_execAll File.call
    (fun _ _ => True) image leakingHistory
    (fun s => s.type 4 ≠ .free ∧ (s.node 4).info.nlink = 1 ∧ s.linkCount 4 = 0 ∧ s.Idle 4)
    (by decide +kernel)
  have huse := hidle.not_inUse
  exact ⟨s', hreach, fun hexact => huse (hexact.used 4 htype hcount), 4, htype, hlink, hcount, huse⟩

end Xv6.File
