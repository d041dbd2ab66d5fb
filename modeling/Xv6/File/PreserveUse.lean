import Xv6.File.PreserveUnlink

/-!
# Opening, closing and changing directories keep a file system consistent

These calls change who uses an inode. The names stay, except that an inode that
has no name left is freed with its last use.
-/

namespace Xv6.File
open Fs Lib Function

namespace Store

variable {v w : Store} {i j : Inum} {p : Pid} {f g : Fin NFILE} {fd : Fin NOFILE}
  {q : Dirent → Bool}

/-- Inodes without a name may be freed. -/
structure Frees (v w : Store) : Prop where
  ninodes : w.ninodes = v.ninodes
  node : ∀ i, w.node i = v.node i ∨ w.type i = .free ∧ v.type i ≠ .dir ∧ v.count (linkTo i) = 0
  blocks : w.blocks = v.blocks

namespace Frees

section
variable (h : Frees v w)
include h

lemma type_dir : w.type i = .dir ↔ v.type i = .dir := by
  unfold Store.type
  rcases h.node i with heq | ⟨hw, hv, -⟩
  · rw [heq]
  · rw [show (w.node i).info.type = .free from hw]
    exact ⟨fun h => absurd h (by decide), fun h => absurd h hv⟩

lemma node_dir (hd : v.type i = .dir) : w.node i = v.node i :=
  (h.node i).resolve_right fun hfree => hfree.2.1 hd

lemma count : w.count q = v.count q := by
  unfold Store.count tally
  rw [h.ninodes]
  refine Finset.sum_congr rfl ?_
  intro i _
  by_cases hd : v.type i = .dir
  · rw [h.node_dir hd]
  · rw [Node.count_of_ne hd, Node.count_of_ne fun hw => hd (h.type_dir.mp hw)]

lemma node_of_type (hi : w.type i ≠ .free) : w.node i = v.node i :=
  (h.node i).resolve_right fun hfree => hi hfree.1

lemma type_of_type (hi : w.type i ≠ .free) : w.type i = v.type i := by
  unfold Store.type
  rw [h.node_of_type hi]

lemma entry (hv : v.Tree) : w.NoDangling := by
  intro d hd e he hlive
  have hdir := h.type_dir.mp hd
  rw [h.node_dir hdir] at he
  unfold Store.type
  rcases h.node e.inum with heq | ⟨-, hnd, hzero⟩
  · rw [heq]
    exact hv.entry d hdir e he hlive
  have hname : e.name = dot := by
    by_contra hname
    have := Store.count_pos (q := linkTo e.inum) hdir (hv.dir_lt hdir) he (by simp [linkTo, hname])
    omega
  exact absurd (hv.dot_self hdir he hlive hname ▸ hdir) hnd

lemma tree (hv : v.Tree) : w.Tree where
  root := h.type_dir.mpr hv.root
  range := by
    intro i hi
    rw [h.ninodes]
    exact hv.range i (h.type_of_type hi ▸ hi)
  shaped := by
    intro d hd
    rw [h.node_dir (h.type_dir.mp hd)]
    exact hv.shaped d (h.type_dir.mp hd)
  entry := h.entry hv
  noSelf := by
    intro d hd
    rw [h.node_dir (h.type_dir.mp hd)]
    exact hv.noSelf d (h.type_dir.mp hd)
  nlink := by
    intro i hi
    rw [h.node_of_type hi, h.count]
    exact hv.nlink i (h.type_of_type hi ▸ hi)
  named := by
    intro d hd
    rw [h.count]
    exact hv.named d (h.type_dir.mp hd)
  parent := by
    intro d d' hd hd'
    rw [h.node_dir (h.type_dir.mp hd), h.node_dir (h.type_dir.mp hd')]
    exact hv.parent d d' (h.type_dir.mp hd) (h.type_dir.mp hd')
  rootParent := by
    rw [h.node_dir hv.root]
    exact hv.rootParent
  capacity := by
    rw [h.blocks]
    exact hv.capacity

end
end Frees

lemma Tree.of_eq (hv : v.Tree) (hn : w.ninodes = v.ninodes) (hfree : w.nfree = v.nfree)
    (hnode : w.node = v.node) : w.Tree := by
  have hblocks : w.blocks = v.blocks := by
    unfold blocks
    rw [hn, hfree, hnode]
  exact Frees.tree ⟨hn, fun i => .inl (congrFun hnode i), hblocks⟩ hv

section Tallies
variable {o : Option Inum} {x : OpenFile} {r : Option (Fin NFILE)}

lemma setCwd_cwds : (v.setCwd p o).cwds i + (if v.cwd p = some i then 1 else 0) =
    v.cwds i + if o = some i then 1 else 0 :=
  tally_update (Finset.mem_univ p)

lemma setFile_files : (v.setFile f x).files i +
    (if (v.file f).type = .inode ∧ (v.file f).ip = i then 1 else 0) =
    v.files i + if x.type = .inode ∧ x.ip = i then 1 else 0 :=
  tally_update (Finset.mem_univ f)

lemma setFd_fds (v : Store) (p : Pid) (fd : Fin NOFILE) (r : Option (Fin NFILE))
    (g : Fin NFILE) : (v.setFd p fd r).fds g + (if v.ofile p fd = some g then 1 else 0) =
    v.fds g + if r = some g then 1 else 0 := by
  have hrow := tally_update (w := fun o : Option (Fin NFILE) => if o = some g then 1 else 0)
    (f := v.ofile p) (x := r) (Finset.mem_univ fd)
  have hall := tally_update (w := fdsIn g) (f := v.ofile)
    (x := update (v.ofile p) fd r) (Finset.mem_univ p)
  unfold fdsIn at hall
  unfold fds setFd fdsIn
  simp only at hrow ⊢
  omega

lemma addRef_ref_eq : (v.addRef i).ref j = v.ref j + if j = i then 1 else 0 := by
  by_cases h : j = i <;> simp [h]

lemma dropRef_ref_eq (hi : 0 < v.ref i) :
    (v.dropRef i).ref j + (if j = i then 1 else 0) = v.ref j := by
  by_cases h : j = i
  · subst h
    simp only [dropRef_ref, update_self, if_true]
    omega
  · simp [h]

end Tallies

lemma Tree.put (ht : v.Tree) (hu : v.Use (some i)) : (v.put i).Consistent := by
  have href : v.ref i = v.cwds i + v.files i + 1 := by simpa using hu.refs i
  have hrefs : ∀ j, (v.dropRef i).ref j = v.cwds j + v.files j := by
    intro j
    have h1 := dropRef_ref_eq (j := j) (show 0 < v.ref i by omega)
    have h2 := hu.refs j
    by_cases hj : j = i
    · subst hj
      simp only [if_true] at h1 h2
      omega
    · simp only [hj, if_false, Option.some.injEq, Ne.symm hj] at h1 h2
      omega
  unfold Store.put
  split
  case isTrue hdead =>
    have hzero : v.cwds i = 0 ∧ v.files i = 0 := by
      have := hdead.2.2
      omega
    have hnd : v.type i ≠ .dir := fun hd => ht.nlink_ne_zero hd hdead.2.1
    have hnode : ∀ j, j ≠ i → ((v.freeInode i).dropRef i).node j = v.node j := fun j hj => by
      rw [dropRef_node, freeInode_node, if_neg hj]
    have hfrees : Frees v ((v.freeInode i).dropRef i) := by
      refine ⟨rfl, fun j => ?_, ?_⟩
      · by_cases hj : j = i
        · subst hj
          refine .inr ⟨?_, hnd, ?_⟩
          · unfold Store.type
            rw [dropRef_node, freeInode_node, if_pos rfl]
            rfl
          have hlink := ht.nlink j hdead.1
          rw [nlink_eq_zero_iff.mp hdead.2.1] at hlink
          exact_mod_cast hlink.symm
        · exact .inl (hnode j hj)
      have htally := tally_update (w := fun n : Node => blocksFor n.size) (f := v.node)
        (x := { info := (v.node i).info.freed }) (Finset.mem_range.mpr (ht.range i hdead.1).2)
      have hupd : ((v.freeInode i).dropRef i).node =
          update v.node i { info := (v.node i).info.freed } := by
        funext j
        by_cases hj : j = i
        · subst hj
          rw [dropRef_node, freeInode_node, if_pos rfl, update_self]
        · rw [hnode j hj, update_of_ne hj]
      unfold blocks
      rw [hupd]
      rw [blocksFor_freed] at htally
      have hfree : ((v.freeInode i).dropRef i).nfree = v.nfree + blocksFor (v.node i).size := rfl
      have hn : ((v.freeInode i).dropRef i).ninodes = v.ninodes := rfl
      rw [hfree, hn]
      omega
    refine ⟨hfrees.tree ht, ?_, ?_, ?_, hu.descriptors, hu.closed, ?_⟩
    · exact fun j => (hrefs j).trans (by simp; rfl)
    · intro p j hp
      exact hfrees.type_dir.mpr (hu.cwdDir p j hp)
    · intro f hf
      have hne : (v.file f).ip ≠ i := by
        intro hip
        have : 0 < v.files i := tally_ite_pos_iff.mpr ⟨f, Finset.mem_univ f, hf, hip⟩
        omega
      unfold Store.type
      rw [show (((v.freeInode i).dropRef i).file f).ip = (v.file f).ip from rfl, hnode _ hne]
      exact hu.fileType f hf
    intro j hj hlink
    have hne : j ≠ i := by
      rintro rfl
      unfold Store.type at hj
      rw [dropRef_node, freeInode_node, if_pos rfl] at hj
      exact hj rfl
    unfold Store.type at hj
    rw [hnode j hne] at hj hlink
    have hpos := hu.kept j hj hlink
    have h1 := hrefs j
    have h2 := hu.refs j
    simp only [Option.some.injEq, Ne.symm hne, if_false] at h2
    rw [show ((v.freeInode i).dropRef i).ref = (v.dropRef i).ref from rfl]
    omega
  case isFalse halive =>
    refine ⟨ht.of_eq rfl rfl rfl, ?_, hu.cwdDir, hu.fileType, hu.descriptors, hu.closed, ?_⟩
    · exact fun j => (hrefs j).trans (by simp; rfl)
    intro j hj hlink
    have hpos := hu.kept j hj hlink
    have h1 := dropRef_ref_eq (j := j) (show 0 < v.ref i by omega)
    by_cases hji : j = i
    · subst hji
      have hone : v.ref j ≠ 1 := fun hone => halive ⟨hj, hlink, hone⟩
      simp only [if_true] at h1
      omega
    · simp only [hji, if_false] at h1
      omega

lemma put_setCwd {o : Option Inum} : (v.put i).setCwd p o = (v.setCwd p o).put i := by
  have hdead : (v.setCwd p o).Dead i ↔ v.Dead i := Iff.rfl
  unfold put
  by_cases h : v.Dead i
  · rw [if_pos h, if_pos (hdead.mpr h)]
    rfl
  · rw [if_neg h, if_neg fun h' => h (hdead.mp h')]
    rfl

namespace Consistent

section
variable (hv : v.Consistent)
include hv

lemma chdir {old : Inum} (hi : v.type i = .dir) (hold : v.cwd p = some old) :
    (((v.addRef i).put old).setCwd p (some i)).Consistent := by
  rw [put_setCwd]
  refine Tree.put (hv.toTree.of_eq rfl rfl rfl) ⟨?_, ?_, hv.fileType, hv.descriptors, hv.closed, ?_⟩
  · intro j
    have hcwds := setCwd_cwds (v := v) (p := p) (o := some i) (i := j)
    have href := addRef_ref_eq (v := v) (i := i) (j := j)
    rw [hv.ref_eq] at href
    rw [hold] at hcwds
    calc (v.addRef i).ref j
        = v.cwds j + v.files j + if j = i then 1 else 0 := href
      _ = (v.setCwd p (some i)).cwds j + v.files j + if some old = some j then 1 else 0 := by
          simp only [Option.some.injEq, eq_comm] at hcwds ⊢
          omega
  · intro p' j hj
    by_cases hp : p' = p
    · subst hp
      have hij : i = j := by simpa [setCwd] using hj
      exact hij ▸ hi
    · exact hv.cwdDir p' j ((update_of_ne hp _ _).symm.trans hj)
  intro j hj hlink
  have := hv.kept j hj hlink
  exact this.trans_le (by rw [show (((v.addRef i).setCwd p (some i)).ref j) =
    (v.addRef i).ref j from rfl, addRef_ref_eq]; omega)

lemma leave {c : Inum} (hc : v.cwd p = some c) : ((v.put c).setCwd p none).Consistent := by
  rw [put_setCwd]
  refine Tree.put (hv.toTree.of_eq rfl rfl rfl)
    ⟨?_, ?_, hv.fileType, hv.descriptors, hv.closed, hv.kept⟩
  · intro j
    have hcwds := setCwd_cwds (v := v) (p := p) (o := none) (i := j)
    rw [hc] at hcwds
    calc v.ref j
        = v.cwds j + v.files j := hv.ref_eq
      _ = (v.setCwd p none).cwds j + v.files j + if some c = some j then 1 else 0 := by
          simp only [reduceCtorEq, if_false] at hcwds
          omega
  intro p' j hj
  by_cases hp : p' = p
  · subst hp
    simp [setCwd] at hj
  · exact hv.cwdDir p' j (by simpa [setCwd, hp] using hj)

lemma opened {omode : UInt32} (hi : v.type i ≠ .free) (hf : (v.file f).ref = 0)
    (hfd : v.ofile p fd = none) : (v.opened p i f fd omode).Consistent := by
  have hnone := hv.closed f hf
  refine ⟨hv.toTree.of_eq rfl rfl rfl, ?_, hv.cwdDir, ?_, ?_, ?_, ?_⟩
  · intro j
    have hfiles := setFile_files (v := v) (f := f) (i := j)
      (x := openedFile ((v.file f).withRef 1) i omode)
    have href := addRef_ref_eq (v := v) (i := i) (j := j)
    rw [hv.ref_eq] at href
    calc (v.addRef i).ref j
        = v.cwds j + v.files j + if j = i then 1 else 0 := href
      _ = v.cwds j + (v.setFile f (openedFile ((v.file f).withRef 1) i omode)).files j + 0 := by
          simp only [hnone, reduceCtorEq, false_and, if_false, openedFile, true_and,
            eq_comm] at hfiles ⊢
          omega
  · intro g hg
    by_cases hgf : g = f
    · subst hgf
      have hself : ((v.opened p i g fd omode).file g).ip = i := by
        simp [Store.opened, setFile, setFd, openedFile]
      rwa [hself]
    have hsame : (v.opened p i f fd omode).file g = v.file g := update_of_ne hgf _ _
    rw [hsame] at hg ⊢
    exact hv.fileType g hg
  · intro g
    have hfds := setFd_fds v p fd (some f) g
    rw [hfd] at hfds
    have hold := hv.descriptors g
    have hnew : (v.opened p i f fd omode).fds g = (v.setFd p fd (some f)).fds g := rfl
    rw [hnew]
    by_cases hgf : g = f
    · subst hgf
      simp only [reduceCtorEq, if_false, if_true] at hfds
      have hone : ((v.opened p i g fd omode).file g).ref = 1 := by
        simp [Store.opened, setFile, setFd, openedFile, OpenFile.withRef]
      omega
    have hsame : (v.opened p i f fd omode).file g = v.file g := update_of_ne hgf _ _
    rw [hsame]
    simp only [reduceCtorEq, if_false, Option.some.injEq, Ne.symm hgf] at hfds
    omega
  · intro g hg
    by_cases hgf : g = f
    · subst hgf
      simp [Store.opened, setFile, setFd, openedFile, OpenFile.withRef] at hg
    have hsame : (v.opened p i f fd omode).file g = v.file g := update_of_ne hgf _ _
    rw [hsame] at hg ⊢
    exact hv.closed g hg
  intro j hj hlink
  have hpos := hv.kept j hj hlink
  have href := addRef_ref_eq (v := v) (i := i) (j := j)
  rw [show (v.opened p i f fd omode).ref = (v.addRef i).ref from rfl]
  omega

variable {x : OpenFile}

section
variable (hfd : v.ofile p fd = some f)
include hfd

lemma closing (hx : x.ref + 1 = (v.file f).ref) :
    ∀ g, (((v.setFd p fd none).setFile f x).file g).ref =
      ((v.setFd p fd none).setFile f x).fds g := by
  intro g
  have hfds := setFd_fds v p fd none g
  rw [hfd] at hfds
  have hold := hv.descriptors g
  have hnew : ((v.setFd p fd none).setFile f x).fds g = (v.setFd p fd none).fds g := rfl
  rw [hnew]
  by_cases hgf : g = f
  · subst hgf
    simp only [reduceCtorEq, if_false, if_true] at hfds
    have hself : ((v.setFd p fd none).setFile g x).file g = x := update_self _ _ _
    rw [hself]
    omega
  have hsame : ((v.setFd p fd none).setFile f x).file g = v.file g :=
    update_of_ne hgf _ _
  rw [hsame]
  simp only [reduceCtorEq, if_false, Option.some.injEq, Ne.symm hgf] at hfds
  omega

lemma closeShared (href : x.ref + 1 = (v.file f).ref) (hpos : x.ref ≠ 0)
    (htype : x.type = (v.file f).type)
    (hip : x.ip = (v.file f).ip) : ((v.setFd p fd none).setFile f x).Consistent := by
  have hself : ((v.setFd p fd none).setFile f x).file f = x := update_self _ _ _
  have hsame : ∀ g, g ≠ f → ((v.setFd p fd none).setFile f x).file g = v.file g :=
    fun g hg => update_of_ne hg _ _
  refine ⟨hv.toTree.of_eq rfl rfl rfl, ?_, hv.cwdDir, ?_, hv.closing hfd href, ?_, hv.kept⟩
  · intro j
    have hfiles := setFile_files (v := v.setFd p fd none) (f := f) (x := x) (i := j)
    rw [htype, hip] at hfiles
    have hsameFiles := Nat.add_right_cancel hfiles
    rw [hsameFiles, if_neg (by simp), add_zero]
    exact hv.ref_eq
  · intro g hg
    by_cases hgf : g = f
    · subst hgf
      rw [hself, hip]
      exact hv.fileType g (by rwa [hself, htype] at hg)
    · rw [hsame g hgf] at hg ⊢
      exact hv.fileType g hg
  intro g hg
  by_cases hgf : g = f
  · subst hgf
    rw [hself] at hg
    exact absurd hg hpos
  · rw [hsame g hgf] at hg ⊢
    exact hv.closed g hg

/-- The last descriptor of a file is closed: the reference to its inode is left over. -/
lemma closeLast (hf : (v.file f).ref = 1)
    (hx : x.ref = 0) (htype : x.type = .none) : ((v.setFd p fd none).setFile f x).Use
      (if (v.file f).type = .inode then some (v.file f).ip else none) := by
  have hself : ((v.setFd p fd none).setFile f x).file f = x := update_self _ _ _
  have hsame : ∀ g, g ≠ f → ((v.setFd p fd none).setFile f x).file g = v.file g :=
    fun g hg => update_of_ne hg _ _
  refine ⟨?_, hv.cwdDir, ?_, hv.closing hfd (by omega), ?_, hv.kept⟩
  · intro j
    have hfiles : ((v.setFd p fd none).setFile f x).files j +
        (if (v.file f).type = .inode ∧ (v.file f).ip = j then 1 else 0) =
        v.files j + if x.type = .inode ∧ x.ip = j then 1 else 0 := setFile_files
    rw [htype, if_neg (show ¬ (FdType.none = .inode ∧ x.ip = j) from fun h => nomatch h.1),
      add_zero] at hfiles
    have hown : (if (if (v.file f).type = .inode then some (v.file f).ip else none) = some j
        then 1 else 0) = if (v.file f).type = .inode ∧ (v.file f).ip = j then 1 else 0 := by
      by_cases ht : (v.file f).type = .inode <;> simp [ht]
    rw [hown, add_assoc, hfiles]
    exact hv.ref_eq
  · intro g hg
    by_cases hgf : g = f
    · subst hgf
      rw [hself, htype] at hg
      exact nomatch hg
    · rw [hsame g hgf] at hg ⊢
      exact hv.fileType g hg
  intro g hg
  by_cases hgf : g = f
  · subst hgf
    rwa [hself]
  · rw [hsame g hgf] at hg ⊢
    exact hv.closed g hg

end

lemma closeFd : (v.closeFd p fd).Consistent := by
  unfold Store.closeFd
  rcases hfd : v.ofile p fd with _ | f
  · exact hv
  have hpos : 0 < (v.file f).ref := by
    have hfds := setFd_fds v p fd none f
    rw [hfd] at hfds
    simp only [reduceCtorEq, if_false, if_true] at hfds
    have := hv.descriptors f
    omega
  have hfile : (v.setFd p fd none).file f = v.file f := rfl
  have htree : ((v.setFd p fd none).dropFile f).Tree := hv.toTree.of_eq rfl rfl rfl
  simp only [closeFile, hfile]
  by_cases hmany : 1 < (v.file f).ref
  · rw [if_pos hmany]
    exact hv.closeShared hfd
      (Nat.sub_add_cancel (Nat.one_le_of_lt hmany)) (Nat.sub_ne_zero_of_lt hmany) rfl rfl
  have hlast : ((v.setFd p fd none).dropFile f).Use _ := hv.closeLast hfd (by omega) rfl rfl
  rw [if_neg hmany]
  by_cases ht : (v.file f).type = .inode
  · rw [if_pos ht] at hlast ⊢
    exact htree.put hlast
  · rw [if_neg ht] at hlast ⊢
    exact ⟨htree, hlast⟩

lemma closeAll (fds : List (Fin NOFILE)) : (v.closeAll p fds).Consistent := by
  unfold Store.closeAll
  induction fds generalizing v with
  | nil => exact hv
  | cons fd fds ih => exact ih hv.closeFd

end
end Consistent

end Store
end Xv6.File
