import Xv6.File.Preserve

/-!
# `create` keeps a file system consistent

The new inode is set up in full before its name is entered into the parent
directory; a new directory comes with `.` and `..` and one more link to the
parent.
-/

namespace Xv6.File
open Fs Lib

namespace Store

variable {v : Store} {c dp j : Inum} {name : Name} {q : Dirent → Bool} {t : FileType}
  {major minor : Int16}

lemma newborn_node_of_ne (hc : j ≠ c) (hdp : j ≠ dp) :
    (v.newborn dp c t major minor).node j = v.node j := by
  unfold newborn
  split
  · rw [addEntry_node, if_neg hc, addEntry_node, if_neg hc, addLinks_node, if_neg hdp]
    simp [hc]
  · simp [hc]

lemma newborn_sameUse (v : Store) (c dp : Inum) (t : FileType) (major minor : Int16) :
    SameUse v (v.newborn dp c t major minor) := by
  unfold newborn
  split <;> exact ⟨rfl, rfl, rfl, rfl, rfl⟩

lemma newborn_child (hne : c ≠ dp) (hc0 : c ≠ 0) : ((v.newborn dp c t major minor).node c).ents =
      if t = .dir then [⟨c, dot⟩, ⟨dp, dotdot⟩] else [] := by
  unfold newborn
  by_cases ht : t = .dir
  · simp only [if_pos ht]
    rw [addEntry_node, if_pos rfl, addEntry_node, if_pos rfl, addLinks_node, if_neg hne]
    simp [Node.withEntry, newNode, insertEntry_cons, insertEntry_nil, hc0]
  · simp [if_neg ht, newNode]

lemma newborn_parent (hne : c ≠ dp) : ((v.newborn dp c t major minor).node dp).info =
    if t = .dir then ((v.node dp).withLinks 1).info else (v.node dp).info := by
  unfold newborn
  by_cases ht : t = .dir
  · simp only [if_pos ht]
    rw [addEntry_info, addEntry_info, addLinks_node, if_pos rfl]
    simp [hne.symm]
  · simp [if_neg ht, hne.symm]

namespace Consistent

/-- An inode that is free is not named by any entry. -/
lemma count_free (hv : v.Consistent) (hc : v.type c = .free) (hc0 : c ≠ 0)
    (hq : ∀ e : Dirent, q e = true → e.inum = c) : v.count q = 0 := by
  by_contra hpos
  obtain ⟨d, hd, e, he, hqe⟩ := Store.exists_of_count_pos (Nat.pos_of_ne_zero hpos)
  have heq := hq e hqe
  refine hv.entry d hd e he (by rw [heq]; exact hc0) ?_
  rwa [heq]

lemma child_ne (hdp : v.type dp = .dir) (hc : v.freeInum = some c) : c ≠ dp := by
  rintro rfl
  rw [(Store.freeInum_spec hc).2.2] at hdp
  exact absurd hdp (by decide)

lemma child_ne_zero (hc : v.freeInum = some c) : c ≠ 0 :=
  Nat.one_le_iff_ne_zero.mp (Store.freeInum_spec hc).2.1

lemma edit_created (name : Name) (t : FileType) (major minor : Int16) (hdp : v.type dp = .dir)
    (hc : v.freeInum = some c) : Edit v ((v.newborn dp c t major minor).addEntry dp ⟨c, name⟩) dp c
    (((v.newborn dp c t major minor).node dp).withEntry ⟨c, name⟩)
    ((v.newborn dp c t major minor).node c) := by
  have hspec := Store.freeInum_spec hc
  have hne := child_ne hdp hc
  have huse := newborn_sameUse v c dp t major minor
  refine ⟨⟨huse.ninodes, huse.ref, huse.file, huse.cwd, huse.ofile⟩, ?_, hne, hdp,
    ⟨hspec.2.1, hspec.1⟩, ?_⟩
  · funext j
    rw [addEntry_node]
    by_cases hj : j = c
    · subst hj
      simp [hne]
    by_cases hjd : j = dp
    · subst hjd
      simp [hj]
    · simp [hj, hjd, newborn_node_of_ne hj hjd]
  · exact (newborn_type_of_ne hne.symm).trans hdp

lemma created_count (hv : v.Consistent) (hdp : v.type dp = .dir) (hc : v.freeInum = some c)
    (hq : ∀ e : Dirent, e.inum = 0 → q e = false) :
    ((v.newborn dp c t major minor).addEntry dp ⟨c, name⟩).count q =
      v.count q + (if q ⟨c, name⟩ then 1 else 0) +
        if t = .dir then (if q ⟨c, dot⟩ then 1 else 0) + (if q ⟨dp, dotdot⟩ then 1 else 0)
        else 0 := by
  have hne := child_ne hdp hc
  have hcount := (edit_created name t major minor hdp hc).count hv (q := q)
  have htype : ((v.newborn dp c t major minor).node dp).info.type = .dir :=
    (newborn_type_of_ne hne.symm).trans hdp
  have hx : (((v.newborn dp c t major minor).node dp).withEntry ⟨c, name⟩).count q =
      (v.node dp).count q + if q ⟨c, name⟩ then 1 else 0 := by
    rw [Node.count_dir hdp, Node.count_dir (n := Node.withEntry _ _) htype, Node.withEntry,
      newborn_ents hne]
    exact countP_insertEntry hq
  have hold : (v.node c).count q = 0 := by
    refine Node.count_of_ne ?_
    rw [show (v.node c).info.type = .free from (Store.freeInum_spec hc).2.2]
    decide
  have hnew : ((v.newborn dp c t major minor).node c).count q =
      if t = .dir then (if q ⟨c, dot⟩ then 1 else 0) + (if q ⟨dp, dotdot⟩ then 1 else 0)
      else 0 := by
    unfold Node.count
    rw [newborn_info _ _ _ hne, newborn_child hne (child_ne_zero hc)]
    by_cases ht : t = .dir
    · simp only [newNode, if_pos ht, List.countP_cons, List.countP_nil]
      omega
    · simp [newNode, if_neg ht]
  omega

lemma created_nlink (name : Name) (t : FileType) (major minor : Int16) (hv : v.Consistent)
    (hdp : v.type dp = .dir) (hc : v.freeInum = some c) :
    ∀ i, ((v.newborn dp c t major minor).addEntry dp ⟨c, name⟩).type i ≠ .free →
      (((v.newborn dp c t major minor).addEntry dp ⟨c, name⟩).node i).info.nlink.toInt =
        (if i = c then 1 else v.count (linkTo i) + if i = dp ∧ t = .dir then 1 else 0 : ℕ) := by
  intro i hi
  have hne := child_ne hdp hc
  rw [addEntry_type] at hi
  rw [addEntry_info]
  by_cases hic : i = c
  · rw [hic, newborn_info _ _ _ hne, if_pos rfl]
    rfl
  rw [newborn_type_of_ne hic] at hi
  rw [if_neg hic]
  by_cases hid : i = dp
  · rw [hid, newborn_parent hne]
    by_cases ht : t = .dir
    · rw [if_pos ht, if_pos ⟨rfl, ht⟩]
      exact toInt_add_one (hv.nlink dp (hid ▸ hi)) hv.count_lt
    · rw [if_neg ht, if_neg fun h => ht h.2]
      exact hv.nlink dp (hid ▸ hi)
  · rw [newborn_node_of_ne hic hid, if_neg fun h => hid h.1]
    exact hv.nlink i hi

lemma newborn_nfree (hne : c ≠ dp) (hc0 : c ≠ 0)
    (hdots : t = .dir → ((v.setNode c (newNode t major minor)).addLinks dp 1).Fits c) :
    (v.newborn dp c t major minor).nfree +
      blocksFor ((v.newborn dp c t major minor).node c).size = v.nfree := by
  have hsize : ((v.newborn dp c t major minor).node c).size = if t = .dir then 32 else 0 := by
    unfold Node.size
    rw [newborn_info _ _ _ hne, newborn_child hne hc0]
    by_cases ht : t = .dir
    · simp [newNode, ht, DIRENTSIZE, DIRSIZ]
    simp only [newNode, if_neg ht]
    simp [newborn, ht, newNode]
  rw [hsize]
  by_cases ht : t = .dir
  · have hents : ((v.setNode c (newNode t major minor)).addLinks dp 1).node c =
        newNode t major minor := by
      rw [addLinks_node, if_neg hne]
      simp
    have hfits := hdots ht
    unfold Fits at hfits
    rw [hents] at hfits
    have hcost : entryCost (newNode t major minor).ents = 1 := (by decide : entryCost [] = 1)
    rw [hcost] at hfits
    have hsecond : entryCost ((newNode t major minor).withEntry ⟨c, dot⟩).ents = 0 := by
      have : ((newNode t major minor).withEntry ⟨c, dot⟩).ents = [⟨c, dot⟩] := rfl
      rw [this]
      simp [entryCost, freeSlot, hc0, growth]
      decide
    have hnfree : (v.newborn dp c t major minor).nfree = v.nfree - 1 := by
      unfold newborn
      simp only [if_pos ht]
      unfold addEntry
      simp only [setNode_node, Function.update_self, hents, hsecond, hcost]
      rfl
    rw [hnfree, if_pos ht, show blocksFor 32 = 1 by decide]
    exact Nat.sub_add_cancel hfits
  rw [if_neg ht, show blocksFor 0 = 0 by decide]
  unfold newborn
  simp only [if_neg ht]
  rfl

section
variable (hv : v.Consistent) (hdp : v.type dp = .dir) (hc : v.freeInum = some c)
include hv hdp hc

lemma created_blocks (hfits : (v.newborn dp c t major minor).Fits dp)
    (hdots : t = .dir → ((v.setNode c (newNode t major minor)).addLinks dp 1).Fits c) :
    ((v.newborn dp c t major minor).addEntry dp ⟨c, name⟩).blocks ≤ v.blocks := by
  have hne := child_ne hdp hc
  have hedit := edit_created name t major minor hdp hc
  have hblocks := Store.blocks_two hedit.ninodes hedit.node (hv.dir_lt hdp) hedit.range.2 hedit.ne
  have hfree := newborn_nfree hne (child_ne_zero hc) hdots
  have htype : ((v.newborn dp c t major minor).node dp).info.type = .dir :=
    (newborn_type_of_ne hne.symm).trans hdp
  have hx : blocksFor (((v.newborn dp c t major minor).node dp).withEntry ⟨c, name⟩).size =
      blocksFor (v.node dp).size + entryCost (v.node dp).ents := by
    unfold Node.size
    rw [if_pos (show (Node.withEntry _ _).info.type = .dir from htype),
      if_pos (show (v.node dp).info.type = .dir from hdp), Node.withEntry, newborn_ents hne]
    exact blocksFor_insertEntry
  unfold Fits at hfits
  rw [newborn_ents hne] at hfits
  have hnfree : ((v.newborn dp c t major minor).addEntry dp ⟨c, name⟩).nfree =
      (v.newborn dp c t major minor).nfree - entryCost (v.node dp).ents := by
    unfold addEntry
    rw [newborn_ents hne]
  rw [hx, hnfree] at hblocks
  omega

section
variable (ht : t ≠ .free) (hnone : v.lookup dp name = none)
  (hfits : (v.newborn dp c t major minor).Fits dp)
  (hdots : t = .dir → ((v.setNode c (newNode t major minor)).addLinks dp 1).Fits c)
include ht hnone hfits hdots

lemma sound_created :
    Edit.Sound v ((v.newborn dp c t major minor).addEntry dp ⟨c, name⟩) dp c
      (((v.newborn dp c t major minor).node dp).withEntry ⟨c, name⟩)
      ((v.newborn dp c t major minor).node c) := by
  have hfree := (Store.freeInum_spec hc).2.2
  have hne := child_ne hdp hc
  have hc0 := child_ne_zero hc
  have hplain : Name.Plain name := hv.plain_of_lookup hdp hnone
  have hedit := edit_created name t major minor hdp hc
  have hinfo := newborn_info (v := v) t major minor hne
  have htype : ((v.newborn dp c t major minor).node c).info.type = t := by rw [hinfo]; rfl
  have hnotDir : v.type c ≠ .dir := by rw [hfree]; decide
  have hlink := hv.created_nlink name t major minor hdp hc
  refine ⟨fun h => hnotDir (h ▸ hv.root), fun par h => ?_, ?_, ?_, ?_,
    fun p h => hnotDir (hv.cwdDir p c h), ?_, ?_, ?_, ?_, ?_⟩
  · rw [Node.withEntry, newborn_ents hne]
    exact h.insertEntry hplain
  · intro e he _
    rw [Node.withEntry, newborn_ents hne] at he
    exact (mem_insertEntry he).symm.imp_right fun h => by rw [h]
  · intro hdir
    rw [htype] at hdir
    rw [newborn_child hne hc0, if_pos hdir]
    refine ⟨hfree, ⟨⟨[], rfl, by simp⟩, hc0, hv.ne_zero (by rw [hdp]; decide)⟩, ?_⟩
    intro e he _
    simpa using he
  · intro h
    exact absurd (htype.symm.trans h) ht
  · intro h
    exact absurd (htype.symm.trans h) ht
  · intro i hi
    have hi0 : i ≠ 0 := by
      by_cases hic : i = c
      · rwa [hic]
      · rw [hedit.type_of_ne hic] at hi
        exact hv.ne_zero hi
    rw [hlink i hi, hv.created_count hdp hc (linkTo_free hi0)]
    by_cases hic : i = c
    · subst hic
      rw [hv.count_free hfree hi0 fun e he => (inum_of_linkTo he).1]
      simp [linkTo_plain hplain, hne.symm]
    simp only [linkTo_plain hplain, linkTo_dot, linkTo_dotdot, if_neg hic, Ne.symm hic]
    by_cases ht' : t = .dir
    · simp [ht', eq_comm]
    · simp [ht']
  · intro d hd
    by_cases hdc : d = c
    · subst hdc
      rw [hv.created_count hdp hc (plainTo_free hc0),
        hv.count_free hfree hc0 fun e he => (inum_of_plainTo he).1]
      have hroot : d ≠ ROOTINO := fun h => hnotDir (h ▸ hv.root)
      simp [plainTo_plain hplain, hroot]
    rw [hedit.type_of_ne hdc] at hd
    have hd0 : d ≠ 0 := hv.ne_zero (by rw [hd]; decide)
    rw [hv.created_count hdp hc (plainTo_free hd0), hv.named d hd]
    simp [plainTo_plain hplain, Ne.symm hdc]
  · intro _ hzero
    rw [hinfo] at hzero
    exact absurd hzero (by simp [newNode])
  · exact (hv.created_blocks hdp hc hfits hdots).trans hv.capacity

lemma created :
    (v.created dp name c t major minor).Consistent := by
  have hne := child_ne hdp hc
  have hlink := hv.created_nlink name t major minor hdp hc
    dp (by rw [addEntry_type, newborn_type_of_ne hne.symm, hdp]; decide)
  have hpos : (((v.newborn dp c t major minor).addEntry dp ⟨c, name⟩).node dp).info.nlink ≠ 0 := by
    intro h
    rw [nlink_eq_zero_iff.mp h, if_neg hne.symm] at hlink
    have := hv.nlink_dir hdp
    rw [hv.nlink dp (by rw [hdp]; decide)] at this
    omega
  unfold Store.created
  rw [reap_of_nlink hpos]
  refine (edit_created _ _ _ _ hdp hc).consistent
    (hv.sound_created hdp hc ht hnone hfits hdots) hv ?_
  rwa [addEntry_node, if_pos rfl] at hpos

end

end
end Consistent

end Store
end Xv6.File
