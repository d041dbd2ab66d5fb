import Xv6.File.PreserveCreate

/-!
# `sys_unlink` keeps a file system consistent

This needs that a directory is not in use when it is removed: then `iput` frees
it in the same call, together with its `..`.
-/

namespace Xv6.File
open Fs Lib

/-- The entries that name `i` as `..`. -/
def upTo (i : Inum) (e : Dirent) : Bool := e.inum == i && e.name == dotdot

/-- A directory without its entry `k`, which named an inode of type `t`. -/
def Node.withoutEntry (n : Node) (k : ℕ) (t : FileType) : Node :=
  let m : Node := { n with ents := n.ents.set k ⟨0, []⟩ }
  if t = .dir then m.withLinks (-1) else m

/-- An inode with one link less, when `ref` references to it are left. -/
def Node.unlinked (n : Node) (ref : ℕ) : Node :=
  if (n.withLinks (-1)).info.nlink = 0 ∧ ref = 0 then { info := (n.withLinks (-1)).info.freed }
  else n.withLinks (-1)

lemma Node.withLinks_type {n : Node} {d : Int16} : (n.withLinks d).info.type = n.info.type := rfl

lemma Node.withLinks_size {n : Node} {d : Int16} : (n.withLinks d).size = n.size := rfl

lemma blocksFor_freed {m : Meta} : blocksFor (Node.size { info := m.freed }) = 0 := by
  have hsize : Node.size { info := m.freed } = 0 := if_neg (show FileType.free ≠ .dir by decide)
  rw [hsize]
  decide

lemma countP_linkTo {i : Inum} (es : List Dirent) :
    es.countP (linkTo i) = es.countP (plainTo i) + es.countP (upTo i) := by
  induction es with
  | nil => rfl
  | cons e es ih =>
    have hone : (if linkTo i e then 1 else 0) =
        (if plainTo i e then 1 else 0) + if upTo i e then 1 else 0 := by
      obtain ⟨c, n⟩ := e
      by_cases hdot : n = dot
      · simp [hdot, upTo, show (dot == dotdot) = false by decide]
      by_cases hdd : n = dotdot
      · simp [hdd, upTo]
      rw [linkTo_plain ⟨hdot, hdd⟩, plainTo_plain ⟨hdot, hdd⟩]
      simp [upTo, hdd]
    rw [List.countP_cons, List.countP_cons, List.countP_cons, ih]
    omega

namespace Store

variable {v : Store} {ip dp d i j k : ℕ} {name : Name} {q : Dirent → Bool} {t : FileType}

lemma count_linkTo : v.count (linkTo i) = v.count (plainTo i) + v.count (upTo i) := by
  have hnode : Node.count (linkTo i) = fun n => n.count (plainTo i) + n.count (upTo i) := by
    funext n
    unfold Node.count
    split
    · exact countP_linkTo n.ents
    · rfl
  unfold count
  rw [hnode]
  exact tally_add

lemma removed_node :
    (v.removed dp k t).node j = if j = dp then (v.node dp).withoutEntry k t else v.node j := by
  unfold removed Node.withoutEntry
  by_cases ht : t = .dir
  · simp only [if_pos ht]
    rw [addLinks_node]
    by_cases hj : j = dp <;> simp [hj]
  · by_cases hj : j = dp <;> simp [ht, hj]

lemma removed_sameUse (v : Store) (dp k : ℕ) (t : FileType) : SameUse v (v.removed dp k t) := by
  unfold removed
  by_cases ht : t = .dir
  · simp only [if_pos ht]
    exact ⟨rfl, rfl, rfl, rfl, rfl⟩
  · simp only [if_neg ht]
    exact ⟨rfl, rfl, rfl, rfl, rfl⟩

lemma addLinks_nfree {n : Int16} : (v.addLinks i n).nfree = v.nfree := rfl

lemma freeInode_nfree : (v.freeInode i).nfree = v.nfree + blocksFor (v.node i).size := rfl

lemma removed_nfree : (v.removed dp k t).nfree = v.nfree := by
  unfold removed
  by_cases ht : t = .dir
  · simp only [if_pos ht]
    rfl
  · simp only [if_neg ht]
    rfl

namespace Consistent

section
variable (hv : v.Consistent)
include hv

lemma shaped_of_up (hd : v.type d = .dir) {e : Dirent}
    (he : e ∈ (v.node d).ents) (hlive : e.inum ≠ 0) (hname : e.name = dotdot) :
    Shaped d e.inum (v.node d).ents := by
  obtain ⟨par, hshape⟩ := hv.shaped d hd
  obtain ⟨rest, hents, hrest⟩ := hshape.exists_rest
  rw [hents] at he
  rcases List.mem_cons.mp he with rfl | he
  · exact absurd hname (show ¬ dot = dotdot by decide)
  rcases List.mem_cons.mp he with rfl | he
  · exact hshape
  · exact absurd hname (hrest e he hlive).2

section
variable (hip : v.type ip = .dir) (hempty : v.Empty ip) (hroot : ip ≠ ROOTINO)
include hip hempty hroot

/-- An empty directory is no parent. -/
lemma no_child (hd : v.type d = .dir) : ¬ Shaped d
    ip (v.node d).ents := by
  intro hshape
  by_cases hdr : d = ROOTINO
  · subst hdr
    exact hroot (hshape.unique hv.rootParent)
  have hone : 0 < v.count (plainTo d) := by
    rw [hv.named d hd, if_neg hdr]
    exact Nat.one_pos
  obtain ⟨d', hd', e, he, hqe⟩ := Store.exists_of_count_pos hone
  obtain ⟨hinum, hplain⟩ := inum_of_plainTo hqe
  have hpar := hv.parent d d' hd hd' e he hinum hplain
  rw [hpar.unique hshape] at he
  obtain ⟨par, hips⟩ := hv.shaped ip hip
  have hzero := hips.countP_of_empty hempty (plainTo_free hpar.self_ne)
  rw [plainTo_dot, plainTo_dotdot] at hzero
  have := List.countP_pos_iff.mpr ⟨e, he, hqe⟩
  simp only [Bool.false_eq_true, if_false] at hzero
  omega

lemma count_empty : v.count (linkTo ip) = 1 := by
  have hup : v.count (upTo ip) = 0 := by
    by_contra hpos
    obtain ⟨d, hd, e, he, hqe⟩ := Store.exists_of_count_pos (Nat.pos_of_ne_zero hpos)
    have hq : e.inum = ip ∧ e.name = dotdot := by simpa [upTo] using hqe
    have hlive : e.inum ≠ 0 := by
      rw [hq.1]
      exact hv.ne_zero (by rw [hip]; decide)
    have := hv.shaped_of_up hd he hlive hq.2
    rw [hq.1] at this
    exact hv.no_child hip hempty hroot hd this
  rw [count_linkTo, hup, hv.named ip hip, if_neg hroot]

end

lemma notRoot (hdp : v.type dp = .dir) {e : Dirent}
    (he : e ∈ (v.node dp).ents) (hplain : Name.Plain e.name) : e.inum ≠ ROOTINO := by
  intro heq
  have hpos := Store.count_pos (q := plainTo ROOTINO) hdp (hv.dir_lt hdp) he (by
    simp [plainTo, heq, hplain])
  rw [hv.named ROOTINO hv.root, if_pos rfl] at hpos
  exact absurd hpos (lt_irrefl 0)

lemma count_parent (hdp : v.type dp = .dir) (hip : v.type ip = .dir)
    (hne : ip ≠ dp) (hshape : Shaped ip dp (v.node ip).ents) : 2 ≤ v.count (linkTo dp) := by
  have hrow : ∀ d, v.type d = .dir → Shaped d dp (v.node d).ents →
      1 ≤ (v.node d).count (upTo dp) := by
    intro d hd hs
    obtain ⟨rest, hents, -⟩ := hs.exists_rest
    rw [Node.count_dir hd]
    exact List.countP_pos_iff.mpr ⟨⟨dp, dotdot⟩, by rw [hents]; simp, by simp [upTo]⟩
  have hmem : ∀ d, v.type d = .dir → d ∈ Finset.range v.ninodes := fun d hd =>
    Finset.mem_range.mpr (hv.dir_lt hd)
  rw [count_linkTo]
  by_cases hroot : dp = ROOTINO
  · have h2 := add_le_tally (w := Node.count (upTo dp)) (f := v.node) (hmem ip hip) (hmem dp hdp)
      hne
    have h3 := hrow ip hip hshape
    have h4 := hrow dp hdp (by rw [hroot]; exact hv.rootParent)
    unfold count
    omega
  have h1 := hv.named dp hdp
  have h2 := le_tally (w := Node.count (upTo dp)) (f := v.node) (hmem ip hip)
  have h3 := hrow ip hip hshape
  rw [if_neg hroot] at h1
  unfold count at h1 ⊢
  omega

end
end Consistent

/-- Entry `k` of `dp` names the inode `ip`, which can be removed; a directory is not in use. -/
structure Removable (v : Store) (ip dp k : ℕ) (name : Name) : Prop where
  dir : v.type dp = .dir
  entry : (v.node dp).ents[k]? = some ⟨ip, name⟩
  live : ip ≠ 0
  plain : Name.Plain name
  empty : v.type ip = .dir → v.Empty ip
  unused : v.type ip = .dir → v.ref ip = 0

namespace Removable

lemma mem (h : v.Removable ip dp k name) : ⟨ip, name⟩ ∈ (v.node dp).ents :=
  List.mem_of_getElem? h.entry

section
variable (h : v.Removable ip dp k name) (hv : v.Consistent)
include h hv

lemma type_ne : v.type ip ≠ .free := hv.entry dp h.dir _ h.mem h.live

lemma ne : ip ≠ dp := hv.noSelf dp h.dir _ h.mem h.live h.plain

lemma notRoot : ip ≠ ROOTINO := hv.notRoot h.dir h.mem h.plain

lemma shaped (hdir : v.type ip = .dir) : Shaped ip dp (v.node ip).ents :=
  hv.parent ip dp hdir h.dir _ h.mem rfl h.plain

lemma notCwd (p : Pid) : v.cwd p ≠ some ip := by
  intro hp
  have hpos := hv.ref_cwd hp
  rw [h.unused (hv.cwdDir p ip hp)] at hpos
  exact absurd hpos (lt_irrefl 0)

lemma nlink_ip : ((v.node ip).withLinks (-1)).info.nlink.toInt + 1 = v.count (linkTo ip) := by
  have hlink := hv.nlink ip (h.type_ne hv)
  have hpos := Store.count_pos (q := linkTo ip) h.dir (hv.dir_lt h.dir) h.mem
    (by simp [linkTo_plain h.plain])
  obtain ⟨c, hc⟩ : ∃ c, v.count (linkTo ip) = c + 1 := ⟨_, (Nat.sub_add_cancel hpos).symm⟩
  have hle := hv.count_lt (q := linkTo ip)
  have hsub := toInt_sub_one (hlink.trans (congrArg _ hc)) (by omega)
  rw [hc]
  exact congrArg (· + 1) hsub

lemma nlink_dp : ((v.node dp).withoutEntry k (v.type ip)).info.nlink.toInt +
      (if v.type ip = .dir then 1 else 0) = v.count (linkTo dp) ∧
    ((v.node dp).withoutEntry k (v.type ip)).info.nlink ≠ 0 := by
  have hlink := hv.nlink dp (by rw [h.dir]; decide)
  unfold Node.withoutEntry
  by_cases ht : v.type ip = .dir
  · have hge := hv.count_parent h.dir ht (h.ne hv) (h.shaped hv ht)
    obtain ⟨c, hc⟩ : ∃ c, v.count (linkTo dp) = c + 1 :=
      ⟨_, (Nat.sub_add_cancel (Nat.one_le_of_lt hge)).symm⟩
    have hle := hv.count_lt (q := linkTo dp)
    have hsub := toInt_sub_one (hlink.trans (congrArg _ hc)) (by omega)
    simp only [if_pos ht]
    constructor
    · rw [hc]
      exact congrArg (· + 1) hsub
    intro hzero
    have := hsub.symm.trans (nlink_eq_zero_iff.mp hzero)
    omega
  · simp only [if_neg ht, add_zero]
    exact ⟨hlink, hv.nlink_ne_zero h.dir⟩

lemma unlinked_of_dir (hdir : v.type ip = .dir) :
    ((v.node ip).withLinks (-1)).info.nlink = 0 ∧ v.ref ip = 0 := by
  have hlink := h.nlink_ip hv
  rw [hv.count_empty hdir (h.empty hdir) (h.notRoot hv)] at hlink
  exact ⟨nlink_eq_zero_iff.mpr (by omega), h.unused hdir⟩

lemma unlinked_type_ne : ((v.node ip).unlinked (v.ref ip)).info.type ≠ .dir := by
  unfold Node.unlinked
  split
  case isTrue => exact (by decide : FileType.free ≠ .dir)
  case isFalse hdead =>
    rw [Node.withLinks_type]
    exact fun hdir => hdead (h.unlinked_of_dir hv hdir)

lemma dead_of_free (hfree : ((v.node ip).unlinked (v.ref ip)).info.type = .free) :
    ((v.node ip).withLinks (-1)).info.nlink = 0 ∧ v.ref ip = 0 := by
  unfold Node.unlinked at hfree
  split at hfree
  case isTrue hdead => exact hdead
  case isFalse =>
    rw [Node.withLinks_type] at hfree
    exact absurd hfree (h.type_ne hv)

/-- `sys_unlink` frees the inode at once or leaves it. -/
lemma unlinked_eq :
    v.unlinked ip dp k = ((v.removed dp k (v.type ip)).addLinks ip (-1)).reap ip := by
  have hdp : ((v.removed dp k (v.type ip)).node dp).info.nlink ≠ 0 := by
    rw [removed_node, if_pos rfl]
    exact (h.nlink_dp hv).2
  unfold unlinked
  rw [reap_of_nlink hdp]

lemma reap_cases : (v.unlinked ip dp k).node ip = (v.node ip).unlinked (v.ref ip) ∧
    SameUse v (v.unlinked ip dp k) ∧
    (v.unlinked ip dp k).nfree + blocksFor ((v.node ip).unlinked (v.ref ip)).size =
      v.nfree + blocksFor (v.node ip).size := by
  have hne := h.ne hv
  have huse := removed_sameUse v dp k (v.type ip)
  have hnode : ((v.removed dp k (v.type ip)).addLinks ip (-1)).node ip =
      (v.node ip).withLinks (-1) := by
    rw [addLinks_node, if_pos rfl, removed_node, if_neg hne]
  have htype : ((v.removed dp k (v.type ip)).addLinks ip (-1)).type ip = v.type ip :=
    (congrArg (·.info.type) hnode).trans Node.withLinks_type
  have href : ((v.removed dp k (v.type ip)).addLinks ip (-1)).ref = v.ref := huse.ref
  rw [h.unlinked_eq hv]
  unfold reap Node.unlinked
  rw [htype, hnode, href]
  by_cases hdead : ((v.node ip).withLinks (-1)).info.nlink = 0 ∧ v.ref ip = 0
  · rw [if_pos ⟨h.type_ne hv, hdead⟩, if_pos hdead]
    refine ⟨?_, ⟨huse.ninodes, huse.ref, huse.file, huse.cwd, huse.ofile⟩, ?_⟩
    · rw [freeInode_node, if_pos rfl, hnode]
    · rw [freeInode_nfree, hnode, Node.withLinks_size, addLinks_nfree, removed_nfree,
        blocksFor_freed, add_zero]
  rw [if_neg fun hd => hdead hd.2, if_neg hdead]
  refine ⟨hnode, ⟨huse.ninodes, huse.ref, huse.file, huse.cwd, huse.ofile⟩, ?_⟩
  rw [Node.withLinks_size, addLinks_nfree, removed_nfree]

lemma edit : Edit v (v.unlinked ip dp k) dp ip ((v.node dp).withoutEntry k (v.type ip))
      ((v.node ip).unlinked (v.ref ip)) where
  toSameUse := (h.reap_cases hv).2.1
  node := by
    funext j
    by_cases hj : j = ip
    · rw [hj, (h.reap_cases hv).1, Function.update_self]
    rw [h.unlinked_eq hv, reap_node_of_ne hj, addLinks_node, if_neg hj, removed_node,
      Function.update_of_ne hj]
    by_cases hjd : j = dp
    · rw [hjd, if_pos rfl, Function.update_self]
    · rw [if_neg hjd, Function.update_of_ne hjd]
  ne := h.ne hv
  dir := h.dir
  range := hv.range ip (h.type_ne hv)
  info := by
    unfold Node.withoutEntry
    simp only
    split
    · rw [Node.withLinks_type]
      exact h.dir
    · exact h.dir

end

lemma withoutEntry_ents {n : Node} : (n.withoutEntry k t).ents = n.ents.set k ⟨0, []⟩ := by
  unfold Node.withoutEntry
  simp only
  split <;> rfl

section
variable (h : v.Removable ip dp k name) (hv : v.Consistent)
include h hv

/-- The counts after `sys_unlink`: the name is gone, and with a directory its `.` and `..`. -/
lemma count (hq : ∀ e : Dirent, e.inum = 0 → q e = false) :
    (v.unlinked ip dp k).count q + (if q ⟨ip, name⟩ then 1 else 0) +
      (if v.type ip = .dir then (if q ⟨ip, dot⟩ then 1 else 0) + (if q ⟨dp, dotdot⟩ then 1 else 0)
      else 0) = v.count q := by
  have hcount := (h.edit hv).count hv (q := q)
  have hx : ((v.node dp).withoutEntry k (v.type ip)).count q + (if q ⟨ip, name⟩ then 1 else 0) =
      (v.node dp).count q := by
    rw [Node.count_dir h.dir, Node.count_dir (h.edit hv).info, withoutEntry_ents]
    exact countP_clear hq h.entry
  have hy : ((v.node ip).unlinked (v.ref ip)).count q = 0 :=
    Node.count_of_ne (h.unlinked_type_ne hv)
  have hold : (v.node ip).count q =
      if v.type ip = .dir then (if q ⟨ip, dot⟩ then 1 else 0) + (if q ⟨dp, dotdot⟩ then 1 else 0)
      else 0 := by
    by_cases ht : v.type ip = .dir
    · rw [Node.count_dir ht, if_pos ht]
      exact (h.shaped hv ht).countP_of_empty (h.empty ht) hq
    · rw [Node.count_of_ne ht, if_neg ht]
  omega

lemma nlink : ∀ i, (v.unlinked ip dp k).type i ≠ .free →
      ((v.unlinked ip dp k).node i).info.nlink.toInt = (v.unlinked ip dp k).count (linkTo i) := by
  intro i hi
  have hedit := h.edit hv
  by_cases hip : i = ip
  · subst hip
    rw [hedit.type_b] at hi
    have hdead : ¬ (((v.node i).withLinks (-1)).info.nlink = 0 ∧ v.ref i = 0) := by
      intro hdead
      unfold Node.unlinked at hi
      rw [if_pos hdead] at hi
      exact hi rfl
    have hcount := h.count hv (linkTo_free h.live)
    have hnd : v.type i ≠ .dir := fun hdir => hdead (h.unlinked_of_dir hv hdir)
    rw [linkTo_plain h.plain, if_neg hnd] at hcount
    have hlink := h.nlink_ip hv
    rw [hedit.node_b]
    unfold Node.unlinked
    rw [if_neg hdead]
    simp only [decide_true, if_true] at hcount
    omega
  rw [hedit.type_of_ne hip] at hi
  have hcount := h.count hv (linkTo_free (hv.ne_zero hi))
  rw [linkTo_plain h.plain, linkTo_dot, linkTo_dotdot] at hcount
  simp only [decide_eq_true_eq, Ne.symm hip, if_false, Bool.false_eq_true] at hcount
  by_cases hid : i = dp
  · rw [hid] at hcount ⊢
    rw [hedit.node_dp]
    have hlink := (h.nlink_dp hv).1
    simp only [if_true, zero_add] at hcount
    by_cases ht : v.type ip = .dir
    · rw [if_pos ht] at hlink hcount
      omega
    · rw [if_neg ht] at hlink hcount
      omega
  · rw [hedit.node_other hip hid, hv.nlink i hi, ← hcount]
    simp [Ne.symm hid]

lemma blocks : (v.unlinked ip dp k).blocks = v.blocks := by
  have hedit := h.edit hv
  have hblocks := Store.blocks_two hedit.ninodes hedit.node (hv.dir_lt h.dir) hedit.range.2 hedit.ne
  have hx : ((v.node dp).withoutEntry k (v.type ip)).size = (v.node dp).size := by
    unfold Node.size
    rw [if_pos hedit.info, if_pos (show (v.node dp).info.type = .dir from h.dir), withoutEntry_ents,
      List.length_set]
  have hfree := (h.reap_cases hv).2.2
  rw [hx] at hblocks
  omega

lemma sound : Edit.Sound v (v.unlinked ip dp k) dp ip ((v.node dp).withoutEntry k (v.type ip))
      ((v.node ip).unlinked (v.ref ip)) where
  notRoot := h.notRoot hv
  shaped := by
    intro par hpar
    rw [withoutEntry_ents]
    exact hpar.clear h.entry h.plain
  entries := by
    intro e he hlive
    rw [withoutEntry_ents] at he
    rcases List.mem_or_eq_of_mem_set he with hmem | rfl
    · exact .inl hmem
    · exact absurd rfl hlive
  newDir := fun hdir => absurd hdir (h.unlinked_type_ne hv)
  unnamed := by
    intro hfree
    have hlink := h.nlink_ip hv
    rw [nlink_eq_zero_iff.mp (h.dead_of_free hv hfree).1] at hlink
    have hcount := h.count hv (linkTo_free h.live)
    rw [linkTo_plain h.plain] at hcount
    simp only [decide_true, if_true] at hcount
    omega
  notCwd := h.notCwd hv
  notOpen := by
    intro hfree f hf hip
    have href := hv.ref_eq (i := ip)
    rw [(h.dead_of_free hv hfree).2] at href
    have hpos : 0 < v.files ip := tally_ite_pos_iff.mpr ⟨f, Finset.mem_univ f, hf, hip⟩
    omega
  nlink := h.nlink hv
  named := by
    intro d hd
    have hedit := h.edit hv
    have hne : d ≠ ip := by
      rintro rfl
      rw [hedit.type_b] at hd
      exact h.unlinked_type_ne hv hd
    rw [hedit.type_of_ne hne] at hd
    have hcount := h.count hv (plainTo_free (hv.ne_zero (by rw [hd]; decide)))
    rw [plainTo_plain h.plain, plainTo_dot, plainTo_dotdot] at hcount
    rw [← hv.named d hd, ← hcount]
    simp [hne.symm]
  kept := by
    intro hfree hzero
    unfold Node.unlinked at hfree hzero
    split at hfree
    case isTrue => exact absurd rfl hfree
    case isFalse hdead =>
      rw [if_neg hdead] at hzero
      exact Nat.pos_of_ne_zero fun href => hdead ⟨hzero, href⟩
  capacity := by
    rw [h.blocks hv]
    exact hv.capacity

lemma consistent : (v.unlinked ip dp k).Consistent :=
  (h.edit hv).consistent (h.sound hv) hv (h.nlink_dp hv).2

end
end Removable

end Store
end Xv6.File
