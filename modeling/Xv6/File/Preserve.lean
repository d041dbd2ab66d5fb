import Xv6.File.Consistent

/-!
# The calls keep a file system consistent

The calls that create and remove names change two inodes: a directory, in which
one entry changes, and the inode that the entry names. `Edit.consistent` says
what has to be shown about the two so that the whole file system stays
consistent.
-/

namespace Xv6.File
open Fs Lib Function

namespace Store

/-- The same processes, open files and references. -/
structure SameUse (v w : Store) : Prop where
  ninodes : w.ninodes = v.ninodes
  ref : w.ref = v.ref
  file : w.file = v.file
  cwd : w.cwd = v.cwd
  ofile : w.ofile = v.ofile

/-- The directory `dp` becomes `x` and the inode `b` becomes `y`. -/
structure Edit (v w : Store) (dp b : Inum) (x y : Node) : Prop extends SameUse v w where
  node : w.node = update (update v.node dp x) b y
  ne : b ≠ dp
  dir : v.type dp = .dir
  range : 1 ≤ b ∧ b < v.ninodes
  info : x.info.type = .dir

variable {v w : Store} {dp b i j : Inum} {x y : Node} {q : Dirent → Bool}

namespace Edit

section
variable (h : Edit v w dp b x y)
include h

lemma node_dp : w.node dp = x := by
  rw [h.node, update_of_ne h.ne.symm, update_self]

lemma node_b : w.node b = y := by
  rw [h.node, update_self]

lemma node_other (hb : j ≠ b) (hdp : j ≠ dp) : w.node j = v.node j := by
  rw [h.node, update_of_ne hb, update_of_ne hdp]

lemma type_b : w.type b = y.info.type := by
  unfold Store.type
  rw [h.node_b]

lemma type_of_ne (hb : j ≠ b) : w.type j = v.type j := by
  by_cases hdp : j = dp
  · rw [hdp, h.dir]
    unfold Store.type
    rw [h.node_dp, h.info]
  · unfold Store.type
    rw [h.node_other hb hdp]

lemma count (hv : v.Consistent) :
    w.count q + (v.node dp).count q + (v.node b).count q = v.count q + x.count q + y.count q :=
  Store.count_two h.ninodes h.node (hv.dir_lt h.dir) h.range.2 h.ne

end

/-- What has to be shown about the two inodes. -/
structure Sound (v w : Store) (dp b : Inum) (x y : Node) : Prop where
  notRoot : b ≠ ROOTINO
  shaped : ∀ par, Shaped dp par (v.node dp).ents → Shaped dp par x.ents
  entries : ∀ e ∈ x.ents, e.inum ≠ 0 → e ∈ (v.node dp).ents ∨ e.inum = b
  newDir : y.info.type = .dir → v.type b = .free ∧ Shaped b dp y.ents ∧
    ∀ e ∈ y.ents, e.inum ≠ 0 → e = ⟨b, dot⟩ ∨ e = ⟨dp, dotdot⟩
  unnamed : y.info.type = .free → w.count (linkTo b) = 0
  notCwd : ∀ p, v.cwd p ≠ some b
  notOpen : y.info.type = .free → ∀ f, (v.file f).type = .inode → (v.file f).ip ≠ b
  nlink : ∀ i, w.type i ≠ .free → (w.node i).info.nlink.toInt = w.count (linkTo i)
  named : ∀ d, w.type d = .dir → w.count (plainTo d) = if d = ROOTINO then 0 else 1
  kept : y.info.type ≠ .free → y.info.nlink = 0 → 0 < v.ref b
  capacity : w.blocks ≤ FSSIZE

lemma mem_ents (h : Edit v w dp b x y) (hs : Sound v w dp b x y) {d : Inum} {e : Dirent}
    (hd : w.type d = .dir) (he : e ∈ (w.node d).ents) (hlive : e.inum ≠ 0) :
    (d ≠ b ∧ v.type d = .dir ∧ e ∈ (v.node d).ents) ∨ (d = dp ∧ e.inum = b) ∨
      (d = b ∧ v.type b = .free ∧ (e = ⟨b, dot⟩ ∨ e = ⟨dp, dotdot⟩)) := by
  by_cases hb : d = b
  · rw [hb, h.type_b] at hd
    rw [hb, h.node_b] at he
    exact .inr (.inr ⟨hb, (hs.newDir hd).1, (hs.newDir hd).2.2 e he hlive⟩)
  have hd' : v.type d = .dir := (h.type_of_ne hb).symm.trans hd
  by_cases hdp : d = dp
  · rw [hdp, h.node_dp] at he
    rcases hs.entries e he hlive with hold | hnew
    · exact .inl ⟨hb, hd', hdp ▸ hold⟩
    · exact .inr (.inl ⟨hdp, hnew⟩)
  · rw [h.node_other hb hdp] at he
    exact .inl ⟨hb, hd', he⟩

lemma shaped_of (h : Edit v w dp b x y) (hs : Sound v w dp b x y) {d par : Inum} (hb : d ≠ b)
    (hd : Shaped d par (v.node d).ents) : Shaped d par (w.node d).ents := by
  by_cases hdp : d = dp
  · rw [hdp, h.node_dp]
    exact hs.shaped par (hdp ▸ hd)
  · rwa [h.node_other hb hdp]

section
variable (h : Edit v w dp b x y) (hs : Sound v w dp b x y) (hv : v.Consistent)
include h hs hv

lemma shaped_w {d : Inum} (hd : w.type d = .dir) : ∃ par, Shaped d par (w.node d).ents := by
  by_cases hb : d = b
  · rw [hb, h.type_b] at hd
    rw [hb, h.node_b]
    exact ⟨dp, (hs.newDir hd).2.1⟩
  · obtain ⟨par, hpar⟩ := hv.shaped d ((h.type_of_ne hb).symm.trans hd)
    exact ⟨par, h.shaped_of hs hb hpar⟩

/-- An inode that is free now is not named by any entry. -/
lemma noDangling : w.NoDangling := by
  intro d hd e he hlive
  by_cases heb : e.inum = b
  · intro hfree
    rw [heb, h.type_b] at hfree
    have hdlt : d < w.ninodes := by
      rw [h.ninodes]
      by_cases hb : d = b
      · rw [hb]
        exact h.range.2
      · exact hv.dir_lt ((h.type_of_ne hb).symm.trans hd)
    have hname : e.name = dot := by
      by_contra hname
      have := Store.count_pos (q := linkTo b) hd hdlt he (by simp [linkTo, heb, hname])
      have := hs.unnamed hfree
      omega
    obtain ⟨par, ⟨rest, hents, hrest⟩, -, -⟩ := h.shaped_w hs hv hd
    rw [hents] at he
    rcases List.mem_cons.mp he with rfl | he
    · rw [show d = b from heb, h.type_b, hfree] at hd
      exact absurd hd (by decide)
    rcases List.mem_cons.mp he with rfl | he
    · exact absurd hname (show ¬ dotdot = dot by decide)
    · exact (hrest e he hlive).1 hname
  rw [h.type_of_ne heb]
  rcases h.mem_ents hs hd he hlive with ⟨-, hd', he'⟩ | ⟨-, heq⟩ | ⟨-, -, rfl | rfl⟩
  · exact hv.entry d hd' e he' hlive
  · exact absurd heq heb
  · exact absurd rfl heb
  · rw [h.dir]
    decide

lemma parent {d d' : Inum} (hd : w.type d = .dir) (hd' : w.type d' = .dir) {e : Dirent}
    (he : e ∈ (w.node d').ents) (hed : e.inum = d) (hplain : Name.Plain e.name) :
    Shaped d d' (w.node d).ents := by
  obtain ⟨_, hshape⟩ := h.shaped_w hs hv hd
  have hlive : e.inum ≠ 0 := by rw [hed]; exact hshape.self_ne
  by_cases hb : d = b
  · have hyd : y.info.type = .dir := by rw [← h.type_b, ← hb, hd]
    rcases h.mem_ents hs hd' he hlive with ⟨-, hold, hmem⟩ | ⟨rfl, -⟩ | ⟨-, -, rfl | rfl⟩
    · have := hv.entry d' hold e hmem hlive
      rw [hed, hb] at this
      exact absurd (hs.newDir hyd).1 this
    · rw [hb, h.node_b]
      exact (hs.newDir hyd).2.1
    · exact absurd rfl hplain.1
    · exact absurd rfl hplain.2
  have hvd : v.type d = .dir := (h.type_of_ne hb).symm.trans hd
  rcases h.mem_ents hs hd' he hlive with ⟨-, hold, hmem⟩ | ⟨-, heq⟩ | ⟨-, -, rfl | rfl⟩
  · exact h.shaped_of hs hb (hv.parent d d' hvd hold e hmem hed hplain)
  · exact absurd (hed.symm.trans heq) hb
  · exact absurd rfl hplain.1
  · exact absurd rfl hplain.2

lemma noSelf {d : Inum} (hd : w.type d = .dir) {e : Dirent} (he : e ∈ (w.node d).ents)
    (hlive : e.inum ≠ 0) (hplain : Name.Plain e.name) : e.inum ≠ d := by
  rcases h.mem_ents hs hd he hlive with ⟨-, hold, hmem⟩ | ⟨rfl, heq⟩ | ⟨-, -, rfl | rfl⟩
  · exact hv.noSelf d hold e hmem hlive hplain
  · rw [heq]
    exact h.ne
  · exact absurd rfl hplain.1
  · exact absurd rfl hplain.2

lemma kept (hdir : x.info.nlink ≠ 0) : w.Kept := by
  intro i htype hlink
  rw [h.ref]
  by_cases hb : i = b
  · rw [hb] at htype hlink ⊢
    rw [h.type_b] at htype
    rw [h.node_b] at hlink
    exact hs.kept htype hlink
  rw [h.type_of_ne hb] at htype
  by_cases hdp : i = dp
  · rw [hdp, h.node_dp] at hlink
    exact absurd hlink hdir
  · rw [h.node_other hb hdp] at hlink
    exact hv.kept i htype hlink

lemma consistent (hdir : x.info.nlink ≠ 0) : w.Consistent where
  root := (h.type_of_ne hs.notRoot.symm).trans hv.root
  range := by
    intro i hi
    rw [h.ninodes]
    by_cases hb : i = b
    · rw [hb]
      exact h.range
    · exact hv.range i (h.type_of_ne hb ▸ hi)
  shaped := fun d hd => h.shaped_w hs hv hd
  entry := h.noDangling hs hv
  noSelf := fun d hd e he => h.noSelf hs hv hd he
  nlink := hs.nlink
  named := hs.named
  parent := fun d d' hd hd' e he => h.parent hs hv hd hd' he
  rootParent := h.shaped_of hs hs.notRoot.symm hv.rootParent
  refs := by
    intro i
    unfold cwds files
    rw [h.ref, h.cwd, h.file]
    exact hv.refs i
  cwdDir := by
    intro p i hi
    rw [h.cwd] at hi
    rw [h.type_of_ne fun heq => hs.notCwd p (heq ▸ hi)]
    exact hv.cwdDir p i hi
  fileType := by
    intro f hf
    rw [h.file] at hf ⊢
    by_cases hb : (v.file f).ip = b
    · rw [hb, h.type_b]
      exact fun hfree => hs.notOpen hfree f hf hb
    · rw [h.type_of_ne hb]
      exact hv.fileType f hf
  descriptors := by
    intro f
    unfold fds
    rw [h.file, h.ofile]
    exact hv.descriptors f
  closed := by
    rw [h.file]
    exact hv.closed
  kept := h.kept hs hv hdir
  capacity := hs.capacity

end
end Edit

end Store

variable {n : Int16}

lemma toInt_add_one {c : ℕ} (h : n.toInt = c) (hc : c ≤ 32000) :
    (n + 1).toInt = (c + 1 : ℕ) := by
  rw [Int16.toInt_add, h, show (1 : Int16).toInt = 1 from rfl, Int.bmod_def]
  omega

lemma toInt_sub_one {c : ℕ} (h : n.toInt = (c + 1 : ℕ)) (hc : c ≤ 32000) :
    (n + -1).toInt = c := by
  rw [Int16.toInt_add, h, show (-1 : Int16).toInt = -1 from rfl, Int.bmod_def]
  omega

lemma nlink_eq_zero_iff : n = 0 ↔ n.toInt = 0 := by
  rw [← Int16.toInt_inj]
  rfl

lemma blocksFor_mono {a b : ℕ} (h : a ≤ b) : blocksFor a ≤ blocksFor b := by
  have hdiv : (a + (BSIZE - 1)) / BSIZE ≤ (b + (BSIZE - 1)) / BSIZE :=
    Nat.div_le_div_right (by omega)
  unfold blocksFor
  simp only
  split <;> split <;> omega

lemma blocksFor_insertEntry {es : List Dirent} {e : Dirent} :
    blocksFor (DIRENTSIZE * (insertEntry es e).length) =
      blocksFor (DIRENTSIZE * es.length) + entryCost es := by
  rw [length_insertEntry]
  unfold entryCost growth
  split
  · rfl
  have := blocksFor_mono (Nat.mul_le_mul_left DIRENTSIZE (Nat.le_succ es.length))
  simp only [Nat.succ_eq_add_one] at this
  omega

namespace Store.Consistent

variable {v : Store} {ip dp : Inum} {name : Name} {q : Dirent → Bool}

lemma edit_linked (name : Name) (hv : v.Consistent) (hip : v.type ip ≠ .free)
    (hnd : v.type ip ≠ .dir) (hdp : v.type dp = .dir) :
    Edit v ((v.addLinks ip 1).addEntry dp ⟨ip, name⟩) dp ip
      ((v.node dp).withEntry ⟨ip, name⟩) ((v.node ip).withLinks 1) where
  ninodes := rfl
  ref := rfl
  file := rfl
  cwd := rfl
  ofile := rfl
  node := by
    have hne : dp ≠ ip := fun h => hnd (h ▸ hdp)
    funext j
    rw [addEntry_node, addLinks_node, addLinks_node]
    by_cases hj : j = ip
    · subst hj
      simp [hne.symm]
    by_cases hjd : j = dp
    · subst hjd
      simp [hj]
    · simp [hj, hjd]
  ne := fun h => hnd (h ▸ hdp)
  dir := hdp
  range := hv.range ip hip
  info := hdp

lemma linked_count (hv : v.Consistent) (hip : v.type ip ≠ .free) (hnd : v.type ip ≠ .dir)
    (hdp : v.type dp = .dir) (hq : ∀ e : Dirent, e.inum = 0 → q e = false) :
    ((v.addLinks ip 1).addEntry dp ⟨ip, name⟩).count q =
      v.count q + if q ⟨ip, name⟩ then 1 else 0 := by
  have hcount := (hv.edit_linked name hip hnd hdp).count hv (q := q)
  have hx : ((v.node dp).withEntry ⟨ip, name⟩).count q =
      (v.node dp).count q + if q ⟨ip, name⟩ then 1 else 0 := by
    rw [Node.count_dir hdp, Node.count_dir (n := Node.withEntry _ _) hdp]
    exact countP_insertEntry hq
  have hy : ((v.node ip).withLinks 1).count q = (v.node ip).count q := by
    rw [Node.count_of_ne hnd, Node.count_of_ne (n := Node.withLinks _ _) hnd]
  omega

lemma linked_nlink (ip dp : Inum) (name : Name) (hv : v.Consistent) : ∀ i, v.type i ≠ .free →
      (((v.addLinks ip 1).addEntry dp ⟨ip, name⟩).node i).info.nlink.toInt =
        (v.count (linkTo i) + (if i = ip then 1 else 0) : ℕ) := by
  intro i hi
  rw [addEntry_info, addLinks_node]
  split
  case isTrue heq =>
    rw [← heq]
    exact toInt_add_one (hv.nlink i hi) hv.count_lt
  case isFalse => simpa using hv.nlink i hi

section
variable (hv : v.Consistent) (hip : v.type ip ≠ .free) (hnd : v.type ip ≠ .dir)
  (hdp : v.type dp = .dir)

include hv hip hnd hdp

lemma linked_blocks (hfits : (v.addLinks ip 1).Fits dp) :
    ((v.addLinks ip 1).addEntry dp ⟨ip, name⟩).blocks = v.blocks := by
  have hedit := hv.edit_linked name hip hnd hdp
  have hblocks := Store.blocks_two hedit.ninodes hedit.node (hv.dir_lt hdp) hedit.range.2 hedit.ne
  have hx : blocksFor ((v.node dp).withEntry ⟨ip, name⟩).size =
      blocksFor (v.node dp).size + entryCost (v.node dp).ents := by
    have hdp' : (v.node dp).info.type = .dir := hdp
    unfold Node.size
    rw [if_pos hdp', if_pos (show (Node.withEntry _ _).info.type = .dir from hdp')]
    exact blocksFor_insertEntry
  have hy : ((v.node ip).withLinks 1).size = (v.node ip).size := rfl
  have hnfree : ((v.addLinks ip 1).addEntry dp ⟨ip, name⟩).nfree =
      v.nfree - entryCost (v.node dp).ents := by
    unfold addEntry
    rw [addLinks_ents]
    rfl
  have hle : entryCost (v.node dp).ents ≤ v.nfree := by
    unfold Fits at hfits
    rwa [addLinks_ents] at hfits
  rw [hx, hy, hnfree] at hblocks
  omega

section
variable (hnone : v.lookup dp name = none) (hfits : (v.addLinks ip 1).Fits dp)
include hnone hfits

lemma sound_linked :
    Edit.Sound v ((v.addLinks ip 1).addEntry dp ⟨ip, name⟩) dp ip
      ((v.node dp).withEntry ⟨ip, name⟩) ((v.node ip).withLinks 1) := by
  have hplain : Name.Plain name := hv.plain_of_lookup hdp hnone
  have hedit := hv.edit_linked name hip hnd hdp
  have htype : ∀ j, ((v.addLinks ip 1).addEntry dp ⟨ip, name⟩).type j = v.type j := by simp
  have hlink := hv.linked_nlink ip dp name
  refine ⟨fun h => hnd (h ▸ hv.root), fun par h => h.insertEntry hplain, ?_,
    fun h => absurd h hnd, fun h => absurd h hip, fun p h => hnd (hv.cwdDir p ip h),
    fun h => absurd h hip, ?_, ?_, ?_, ?_⟩
  · intro e he _
    exact (mem_insertEntry he).symm.imp_right fun h => by rw [h]
  · intro i hi
    rw [htype] at hi
    rw [hlink i hi, hv.linked_count hip hnd hdp (linkTo_free (hv.ne_zero hi))]
    simp only [linkTo_plain hplain, decide_eq_true_eq, eq_comm (a := i)]
  · intro d hd
    rw [htype] at hd
    have hd0 : d ≠ 0 := hv.ne_zero (by rw [hd]; decide)
    have hne : ip ≠ d := fun h => hnd (h ▸ hd)
    rw [hv.linked_count hip hnd hdp (plainTo_free hd0), hv.named d hd]
    simp [plainTo_plain hplain, hne]
  · intro _ hzero
    have h1 := hlink ip hip
    rw [addEntry_info, addLinks_node, if_pos rfl, nlink_eq_zero_iff.mp hzero] at h1
    simp only [if_true] at h1
    omega
  · rw [hv.linked_blocks hip hnd hdp hfits]
    exact hv.capacity

lemma linked :
    (v.linked ip dp name).Consistent := by
  have hlink := hv.linked_nlink ip dp name
  have hne : ip ≠ dp := fun h => hnd (h ▸ hdp)
  have hdpos := hv.nlink_ne_zero hdp
  have hcons := (hv.edit_linked name hip hnd hdp).consistent
    (hv.sound_linked hip hnd hdp hnone hfits) hv hdpos
  have hdp' : (((v.addLinks ip 1).addEntry dp ⟨ip, name⟩).node dp).info.nlink ≠ 0 := by
    rwa [addEntry_info, addLinks_node, if_neg hne.symm]
  have hip' : (((v.addLinks ip 1).addEntry dp ⟨ip, name⟩).node ip).info.nlink ≠ 0 := by
    intro h
    have := hlink ip hip
    rw [nlink_eq_zero_iff.mp h] at this
    simp only [if_true] at this
    omega
  unfold Store.linked
  rwa [reap_of_nlink hdp', reap_of_nlink hip']

end

end
end Store.Consistent

end Xv6.File
