import Xv6.File.Lookup

/-!
# What the calls do to the store

Each system call either fails and leaves the store as it was, or has one effect
that is written down here as a function of the store. The rules hold for a
process that runs alone on a store in which its lookups are safe.
-/

namespace Xv6.File
open Fs Lib Finset Store

/-- Running out of cache entries, inodes, blocks or room in a directory. -/
inductive Shortage : Stop → Prop
  | iget : Shortage (.panic .iget)
  | ialloc : Shortage (.panic .ialloc)
  | balloc : Shortage (.panic .balloc)
  | dirlink : Shortage (.panic .dirlink)

/-- A name that is neither `.` nor `..`. -/
def Name.Plain (n : Name) : Prop := n ≠ dot ∧ n ≠ dotdot

instance (n : Name) : Decidable (Name.Plain n) := inferInstanceAs (Decidable (_ ∧ _))

lemma blocksFor_add_le (n : ℕ) : blocksFor (n + DIRENTSIZE) ≤ blocksFor n + 2 := by
  have hb : (n + DIRENTSIZE + (BSIZE - 1)) / BSIZE ≤ (n + (BSIZE - 1)) / BSIZE + 1 := by
    simp only [DIRENTSIZE, DIRSIZ, BSIZE]
    omega
  unfold blocksFor
  simp only
  grind

lemma entryCost_le (es : List Dirent) : entryCost es ≤ 2 := by
  unfold entryCost growth
  split
  · exact Nat.zero_le 2
  have := blocksFor_add_le (DIRENTSIZE * es.length)
  rw [Nat.mul_add, Nat.mul_one]
  omega

lemma entryCost_nil : entryCost [] = 1 := by decide

lemma entryCost_singleton (e : Dirent) : entryCost [e] = 0 := by
  unfold entryCost
  split
  · rfl
  · simp [growth, blocksFor, DIRENTSIZE, DIRSIZ, BSIZE, NDIRECT]

namespace Store

variable (v : Store)

/-- What the calls of process `p` rely on. -/
structure Usable (p : Pid) : Prop extends v.Ready p where
  noSelf : ∀ d, v.type d = .dir → ∀ e ∈ (v.node d).ents, e.inum ≠ 0 → Name.Plain e.name → e.inum ≠ d
  linked : ∀ d, v.type d = .dir → ∀ e ∈ (v.node d).ents, e.inum ≠ 0 → Name.Plain e.name →
    ¬ (v.node e.inum).info.nlink < 1
  closed : ∀ f, (v.file f).ref = 0 → (v.file f).type = .none

/-- `sys_link` of the inode `ip` as `name` in `dp`. -/
def linked (ip dp : Inum) (name : Name) : Store :=
  ((((v.addLinks ip 1).addEntry dp ⟨ip, name⟩).reap dp).reap ip)

/-- Remove entry `k` of `dp`, and the link of its `..` if it is a directory. -/
def removed (dp k : ℕ) (type : FileType) : Store :=
  let w := v.setEnts dp ((v.node dp).ents.set k ⟨0, []⟩)
  if type = .dir then w.addLinks dp (-1) else w

/-- `sys_unlink` of the inode `ip`, entry `k` of `dp`. -/
def unlinked (ip dp k : ℕ) : Store :=
  (((v.removed dp k (v.type ip)).reap dp).addLinks ip (-1)).reap ip

/-- No entries behind `.` and `..`. -/
def Empty (i : Inum) : Prop := ((v.node i).ents.drop 2).all (·.inum == 0) = true

instance (i : Inum) : Decidable (v.Empty i) := inferInstanceAs (Decidable (_ = _))

/-- The last element of the path is the directory in which it is looked up. -/
def SelfName (p : Pid) (path : Path) : Prop :=
  ∃ dp name k, v.namex p path true = some (dp, name) ∧ v.lookup dp name = some (dp, k)

/-- `sys_link` gets as far as to look for a new name of this kind. -/
def SelfLink (p : Pid) (old new : Option Path) : Prop :=
  ∃ a b ip n, old = some a ∧ new = some b ∧ v.namex p a false = some (ip, n) ∧
    v.type ip ≠ .dir ∧ v.SelfName p b

/-- The parent of the path is there, and the name is not. -/
def NewName (p : Pid) (path : Path) : Prop :=
  ∃ dp name, v.namex p path true = some (dp, name) ∧ v.lookup dp name = none

/-- `open` is to make a file. -/
def MakesFile (p : Pid) : Request → Prop
  | .open (some path) omode => omode &&& O_CREATE ≠ 0 ∧ v.NewName p path
  | _ => False

/-- There is room for the inodes that `create` gets. -/
def CreateRoom (p : Pid) (path : Path) : Prop :=
  v.NamexRoom p path true ∧ ∀ r ∈ v.namex p path true,
    (v.addRef r.1).RoomOf (v.lookup r.1 r.2) ∧
    (v.lookup r.1 r.2 = none → ∀ c ∈ v.freeInum, (v.addRef r.1).Room c)

instance (p : Pid) (path : Path) : Decidable (v.CreateRoom p path) :=
  inferInstanceAs (Decidable (_ ∧ _))

/-- There is room in the inode cache for the inodes that a call gets, if it is one of those that
open or make something or change the working directory. -/
def Roomy (p : Pid) : Request → Prop
  | .open (some path) omode =>
    if omode &&& O_CREATE ≠ 0 then v.CreateRoom p path else v.NamexRoom p path false
  | .mkdir (some path) => v.CreateRoom p path
  | .mknod (some path) _ _ => v.CreateRoom p path
  | .chdir (some path) => v.NamexRoom p path false
  | _ => True

/-- The disk has what `create` may need of it: an inode, blocks for the first entry of a directory
and for an entry that takes an indirect block, and no directory that is as large as a file may
be. -/
def Stocked : Stop → Prop
  | .panic .ialloc => v.freeInum ≠ none
  | .panic .balloc => 3 ≤ v.nfree
  | .panic .dirlink => ∀ d, v.type d = .dir →
      DIRENTSIZE * ((v.node d).ents.length + 1) ≤ MAXFILE * BSIZE
  | _ => True

/-- The new inode `c` that `create` sets up for a directory below `dp`, or for anything else. -/
def newborn (dp c : Inum) (t : FileType) (major minor : Int16) : Store :=
  let w := v.setNode c (newNode t major minor)
  if t = .dir then ((w.addLinks dp 1).addEntry c ⟨c, dot⟩).addEntry c ⟨dp, dotdot⟩ else w

/-- `create` of the inode `c` as `name` in `dp`. -/
def created (dp : Inum) (name : Name) (c : Inum) (t : FileType) (major minor : Int16) : Store :=
  ((v.newborn dp c t major minor).addEntry dp ⟨c, name⟩).reap dp

/-- `fileclose` -/
def closeFile (f : Fin NFILE) : Store :=
  if 1 < (v.file f).ref then v.setFile f ((v.file f).withRef ((v.file f).ref - 1))
  else if (v.file f).type = .inode then (v.dropFile f).put (v.file f).ip
  else v.dropFile f

/-- Close a descriptor. -/
def closeFd (p : Pid) (fd : Fin NOFILE) : Store :=
  match v.ofile p fd with
  | none => v
  | some f => (v.setFd p fd none).closeFile f

/-- The loop of `exit` over the descriptors. -/
def closeAll (p : Pid) (fds : List (Fin NOFILE)) : Store := fds.foldl (·.closeFd p ·) v

variable {v} {i j dp ip : Inum} {d : Int16} {e : Dirent}

lemma addLinks_node :
    (v.addLinks i d).node j = if j = i then (v.node i).withLinks d else v.node j := by
  by_cases h : j = i <;> simp [addLinks, h]

@[simp] lemma addLinks_type : (v.addLinks i d).type j = v.type j := by
  unfold type
  rw [addLinks_node]
  split
  case isTrue h =>
    rw [h]
    rfl
  case isFalse => rfl

@[simp] lemma addLinks_ents : ((v.addLinks i d).node j).ents = (v.node j).ents := by
  rw [addLinks_node]
  split
  case isTrue h =>
    rw [h]
    rfl
  case isFalse => rfl

lemma addLinks_cancel : (v.addLinks i 1).addLinks i (-1) = v := by
  have hlink : (v.node i).info.nlink + 1 + -1 = (v.node i).info.nlink := by
    rw [← Int16.sub_eq_add_neg, Int16.add_sub_cancel]
  simp [addLinks, Node.withLinks, setNode, hlink]

lemma addEntry_node :
    (v.addEntry i e).node j = if j = i then (v.node i).withEntry e else v.node j := by
  by_cases h : j = i <;> simp [addEntry, h]

lemma addEntry_nfree : (v.addEntry i e).nfree = v.nfree - entryCost (v.node i).ents := rfl

@[simp] lemma addEntry_info : ((v.addEntry i e).node j).info = (v.node j).info := by
  rw [addEntry_node]
  split
  case isTrue h =>
    rw [h]
    rfl
  case isFalse => rfl

@[simp] lemma addEntry_type : (v.addEntry i e).type j = v.type j := by
  unfold type
  rw [addEntry_info]

lemma freeInode_node : (v.freeInode i).node j =
    if j = i then { info := (v.node i).info.freed } else v.node j := by
  by_cases h : j = i <;> simp [freeInode, h]

lemma reap_node_of_ne (h : j ≠ i) : (v.reap i).node j = v.node j := by
  unfold reap
  split
  · rw [freeInode_node, if_neg h]
  · rfl

lemma reap_of_nlink (h : (v.node i).info.nlink ≠ 0) : v.reap i = v :=
  if_neg fun hdead => h hdead.2.1

lemma newborn_info (t : FileType) (major minor : Int16) (h : i ≠ dp) :
    ((v.newborn dp i t major minor).node i).info = (newNode t major minor).info := by
  unfold newborn
  split
  · simp only [addEntry_info, addLinks_node, if_neg h]
    simp
  · simp

variable {t : FileType} {major minor : Int16}

/-- `create` does not touch the entries of the parent before it adds the new one. -/
lemma newborn_ents (h : i ≠ dp) :
    ((v.newborn dp i t major minor).node dp).ents = (v.node dp).ents := by
  unfold newborn
  split
  · simp only [addEntry_node, if_neg h.symm, addLinks_ents]
    simp [h.symm]
  · simp [h.symm]

lemma newborn_nfree (h : 3 ≤ v.nfree) : 2 ≤ (v.newborn dp i t major minor).nfree := by
  unfold newborn
  split
  · let w := (v.setNode i (newNode t major minor)).addLinks dp 1
    have hents : (w.node i).ents = [] := by simp [w, newNode]
    have hents' : ((w.addEntry i ⟨i, dot⟩).node i).ents = [⟨i, dot⟩] := by
      rw [addEntry_node, if_pos rfl, Node.withEntry, hents]
      rfl
    rw [addEntry_nfree, hents', entryCost_singleton, addEntry_nfree, hents, entryCost_nil]
    exact Nat.sub_le_sub_right h 1
  · exact le_trans (by decide) h

lemma newborn_type_of_ne (h : j ≠ i) : (v.newborn dp i t major minor).type j = v.type j := by
  unfold newborn
  split
  · simp only [addEntry_type, addLinks_type]
    simp [type, h]
  · simp [type, h]

lemma created_info {name : Name} (h : i ≠ dp) :
    ((v.created dp name i t major minor).node i).info = (newNode t major minor).info := by
  unfold created
  rw [reap_node_of_ne h, addEntry_info, newborn_info _ _ _ h]

lemma selfName_iff {p : Pid} {path : Path} {name : Name}
    (h : v.namex p path true = some (dp, name)) :
    v.SelfName p path ↔ ∃ k, v.lookup dp name = some (dp, k) := by
  constructor
  · rintro ⟨dp', name', k, hname, hk⟩
    obtain ⟨rfl, rfl⟩ : dp = dp' ∧ name = name' := by simpa using h.symm.trans hname
    exact ⟨k, hk⟩
  · rintro ⟨k, hk⟩
    exact ⟨dp, name, k, h, hk⟩

lemma put_addRef_of_kept (h : v.Kept) : (v.addRef i).put i = v := by
  rw [put_addRef, reap_of_kept h]

end Store

variable {p : Pid} {E : Stop → Prop} {L : Finset Inum} {v : Store} {i dp ip : Inum}

lemma exact_beginOp : Exact p E ⟨L, v⟩ (perform .beginOp) () ⟨L, v⟩ := exact_read fun _ _ => rfl

lemma exact_endOp : Exact p E ⟨L, v⟩ (perform .endOp) () ⟨L, v⟩ := exact_read fun _ _ => rfl

variable {name : Name} {c : Inum} {Q : ℤ → View → Prop} {t : FileType} {major minor : Int16}
  {path : Option Path} {f : Fin NFILE} {omode : UInt32} {fd : Fin NOFILE} {fds : List (Fin NOFILE)}

section
variable (hdp : dp ∈ L) (hdir : v.type dp = .dir)
include hdp hdir

lemma spec_dirlink_new (hnew : v.lookup dp name = none)
    (hbig : ¬ v.Growable dp → E (.panic .dirlink)) (hfree : ¬ v.Fits dp → E (.panic .balloc)) :
    Spec p E ⟨L, v⟩ (dirlink dp name i) fun r b' =>
      r = 0 ∧ v.Fits dp ∧ b' = ⟨L, v.addEntry dp ⟨i, name⟩⟩ := by
  have hroom : v.RoomOf (v.lookup dp name) := by
    rw [hnew]
    trivial
  refine (spec_dirlookup hdp hdir fun hno => absurd hroom hno).bind ?_
  rintro _ _ ⟨-, rfl, rfl⟩
  rw [hnew]
  refine (spec_dirwrite hdp hbig hfree).bind ?_
  intro _ b' hb
  exact .ret ⟨rfl, hb⟩

lemma exact_dirlink_old {c k : ℕ} (hold : v.lookup dp name = some (c, k))
    (hc : c ∉ L) (hkept : v.Kept)
    (hfull : E (.panic .iget) ∨ v.inUse < NINODE) :
    Exact p E ⟨L, v⟩ (dirlink dp name i) (-1) ⟨L, v⟩ := by
  refine (exact_dirlookup hdp hdir hfull).seq ?_
  rw [hold]
  refine (exact_iput hc).seq ?_
  rw [show v.addRefOf (some (c, k)) = v.addRef c from rfl, put_addRef_of_kept hkept]
  exact Prog.Does.ret

lemma spec_dirlink_self {k : ℕ} (hold : v.lookup dp name = some (dp, k))
    (hE : E .hang)
    (hfull : E (.panic .iget) ∨ v.inUse < NINODE) : Spec p E ⟨L, v⟩ (dirlink dp name i) Q := by
  refine (exact_dirlookup hdp hdir hfull).seq ?_
  rw [hold]
  exact (spec_iput_hang (Q := fun _ _ => False) hdp hE).bind fun _ _ h => h.elim

end

lemma spec_linkEntry (h : Spec p E ⟨L, v⟩ (dirlink dp name i) Q) :
    Spec p E ⟨L, v⟩ (linkEntry dp name i) Q := by
  refine exact_dev.seq (exact_dev.seq ?_)
  rw [if_neg (not_not_intro rfl)]
  exact exact_inum.seq h

/-! ### One inode is locked -/

lemma exact_ilock_one (hi : v.type i ≠ .free) :
    Exact p E ⟨∅, v.addRef i⟩ (ilock i) () ⟨insert i ∅, v.addRef i⟩ :=
  exact_ilock (notMem_empty i) (by simp) hi

lemma exact_getMeta_one : Exact p E ⟨insert i ∅, v⟩ (perform (.getMeta i)) (v.node i).info
    ⟨insert i ∅, v⟩ :=
  exact_getMeta (mem_insert_self i ∅)

lemma exact_iunlock_one : Exact p E ⟨insert i ∅, v⟩ (iunlock i) () ⟨∅, v⟩ := by
  have := exact_iunlock (p := p) (E := E) (v := v) (mem_insert_self i ∅)
  rwa [erase_insert (notMem_empty i)] at this

lemma exact_iunlockput_last : Exact p E ⟨insert i ∅, v⟩ (iunlockput i) () ⟨∅, v.put i⟩ := by
  have := exact_iunlockput (p := p) (E := E) (v := v) (mem_insert_self i ∅)
  rwa [erase_insert (notMem_empty i)] at this

lemma exact_iunlockput_one (hkept : v.Kept) :
    Exact p E ⟨insert i ∅, v.addRef i⟩ (iunlockput i) () ⟨∅, v⟩ := by
  have := exact_iunlockput_last (p := p) (E := E) (v := v.addRef i) (i := i)
  rwa [put_addRef_of_kept hkept] at this

lemma exact_sysUnlinkBad (hkept : v.Kept) :
    Exact p E ⟨insert dp ∅, v.addRef dp⟩ (sysUnlinkBad dp) (-1) ⟨∅, v⟩ :=
  (exact_iunlockput_one hkept).seq (exact_endOp.seq Prog.Does.ret)

lemma erase_second (hne : i ≠ dp) :
    (insert i (insert dp (∅ : Finset Inum))).erase dp = insert i ∅ := by
  rw [erase_insert_of_ne hne, erase_insert (notMem_empty dp)]

lemma exact_sysLinkBad (hip : v.type ip ≠ .free) (hkept : v.Kept) :
    Exact p E ⟨∅, (v.addLinks ip 1).addRef ip⟩ (sysLinkBad ip) (-1) ⟨∅, v⟩ := by
  refine (exact_ilock_one (by rwa [addLinks_type])).seq ?_
  refine (exact_addLinks (mem_insert_self ip ∅)).seq ?_
  rw [show ((v.addLinks ip 1).addRef ip).addLinks ip (-1) =
    ((v.addLinks ip 1).addLinks ip (-1)).addRef ip from rfl, addLinks_cancel]
  exact exact_sysUnlinkBad hkept

/-- The references and link counts that `sys_link` holds while it looks for the parent. -/
lemma Store.Ready.linking (h : v.Ready p) : ((v.addLinks ip 1).addRef ip).Ready p := by
  have htype : ∀ j, ((v.addLinks ip 1).addRef ip).type j = v.type j := fun j => by
    rw [← addLinks_type (v := v)]
    rfl
  have href : ∀ j, v.ref j ≤ ((v.addLinks ip 1).addRef ip).ref j := fun j => by
    by_cases hj : j = ip <;> simp [Store.addLinks, hj]
  obtain ⟨c, hcwd, hc, hfree⟩ := h.cwd
  refine ⟨by rw [htype]; exact h.root, ⟨c, hcwd, hc.trans_le (href c), by rwa [htype]⟩, ?_, ?_⟩
  · intro d hd e he hne
    rw [htype] at hd ⊢
    rw [addRef_node, addLinks_ents] at he
    exact h.entry d hd e he hne
  intro j hj hlink
  by_cases heq : j = ip
  · simp [heq]
  rw [htype] at hj
  rw [addRef_node, addLinks_node, if_neg heq] at hlink
  exact (h.kept j hj hlink).trans_le (href j)

/-- What `sys_link` does to the store, apart from its references. -/
inductive Linked (p : Pid) (v : Store) (ip : Inum) (new : Path) : ℤ → Store → Prop
  | fail : Linked p v ip new (-1) v
  | link {dp : Inum} {name : Name} (hnew : v.namex p new true = some (dp, name))
      (hnone : v.lookup dp name = none) (hfits : (v.addLinks ip 1).Fits dp) :
      Linked p v ip new 0 (v.linked ip dp name)

lemma spec_linkInode {new : Path} (h : v.Ready p) (hip : v.type ip ≠ .free)
    (hnotdir : v.type ip ≠ .dir) (hroom : E (.panic .iget) ∨ v.inUse + 3 ≤ NINODE)
    (hself : v.SelfName p new → E .hang) (hE : ¬ v.SelfName p new → ∀ e, Shortage e → E e) :
    Spec p E ⟨insert ip ∅, v.addRef ip⟩ (linkInode ip new) fun a b' =>
      ¬ v.SelfName p new ∧ b'.held = ∅ ∧ Linked p v ip new a b'.store := by
  let w := (v.addLinks ip 1).addRef ip
  have hw : w.Ready p := h.linking
  have hcongr : w.namex p new true = v.namex p new true :=
    namex_congr (w := w) (fun j => (addLinks_type)) (fun j => addLinks_ents) rfl p new true
  have hcount : w.inUse ≤ v.inUse + 1 := inUse_addRef_le
  refine (exact_addLinks (mem_insert_self ip ∅)).seq ?_
  refine exact_iunlock_one.seq ?_
  refine (exact_namex hw (hroom.imp_right fun _ => by omega)).seq ?_
  rw [hcongr]
  rcases hnew : v.namex p new true with _ | r
  · refine (exact_sysLinkBad hip h.kept).triple ⟨?_, rfl, .fail⟩
    simp [Store.SelfName, hnew]
  obtain ⟨dp, name⟩ := r
  have hdir : v.type dp = .dir := (h.namex hnew).2 rfl
  have hdir' : (w.addRef dp).type dp = .dir := by
    rw [← hdir]
    exact addLinks_type (i := ip) (d := 1)
  have hlookup : (w.addRef dp).lookup dp name = v.lookup dp name := by
    unfold Store.lookup
    exact congrArg (scan name · 0) addLinks_ents
  have hdp : dp ∈ insert dp (∅ : Finset Inum) := mem_insert_self dp ∅
  have hfull : E (.panic .iget) ∨ (w.addRef dp).inUse < NINODE := by
    refine hroom.imp_right fun _ => ?_
    have := inUse_addRef_le (v := w) (i := dp)
    omega
  refine (exact_ilock_one (v := w) (by rw [show w.type dp = .dir from hdir']; decide)).seq ?_
  rcases hc : v.lookup dp name with _ | ⟨c, k⟩
  · have hno : ¬ v.SelfName p new := by
      rw [selfName_iff hnew, hc]
      simp
    refine (spec_linkEntry (spec_dirlink_new hdp hdir' (hlookup.trans hc)
      (fun _ => hE hno _ .dirlink) fun _ => hE hno _ .balloc)).bind ?_
    intro r b' hb
    rw [hb.1, hb.2.2, if_neg (by decide)]
    refine exact_iunlockput_last.seq ?_
    refine (exact_iput (notMem_empty ip)).seq ?_
    refine exact_endOp.seq (.ret ⟨hno, rfl, ?_⟩)
    have hne : ip ≠ dp := fun heq => hnotdir (heq ▸ hdir)
    let u := (v.addLinks ip 1).addEntry dp ⟨ip, name⟩
    have hstore : (w.addRef dp).addEntry dp ⟨ip, name⟩ = (u.addRef ip).addRef dp := rfl
    rw [hstore, put_addRef, reap_addRef_of_ne hne, put_addRef]
    exact .link hnew hc hb.2.1
  by_cases hcdp : c = dp
  · subst hcdp
    have hhang := hself ((selfName_iff hnew).mpr ⟨k, hc⟩)
    exact (spec_linkEntry (spec_dirlink_self (Q := fun _ _ => False) hdp hdir'
      (hlookup.trans hc) hhang hfull)).bind fun _ _ hf => hf.elim
  have hnot : c ∉ insert dp (∅ : Finset Inum) := by simpa using hcdp
  have hold : Exact p E ⟨insert dp ∅, w.addRef dp⟩ (linkEntry dp name ip) (-1)
      ⟨insert dp ∅, w.addRef dp⟩ := spec_linkEntry
    (exact_dirlink_old hdp hdir' (hlookup.trans hc) hnot hw.kept.addRef hfull)
  refine hold.seq ?_
  rw [if_pos (by decide)]
  refine (exact_iunlockput_one hw.kept).seq ?_
  refine (exact_sysLinkBad hip h.kept).triple ⟨?_, rfl, .fail⟩
  rw [selfName_iff hnew, hc]
  simpa using hcdp

/-- `create` makes the inode `c`. -/
structure Creates (p : Pid) (v : Store) (path : Path) (t : FileType) (major minor : Int16)
    (c : Inum) (w : Store) : Prop where
  exists_entry : ∃ dp name, v.namex p path true = some (dp, name) ∧ v.lookup dp name = none ∧
    v.freeInum = some c ∧ (v.newborn dp c t major minor).Fits dp ∧
    (t = .dir → ((v.setNode c (newNode t major minor)).addLinks dp 1).Fits c ∧
      (((v.setNode c (newNode t major minor)).addLinks dp 1).addEntry c ⟨c, dot⟩).Fits c) ∧
    w = v.created dp name c t major minor

/-- The file table entry and the descriptor for an inode that is opened. -/
def Store.opened (v : Store) (p : Pid) (i : Inum) (f : Fin NFILE) (fd : Fin NOFILE)
    (omode : UInt32) : Store :=
  ((v.addRef i).setFile f (openedFile ((v.file f).withRef 1) i omode)).setFd p fd (some f)

/-- What complete calls of process `p` return and do. -/
inductive Result (p : Pid) (v : Store) : Request → ℤ → Store → Prop
  | fail {r : Request} (h : ¬ v.MakesFile p r) : Result p v r (-1) v
  | link {old new : Path} {ip dp : Inum} {n name : Name}
      (hold : v.namex p old false = some (ip, n)) (hip : v.type ip ≠ .dir)
      (hnew : v.namex p new true = some (dp, name)) (hnone : v.lookup dp name = none)
      (hfits : (v.addLinks ip 1).Fits dp) :
      Result p v (.link (some old) (some new)) 0 (v.linked ip dp name)
  | unlink {path : Path} {ip dp k : ℕ} {name : Name}
      (hpath : v.namex p path true = some (dp, name)) (hplain : Name.Plain name)
      (hentry : v.lookup dp name = some (ip, k)) (hempty : v.type ip = .dir → v.Empty ip) :
      Result p v (.unlink (some path)) 0 (v.unlinked ip dp k)
  | mkdir {path : Path} {c : Inum} {w : Store} (h : Creates p v path .dir 0 0 c w) :
      Result p v (.mkdir (some path)) 0 w
  | mknod {path : Path} {major minor : Int32} {c : Inum} {w : Store}
      (h : Creates p v path .dev major.toInt16 minor.toInt16 c w) :
      Result p v (.mknod (some path) major minor) 0 w
  | create {path : Path} {omode : UInt32} {c : Inum} {w : Store}
      (hmode : omode &&& O_CREATE ≠ 0) (h : Creates p v path .file 0 0 c w)
      (hfull : v.freeFile = none ∨ v.freeFd p = none) :
      Result p v (.open (some path) omode) (-1) w
  | createOpen {path : Path} {omode : UInt32} {c : Inum} {w : Store} {f : Fin NFILE}
      {fd : Fin NOFILE} (h : Creates p v path .file 0 0 c w) (hf : v.freeFile = some f)
      (hfd : v.freeFd p = some fd) :
      Result p v (.open (some path) omode) fd.val (w.opened p c f fd omode)
  | open {path : Path} {omode : UInt32} {i : Inum} {f : Fin NFILE} {fd : Fin NOFILE}
      (hi : v.type i ≠ .free) (hf : v.freeFile = some f) (hfd : v.freeFd p = some fd) :
      Result p v (.open (some path) omode) fd.val (v.opened p i f fd omode)
  | chdir {path : Path} {i old : Inum} {n : Name} (hi : v.namex p path false = some (i, n))
      (hdir : v.type i = .dir) (hold : v.cwd p = some old) :
      Result p v (.chdir (some path)) 0 (((v.addRef i).put old).setCwd p (some i))
  | close {fd : ℤ} {k : Fin NOFILE} {f : Fin NFILE} (hfd : v.openFd p fd = some (k, f)) :
      Result p v (.close fd) 0 (v.closeFd p k)
  | exit {c : Inum} (hc : v.cwd p = some c) :
      Result p v .exit 0 (((v.closeAll p (List.finRange NOFILE)).put c).setCwd p none)

lemma spec_sysLink {old new : Option Path} (h : v.Ready p)
    (hroom : E (.panic .iget) ∨ v.inUse + 3 ≤ NINODE) (hself : v.SelfLink p old new → E .hang)
    (hE : ¬ v.SelfLink p old new → ∀ e, Shortage e → E e) :
    Spec p E ⟨∅, v⟩ (sysLink old new) fun a b' =>
      ¬ v.SelfLink p old new ∧ b'.held = ∅ ∧ Result p v (.link old new) a b'.store := by
  rcases old with _ | old
  · exact .ret ⟨by simp [Store.SelfLink], rfl, .fail id⟩
  rcases new with _ | new
  · exact .ret ⟨by simp [Store.SelfLink], rfl, .fail id⟩
  refine exact_beginOp.seq ?_
  refine (exact_namex h (hroom.imp_right fun _ => by omega)).seq ?_
  rcases hold : v.namex p old false with _ | r
  · refine exact_endOp.seq (.ret ⟨?_, rfl, .fail id⟩)
    simp [Store.SelfLink, hold]
  obtain ⟨ip, n⟩ := r
  have hip := (h.namex hold).1
  refine (exact_ilock_one hip).seq (exact_getMeta_one.seq ?_)
  by_cases hdir : v.type ip = .dir
  · rw [if_pos (show ((v.addRef ip).node ip).info.type = .dir from hdir)]
    refine (exact_sysUnlinkBad h.kept).triple ⟨?_, rfl, .fail id⟩
    simp [Store.SelfLink, hold, hdir]
  rw [if_neg (show ¬ ((v.addRef ip).node ip).info.type = .dir from hdir)]
  have hiff : v.SelfLink p (some old) (some new) ↔ v.SelfName p new := by
    simp [Store.SelfLink, hold, hdir]
  rw [hiff] at hself hE ⊢
  refine (spec_linkInode h hip hdir hroom hself hE).mono ?_
  intro r b' hb
  obtain ⟨L, w⟩ := b'
  have hlinked : Linked p v ip new r w := hb.2.2
  refine ⟨hb.1, hb.2.1, ?_⟩
  cases hlinked with
  | fail => exact .fail id
  | link hnew hnone hfits => exact .link hold hdir hnew hnone hfits

lemma exact_unlinkEntry {k : ℕ} (hne : ip ≠ dp) :
    Exact p E ⟨insert ip (insert dp ∅), (v.addRef dp).addRef ip⟩ (unlinkEntry dp ip k t) 0
      ⟨∅, (((v.removed dp k t).reap dp).addLinks ip (-1)).reap ip⟩ := by
  have hdp : dp ∈ insert ip (insert dp (∅ : Finset Inum)) := by simp
  have hlinks : Exact p E ⟨insert ip (insert dp ∅), ((v.setEnts dp
      ((v.node dp).ents.set k ⟨0, []⟩)).addRef dp).addRef ip⟩
      (if t = .dir then addLinks dp (-1) else pure ()) ()
      ⟨insert ip (insert dp ∅), ((v.removed dp k t).addRef dp).addRef ip⟩ := by
    unfold Store.removed
    by_cases ht : t = .dir
    · simp only [if_pos ht]
      exact exact_addLinks hdp
    · simp only [if_neg ht]
      exact Prog.Does.ret
  refine (exact_clearEntry hdp).seq (hlinks.seq ?_)
  refine (exact_iunlockput hdp).seq ?_
  rw [erase_second hne, addRef_comm, put_addRef, reap_addRef_of_ne hne]
  refine (exact_addLinks (mem_insert_self ip ∅)).seq ?_
  refine exact_iunlockput_last.seq (exact_endOp.seq ?_)
  rw [show ((((v.removed dp k t).reap dp).addRef ip).addLinks ip (-1)) =
    (((v.removed dp k t).reap dp).addLinks ip (-1)).addRef ip from rfl, put_addRef]
  exact Prog.Does.ret

lemma exact_isFullDir : Exact p E ⟨L, v⟩ (isFullDir ip t)
    (decide (t = .dir ∧ ¬ v.Empty ip)) ⟨L, v⟩ := by
  unfold isFullDir
  by_cases ht : t = .dir
  · rw [if_pos ht]
    refine exact_isdirempty.seq ?_
    have hres : (!((v.node ip).ents.drop 2).all (·.inum == 0)) =
        decide (t = .dir ∧ ¬ v.Empty ip) := by
      simp only [ht, Store.Empty, true_and, decide_not]
      cases ((v.node ip).ents.drop 2).all (·.inum == 0) <;> rfl
    rw [hres]
    exact Prog.Does.ret
  rw [if_neg ht]
  have hres : decide (t = .dir ∧ ¬ v.Empty ip) = false := by simp [ht]
  rw [hres]
  exact Prog.Does.ret

lemma spec_createDots (hc : v.type c = .dir) (hents : (v.node c).ents = []) (hcL : c ∈ L)
    (hdpL : dp ∈ L) (hfree : 1 ≤ v.nfree ∨ E (.panic .balloc)) :
    Spec p E ⟨L, v⟩ (createDots dp c) fun _ b' => (v.addLinks dp 1).Fits c ∧
      ((v.addLinks dp 1).addEntry c ⟨c, dot⟩).Fits c ∧
      b' = ⟨L, ((v.addLinks dp 1).addEntry c ⟨c, dot⟩).addEntry c ⟨dp, dotdot⟩⟩ := by
  have hnone : (v.addLinks dp 1).lookup c dot = none := by
    unfold Store.lookup
    rw [addLinks_ents, hents]
    rfl
  have hnone' : ((v.addLinks dp 1).addEntry c ⟨c, dot⟩).lookup c dotdot = none := by
    unfold Store.lookup
    rw [addEntry_node, if_pos rfl, Node.withEntry, addLinks_ents, hents]
    simp [insertEntry, freeSlot, scan, show dot ≠ dotdot by decide]
  have hents' : (((v.addLinks dp 1).addEntry c ⟨c, dot⟩).node c).ents = [⟨c, dot⟩] := by
    rw [addEntry_node, if_pos rfl, Node.withEntry, addLinks_ents, hents]
    rfl
  refine (exact_addLinks hdpL).seq (exact_inum.seq ?_)
  refine (spec_dirlink_new hcL (by simpa using hc) hnone ?_ ?_).bind ?_
  · intro hno
    refine absurd (.inr ?_) hno
    rw [addLinks_ents, hents]
    decide
  · intro hno
    refine hfree.resolve_left fun hone => hno ?_
    unfold Store.Fits
    rwa [addLinks_ents, hents]
  intro r b' hb
  rw [hb.1, hb.2.2, if_neg (by decide)]
  refine exact_inum.seq ?_
  refine (spec_dirlink_new hcL (by simpa using hc) hnone' ?_ ?_).bind ?_
  · intro hno
    refine absurd (.inr ?_) hno
    rw [hents', List.length_singleton]
    decide
  · intro hno
    refine absurd ?_ hno
    unfold Store.Fits
    rw [hents', entryCost_singleton]
    exact Nat.zero_le _
  intro r' b'' hb'
  rw [hb'.1, hb'.2.2, if_neg (by decide)]
  exact .ret ⟨hb.2.1, hb'.2.1, rfl⟩

/-- The part of `create` for a name that does not exist. -/
lemma spec_createNew (ht : t ≠ .free) (hdir : v.type dp = .dir) (hnone : v.lookup dp name = none)
    (hE : ∀ e, v.Stocked e ∨ E e)
    (hroom : ¬ (∀ c ∈ v.freeInum, (v.addRef dp).Room c) → E (.panic .iget)) :
    Spec p E ⟨insert dp ∅, v.addRef dp⟩ (createNew dp name t major minor) fun c b' =>
      (v.addRef dp).Room c ∧ c ≠ dp ∧ v.freeInum = some c ∧ (v.newborn dp c t major minor).Fits dp ∧
      (t = .dir → ((v.setNode c (newNode t major minor)).addLinks dp 1).Fits c ∧
        (((v.setNode c (newNode t major minor)).addLinks dp 1).addEntry c ⟨c, dot⟩).Fits c) ∧
      b' = ⟨insert c ∅, (v.created dp name c t major minor).addRef c⟩ := by
  refine exact_dev.seq ?_
  refine (spec_newInode (v := v.addRef dp) ht
    (fun hno => (hE (.panic .ialloc)).resolve_left fun hsome => hsome hno)
    fun c hc hno => hroom fun hall => hno (hall c hc)).bind ?_
  rintro c b' ⟨hfree, hcroom, hc, rfl⟩
  have hne : c ≠ dp := by simpa using hc
  have hcL : c ∈ insert c (insert dp (∅ : Finset Inum)) := mem_insert_self _ _
  have hdpL : dp ∈ insert c (insert dp (∅ : Finset Inum)) := by simp
  let w := v.setNode c (newNode t major minor)
  let u := v.newborn dp c t major minor
  have hdots : Spec p E ⟨insert c (insert dp ∅), (w.addRef dp).addRef c⟩
      (if t = .dir then createDots dp c else pure ()) fun _ b' =>
        (t = .dir → (w.addLinks dp 1).Fits c ∧ ((w.addLinks dp 1).addEntry c ⟨c, dot⟩).Fits c) ∧
        b' = ⟨insert c (insert dp ∅), (u.addRef dp).addRef c⟩ := by
    by_cases htdir : t = .dir
    · rw [if_pos htdir]
      refine (spec_createDots ?_ ?_ hcL hdpL ?_).mono ?_
      · simp [Store.type, w, newNode, htdir]
      · simp [w, newNode]
      · exact (hE (.panic .balloc)).imp_left (le_trans (by decide))
      intro _ b' hb'
      refine ⟨fun _ => ⟨hb'.1, hb'.2.1⟩, ?_⟩
      rw [hb'.2.2]
      simp only [u, Store.newborn, if_pos htdir]
      rfl
    rw [if_neg htdir]
    refine .ret ⟨fun h => absurd h htdir, ?_⟩
    simp only [u, Store.newborn, if_neg htdir]
    rfl
  refine hdots.bind ?_
  intro _ b' hb'
  obtain ⟨hfits, rfl⟩ := hb'
  have hdir' : u.type dp = .dir := (newborn_type_of_ne hne.symm).trans hdir
  have hnone' : u.lookup dp name = none := by
    unfold Store.lookup
    rwa [newborn_ents hne]
  refine exact_inum.seq ?_
  refine (spec_dirlink_new (v := (u.addRef dp).addRef c) hdpL hdir' hnone' ?_ ?_).bind ?_
  · intro hno
    refine (hE (.panic .dirlink)).resolve_left fun hsmall => hno (.inr ?_)
    change DIRENTSIZE * ((u.node dp).ents.length + 1) ≤ _
    rw [newborn_ents hne]
    exact hsmall dp hdir
  · intro hno
    refine (hE (.panic .balloc)).resolve_left fun hblocks => hno ?_
    have hleft : 2 ≤ u.nfree := newborn_nfree hblocks
    exact (entryCost_le _).trans hleft
  intro r b' hb'
  rw [hb'.1, hb'.2.2, if_neg (by decide)]
  refine (exact_iunlockput hdpL).seq ?_
  rw [erase_second hne, show ((u.addRef dp).addRef c).addEntry dp ⟨c, name⟩ =
    ((u.addEntry dp ⟨c, name⟩).addRef dp).addRef c from rfl, addRef_comm,
    put_addRef, reap_addRef_of_ne hne]
  exact .ret ⟨hcroom, hne, hfree, hb'.2.1, hfits, rfl⟩

/-- How `create` ends: with no inode, an old file or a new inode. -/
inductive CreateResult (p : Pid) (v : Store) (path : Path) (t : FileType)
    (major minor : Int16) : Option Inum → View → Prop
  | none (hname : ¬ v.NewName p path) : CreateResult p v path t major minor none ⟨∅, v⟩
  | old {i : Inum} (hname : ¬ v.NewName p path) (ht : t = .file) (hi : v.type i = .file) :
      CreateResult p v path t major minor (some i) ⟨insert i ∅, v.addRef i⟩
  | new {c : Inum} {w : Store} (h : Creates p v path t major minor c w) :
      CreateResult p v path t major minor (some c) ⟨insert c ∅, w.addRef c⟩

lemma spec_create {path : Path} (ht : t ≠ .free) (h : v.Ready p) (hE : ∀ e, v.Stocked e ∨ E e)
    (hroom : ¬ v.CreateRoom p path → E (.panic .iget)) :
    Spec p E ⟨∅, v⟩ (create path t major minor) fun r b' =>
      v.CreateRoom p path ∧ CreateResult p v path t major minor r b' := by
  refine (spec_namex h fun hno => hroom fun hall => hno hall.1).bind ?_
  rintro _ _ ⟨hnamex, rfl, rfl⟩
  rcases hpath : v.namex p path true with _ | ⟨dp, name⟩
  · refine .ret ⟨⟨hnamex, by simp [hpath]⟩, .none ?_⟩
    simp [Store.NewName, hpath]
  have hdir : v.type dp = .dir := (h.namex hpath).2 rfl
  have hdp := mem_insert_self dp ∅
  have hlookup : (v.addRef dp).lookup dp name = v.lookup dp name := rfl
  have hall : v.CreateRoom p path ↔ (v.addRef dp).RoomOf (v.lookup dp name) ∧
      (v.lookup dp name = none → ∀ c ∈ v.freeInum, (v.addRef dp).Room c) := by
    simp [Store.CreateRoom, hpath, hnamex]
  rw [hall] at hroom ⊢
  refine (exact_ilock_one (h.namex hpath).1).seq ?_
  refine (spec_dirlookup hdp (show (v.addRef dp).type dp = .dir from hdir)
    fun hno => hroom fun hall => hno hall.1).bind ?_
  rintro _ _ ⟨hfound, rfl, rfl⟩
  rw [hlookup] at hfound ⊢
  rcases hentry : v.lookup dp name with _ | ⟨i, k⟩
  · refine (spec_createNew ht hdir hentry hE fun hno => hroom fun hall =>
      hno (hall.2 hentry)).bind ?_
    rintro c b' ⟨hc, -, hfree, hfits, hdots, rfl⟩
    refine .ret ⟨⟨trivial, fun _ c' hc' => ?_⟩,
      .new ⟨dp, name, hpath, hentry, hfree, hfits, hdots, rfl⟩⟩
    obtain rfl : c = c' := Option.some.inj (hfree.symm.trans hc')
    exact hc
  have hfree := h.entry.lookup hdir hentry
  have hname : ¬ v.NewName p path := by simp [Store.NewName, hpath, hentry]
  rw [hentry] at hfound
  refine exact_iunlockput_last.seq ?_
  rw [show (v.addRef dp).addRefOf (some (i, k)) = (v.addRef dp).addRef i from rfl,
    put_addRef_addRef h.kept]
  refine (exact_ilock_one hfree).seq (exact_getMeta_one.seq ?_)
  by_cases hfile : t = .file ∧ v.type i = .file
  · rw [if_pos (show t = .file ∧ ((v.addRef i).node i).info.type = .file from hfile)]
    exact .ret ⟨⟨hfound, nofun⟩, .old hname hfile.1 hfile.2⟩
  · rw [if_neg (show ¬ (t = .file ∧ ((v.addRef i).node i).info.type = .file) from hfile)]
    exact (exact_iunlockput_one h.kept).seq (.ret ⟨⟨hfound, nofun⟩, .none hname⟩)

lemma spec_sysUnlink (h : v.Usable p) (hE : ∀ e, Shortage e → E e) :
    Spec p E ⟨∅, v⟩ (sysUnlink path) fun a b' =>
      b'.held = ∅ ∧ Result p v (.unlink path) a b'.store := by
  rcases path with _ | path
  · exact .ret ⟨rfl, .fail id⟩
  refine exact_beginOp.seq ?_
  refine (exact_namex h.toReady (.inl (hE _ .iget))).seq ?_
  rcases hpath : v.namex p path true with _ | ⟨dp, name⟩
  · exact exact_endOp.seq (.ret ⟨rfl, .fail id⟩)
  have hdir : v.type dp = .dir := (h.namex hpath).2 rfl
  have hdp := mem_insert_self dp ∅
  refine (exact_ilock_one (h.namex hpath).1).seq ?_
  by_cases hplain : name = dot ∨ name = dotdot
  · rw [if_pos hplain]
    exact (exact_sysUnlinkBad h.kept).triple ⟨rfl, .fail id⟩
  rw [if_neg hplain]
  have hplain' : Name.Plain name := not_or.mp hplain
  refine (exact_dirlookup hdp (show (v.addRef dp).type dp = .dir from hdir)
    (.inl (hE _ .iget))).seq ?_
  rw [show (v.addRef dp).lookup dp name = v.lookup dp name from rfl]
  rcases hentry : v.lookup dp name with _ | ⟨ip, k⟩
  · exact (exact_sysUnlinkBad h.kept).triple ⟨rfl, .fail id⟩
  have hmem := lookup_mem hentry
  have hzero := (lookup_some hentry).2
  have hne : ip ≠ dp := h.noSelf dp hdir _ hmem hzero hplain'
  have hlink := h.linked dp hdir _ hmem hzero hplain'
  have hip : ip ∉ insert dp (∅ : Finset Inum) := by simpa using hne
  have hheld : ip ∈ insert ip (insert dp (∅ : Finset Inum)) := mem_insert_self _ _
  refine (exact_ilock (v := (v.addRef dp).addRef ip) hip (by simp)
    (h.entry.lookup hdir hentry)).seq ?_
  refine (exact_getMeta hheld).seq ?_
  rw [if_neg (show ¬ (((v.addRef dp).addRef ip).node ip).info.nlink < 1 from hlink)]
  refine exact_isFullDir.seq ?_
  change Spec p E _ (if decide (v.type ip = .dir ∧ ¬ v.Empty ip) = true then _
    else unlinkEntry dp ip k (v.type ip)) _
  by_cases hfull : v.type ip = .dir ∧ ¬ v.Empty ip
  · rw [if_pos (decide_eq_true hfull)]
    refine (exact_iunlockput hheld).seq ?_
    rw [erase_insert hip, put_addRef_of_kept h.kept.addRef]
    exact (exact_sysUnlinkBad h.kept).triple ⟨rfl, .fail id⟩
  rw [if_neg (by simp only [hfull, decide_false]; decide)]
  refine (exact_unlinkEntry hne).triple ⟨rfl, .unlink hpath hplain' hentry ?_⟩
  intro ht
  by_contra hempty
  exact hfull ⟨ht, hempty⟩

lemma Creates.type {path : Path} {w : Store} (h : Creates p v path t major minor c w)
    (hdir : ∀ dp name, v.namex p path true = some (dp, name) → v.type dp = .dir) :
    (w.node c).info = (newNode t major minor).info := by
  obtain ⟨dp, name, hpath, -, hfree, -, -, rfl⟩ := h.exists_entry
  refine created_info fun heq => ?_
  have hc := (freeInum_spec hfree).2.2
  rw [heq, hdir dp name hpath] at hc
  exact absurd hc (by decide)

lemma spec_makeNode {r : Request} (ht : t ≠ .free) (htf : t ≠ .file) (h : v.Ready p)
    (hE : ∀ e, v.Stocked e ∨ E e) (hiff : v.Roomy p r ↔ ∀ a ∈ path, v.CreateRoom p a)
    (hroom : ¬ v.Roomy p r → E (.panic .iget)) (hfail : Result p v r (-1) v)
    (hr : ∀ a ∈ path, ∀ c w, Creates p v a t major minor c w → Result p v r 0 w) :
    Spec p E ⟨∅, v⟩ (makeNode path t major minor) fun a b' =>
      v.Roomy p r ∧ b'.held = ∅ ∧ Result p v r a b'.store := by
  rw [hiff] at hroom ⊢
  refine exact_beginOp.seq ?_
  rcases path with _ | path
  · exact exact_endOp.seq (.ret ⟨nofun, rfl, hfail⟩)
  simp only [Option.mem_some_iff, forall_eq'] at hroom hr ⊢
  refine (spec_create ht h hE hroom).bind ?_
  rintro i b' ⟨hall, hb⟩
  cases hb with
  | none => exact exact_endOp.seq (.ret ⟨hall, rfl, hfail⟩)
  | old _ hfile => exact absurd hfile htf
  | @new c w hnew =>
    have hlink : (w.node c).info.nlink ≠ 0 := by
      rw [hnew.type fun dp name hpath => (h.namex hpath).2 rfl]
      exact (by decide : (1 : Int16) ≠ 0)
    refine exact_iunlockput_last.seq ?_
    rw [put_addRef, reap_of_nlink hlink]
    exact exact_endOp.seq (.ret ⟨hall, rfl, hr c w hnew⟩)

lemma exact_fileclose (hip : (v.file f).type = .inode → (v.file f).ip ∉ L)
    (hE : (v.file f).ref < 1 → E (.panic .fileclose)) :
    Exact p E ⟨L, v⟩ (fileclose f) () ⟨L, v.closeFile f⟩ := by
  have hrun : ∀ s : FsState, s.toStore = v → fsOp p (.fileDrop f) s =
      (if (v.file f).ref < 1 then Exec.stop (.panic .fileclose) else if 1 < (v.file f).ref then
          (Exec.modify (·.onStore (·.setFile f ((v.file f).withRef ((v.file f).ref - 1))))) >>=
            fun _ => pure none
        else
          (Exec.modify (·.onStore (·.dropFile f))) >>=
            fun _ => pure (some ((v.file f).withRef 0)) : FsExec (Option OpenFile)) s := by
    intro s hs
    rw [← hs]
    rfl
  unfold Store.closeFile
  by_cases hzero : (v.file f).ref < 1
  · intro s hs
    refine (Prog.wp_bind _ _).mpr ((Prog.wp_perform (S := fsSig) (.fileDrop f)).mpr ?_)
    unfold Exec.wp
    rw [hrun s hs.toStore_eq, if_pos hzero]
    exact hE hzero
  by_cases hshared : 1 < (v.file f).ref
  · have hdrop : Exact p E ⟨L, v⟩ (perform (.fileDrop f)) none
        ⟨L, v.setFile f ((v.file f).withRef ((v.file f).ref - 1))⟩ := by
      refine exact_frame (f := (·.setFile f ((v.file f).withRef ((v.file f).ref - 1))))
        rfl rfl fun s hs => ?_
      rw [hrun s hs, if_neg hzero, if_pos hshared]
      rfl
    rw [if_pos hshared]
    exact hdrop.seq Prog.Does.ret
  have hdrop : Exact p E ⟨L, v⟩ (perform (.fileDrop f)) (some ((v.file f).withRef 0))
      ⟨L, v.dropFile f⟩ := by
    refine exact_frame (f := (·.dropFile f)) rfl rfl fun s hs => ?_
    rw [hrun s hs, if_neg hzero, if_neg hshared]
    rfl
  rw [if_neg hshared]
  refine hdrop.seq ?_
  by_cases htype : (v.file f).type = .inode
  · rw [if_pos htype]
    change Spec p E _ (if (v.file f).type = .inode then _ else _) _
    rw [if_pos htype]
    exact exact_beginOp.seq ((exact_iput (hip htype)).seq exact_endOp)
  rw [if_neg htype]
  change Spec p E _ (if (v.file f).type = .inode then _ else _) _
  rw [if_neg htype]
  exact Prog.Does.ret

lemma exact_filealloc : Exact p E ⟨L, v⟩ (perform .filealloc) v.freeFile ⟨L, match v.freeFile with
      | none => v
      | some f => v.setFile f ((v.file f).withRef 1)⟩ := by
  have hrun : ∀ s : FsState, fsOp p .filealloc s = (match s.freeFile with
      | none => (pure none : FsExec (Option (Fin NFILE)))
      | some f => (Exec.modify (·.onStore fun v => v.setFile f ((v.file f).withRef 1))) >>=
          fun _ => pure (some f)) s := fun _ => rfl
  rcases hf : v.freeFile with _ | f
  · refine exact_read fun s hs => ?_
    rw [hrun, hs, hf]
    rfl
  refine exact_frame (f := fun v => v.setFile f ((v.file f).withRef 1)) rfl rfl fun s hs => ?_
  rw [hrun, hs, hf]
  rfl

lemma exact_fdalloc : Exact p E ⟨L, v⟩ (perform (.fdalloc f)) (v.freeFd p)
    ⟨L, match v.freeFd p with
      | none => v
      | some fd => v.setFd p fd (some f)⟩ := by
  have hrun : ∀ s : FsState, fsOp p (.fdalloc f) s = (match s.freeFd p with
      | none => (pure none : FsExec (Option (Fin NOFILE)))
      | some fd => (Exec.modify (·.onStore (·.setFd p fd (some f)))) >>=
          fun _ => pure (some fd)) s := fun _ => rfl
  rcases hfd : v.freeFd p with _ | fd
  · refine exact_read fun s hs => ?_
    rw [hrun, hs, hfd]
    rfl
  refine exact_frame (f := (·.setFd p fd (some f))) rfl rfl fun s hs => ?_
  rw [hrun, hs, hfd]
  rfl

lemma Store.freeFile_spec (hf : v.freeFile = some f) : (v.file f).ref = 0 := by
  have := List.find?_some hf
  simpa using this

lemma Store.closeFile_alloc (href : (v.file f).ref = 0) (htype : (v.file f).type = .none) :
    (v.setFile f ((v.file f).withRef 1)).closeFile f = v := by
  unfold Store.closeFile Store.dropFile
  rw [if_neg (by simp [Store.setFile, OpenFile.withRef]),
    if_neg (by simp [Store.setFile, OpenFile.withRef, htype])]
  simp [Store.setFile, OpenFile.withRef, ← href, ← htype]

lemma spec_openInode {omode : UInt32} {Q : ℤ → View → Prop} (hkept : v.Kept)
    (hclosed : ∀ f, (v.file f).ref = 0 → (v.file f).type = .none)
    (hfull : v.freeFile = none ∨ v.freeFd p = none → Q (-1) ⟨∅, v⟩)
    (hok : ∀ f fd, v.freeFile = some f → v.freeFd p = some fd →
      Q fd.val ⟨∅, v.opened p i f fd omode⟩) :
    Spec p E ⟨insert i ∅, v.addRef i⟩ (openInode i omode) Q := by
  refine (exact_filealloc).seq ?_
  rw [show (v.addRef i).freeFile = v.freeFile from rfl]
  rcases hf : v.freeFile with _ | f
  · exact (exact_sysUnlinkBad hkept).triple (hfull (.inl hf))
  have hzero := freeFile_spec hf
  refine exact_fdalloc.seq ?_
  rw [show ((v.addRef i).setFile f (((v.addRef i).file f).withRef 1)).freeFd p =
    v.freeFd p from rfl]
  rcases hfd : v.freeFd p with _ | fd
  · refine (exact_fileclose ?_ ?_).seq ?_
    · intro htype
      simp [Store.setFile, OpenFile.withRef, Store.addRef, Store.setRef, hclosed f hzero] at htype
    · intro hlt
      simp [Store.setFile, OpenFile.withRef] at hlt
    · rw [closeFile_alloc (v := v.addRef i) hzero (hclosed f hzero)]
      exact (exact_sysUnlinkBad hkept).triple (hfull (.inr hfd))
  refine exact_iunlock_one.seq (exact_endOp.seq ?_)
  have hset : Exact p E ⟨∅, ((v.addRef i).setFile f ((v.file f).withRef 1)).setFd p fd
      (some f)⟩ (perform (.setFile f i omode)) () ⟨∅, v.opened p i f fd omode⟩ := by
    refine Prog.Does.op fun s hs => ⟨_, rfl, ?_⟩
    have := hs.frame (f := fun v => v.setFile f (openedFile (v.file f) i omode)) rfl rfl
    simpa [Store.opened, Store.setFile, Store.setFd] using this
  exact hset.seq (.ret (hok f fd hf hfd))

@[simp] lemma Store.reap_file : (v.reap i).file = v.file := by
  unfold Store.reap
  split <;> rfl

@[simp] lemma Store.reap_ofile : (v.reap i).ofile = v.ofile := by
  unfold Store.reap
  split <;> rfl

/-- A new file that is not a directory has its link. -/
lemma Creates.kept {path : Path} {w : Store} (h : Creates p v path t major minor c w)
    (ht : t ≠ .dir) (hkept : v.Kept) : w.Kept ∧ w.file = v.file ∧ w.ofile = v.ofile := by
  obtain ⟨dp, name, -, -, -, -, -, rfl⟩ := h.exists_entry
  have hfile : ((v.setNode c (newNode t major minor)).addEntry dp ⟨c, name⟩).Kept := by
    intro j htype hlink
    rw [addEntry_info] at hlink
    rw [addEntry_type] at htype
    by_cases hj : j = c
    · rw [hj] at hlink
      simp [newNode] at hlink
    · simp only [Store.type, setNode_node, Function.update_of_ne hj] at htype hlink
      exact hkept j htype hlink
  unfold Store.created Store.newborn
  simp only [if_neg ht]
  rw [reap_of_kept hfile]
  exact ⟨hfile, rfl, rfl⟩

lemma spec_sysOpen (h : v.Usable p) (hE : ∀ e, v.Stocked e ∨ E e)
    (hroom : ¬ v.Roomy p (.open path omode) → E (.panic .iget)) :
    Spec p E ⟨∅, v⟩ (sysOpen path omode) fun a b' =>
      v.Roomy p (.open path omode) ∧ b'.held = ∅ ∧ Result p v (.open path omode) a b'.store := by
  rcases path with _ | path
  · exact .ret ⟨trivial, rfl, .fail id⟩
  unfold Store.Roomy at hroom ⊢
  refine exact_beginOp.seq ?_
  by_cases hcreate : omode &&& O_CREATE ≠ 0
  · simp only [if_pos hcreate] at hroom ⊢
    refine (spec_create (by decide) h.toReady hE hroom).bind ?_
    rintro i b' ⟨hall, hb⟩
    cases hb with
    | none hname =>
      exact exact_endOp.seq (.ret ⟨hall, rfl, .fail fun hnew => hname hnew.2⟩)
    | @old i hname _ hi =>
      refine spec_openInode h.kept h.closed (fun _ => ⟨hall, rfl, ?_⟩)
        fun f fd hf hfd => ⟨hall, rfl, .open (by rw [hi]; decide) hf hfd⟩
      exact .fail fun hnew => hname hnew.2
    | @new c w hnew =>
      obtain ⟨hkept, hfile, hofile⟩ := hnew.kept (by decide) h.kept
      have hsameFile : w.freeFile = v.freeFile := by
        unfold Store.freeFile
        rw [hfile]
      have hsameFd : w.freeFd p = v.freeFd p := by
        unfold Store.freeFd
        rw [hofile]
      refine spec_openInode hkept (by rw [hfile]; exact h.closed) ?_ ?_
      · rw [hsameFile, hsameFd]
        exact fun hfull => ⟨hall, rfl, .create hcreate hnew hfull⟩
      · rw [hsameFile, hsameFd]
        exact fun f fd hf hfd => ⟨hall, rfl, .createOpen hnew hf hfd⟩
  simp only [if_neg hcreate] at hroom ⊢
  have hnot : ¬ v.MakesFile p (.open (some path) omode) := fun hnew => hcreate hnew.1
  refine (spec_namex h.toReady hroom).bind ?_
  rintro _ _ ⟨hall, rfl, rfl⟩
  rcases hpath : v.namex p path false with _ | ⟨i, n⟩
  · exact exact_endOp.seq (.ret ⟨hall, rfl, .fail hnot⟩)
  have hi := (h.namex hpath).1
  refine (exact_ilock_one hi).seq (exact_getMeta_one.seq ?_)
  split
  case isTrue => exact (exact_sysUnlinkBad h.kept).triple ⟨hall, rfl, .fail hnot⟩
  case isFalse =>
    exact spec_openInode h.kept h.closed (fun _ => ⟨hall, rfl, .fail hnot⟩)
      fun f fd hf hfd => ⟨hall, rfl, .open hi hf hfd⟩

lemma exact_setCwd {o : Option Inum} :
    Exact p E ⟨L, v⟩ (perform (.setCwd o)) () ⟨L, v.setCwd p o⟩ :=
  exact_frame (f := (·.setCwd p o)) rfl rfl fun _ _ => rfl

lemma exact_clearFd : Exact p E ⟨L, v⟩ (perform (.clearFd fd)) () ⟨L, v.setFd p fd none⟩ :=
  exact_frame (f := (·.setFd p fd none)) rfl rfl fun _ _ => rfl

@[simp] lemma Store.put_cwd : (v.put i).cwd = v.cwd := by
  unfold Store.put
  split <;> rfl

lemma spec_sysChdir (h : v.Ready p) (hroom : ¬ v.Roomy p (.chdir path) → E (.panic .iget)) :
    Spec p E ⟨∅, v⟩ (sysChdir path) fun a b' =>
      v.Roomy p (.chdir path) ∧ b'.held = ∅ ∧ Result p v (.chdir path) a b'.store := by
  rcases path with _ | path
  · exact exact_beginOp.seq (exact_endOp.seq (.ret ⟨trivial, rfl, .fail id⟩))
  refine exact_beginOp.seq ?_
  refine (spec_namex h hroom).bind ?_
  rintro _ _ ⟨hall, rfl, rfl⟩
  rcases hpath : v.namex p path false with _ | ⟨i, n⟩
  · exact exact_endOp.seq (.ret ⟨hall, rfl, .fail id⟩)
  obtain ⟨old, hold, -, -⟩ := h.cwd
  refine (exact_ilock_one (h.namex hpath).1).seq (exact_getMeta_one.seq ?_)
  by_cases hdir : v.type i = .dir
  · rw [if_neg (show ¬ ((v.addRef i).node i).info.type ≠ .dir from not_not_intro hdir)]
    refine exact_iunlock_one.seq ?_
    refine (exact_cwd (v := v.addRef i) hold).seq ?_
    refine (exact_iput (notMem_empty old)).seq (exact_endOp.seq ?_)
    exact exact_setCwd.seq (.ret ⟨hall, rfl, .chdir hpath hdir hold⟩)
  · rw [if_pos (show ((v.addRef i).node i).info.type ≠ .dir from hdir)]
    exact (exact_sysUnlinkBad h.kept).triple ⟨hall, rfl, .fail id⟩

lemma spec_sysClose {fd : ℤ} (hE : E (.panic .fileclose)) :
    Spec p E ⟨∅, v⟩ (sysClose fd) fun a b' =>
      b'.held = ∅ ∧ Result p v (.close fd) a b'.store := by
  have hargfd : Exact p E ⟨∅, v⟩ (perform (.argfd fd)) (v.openFd p fd) ⟨∅, v⟩ := by
    refine exact_read fun s hs => ?_
    rw [← hs]
    rfl
  refine hargfd.seq ?_
  rcases hfd : v.openFd p fd with _ | ⟨k, f⟩
  · exact .ret ⟨rfl, .fail id⟩
  have hk : v.ofile p k = some f := by
    unfold Store.openFd at hfd
    split at hfd
    case isTrue =>
      rw [Option.map_eq_some_iff] at hfd
      obtain ⟨g, hg, heq⟩ := hfd
      simp only [Prod.mk.injEq] at heq
      rw [← heq.1, ← heq.2, hg]
    case isFalse => exact absurd hfd (by simp)
  refine exact_clearFd.seq ((exact_fileclose (by simp) fun _ => hE).seq ?_)
  have heffect := Result.close hfd
  unfold Store.closeFd at heffect
  rw [hk] at heffect
  exact .ret ⟨rfl, heffect⟩

lemma Store.closeFile_setFd {o : Option (Fin NFILE)} :
    (v.closeFile f).setFd p fd o = (v.setFd p fd o).closeFile f := by
  unfold Store.closeFile Store.put
  simp only [show (v.setFd p fd o).file f = v.file f from rfl]
  split
  · rfl
  split
  · have hdead : ((v.setFd p fd o).dropFile f).Dead (v.file f).ip ↔
        (v.dropFile f).Dead (v.file f).ip := Iff.rfl
    simp only [hdead]
    split <;> rfl
  · rfl

lemma exact_closeAll (hE : E (.panic .fileclose)) :
    Exact p E ⟨∅, v⟩ (closeAll fds) () ⟨∅, v.closeAll p fds⟩ := by
  induction fds generalizing v with
  | nil => exact Prog.Does.ret
  | cons fd fds ih =>
    have hofile : Exact p E ⟨∅, v⟩ (perform (.ofile fd)) (v.ofile p fd) ⟨∅, v⟩ := by
      refine exact_read fun s hs => ?_
      rw [← hs]
      rfl
    have hall : v.closeAll p (fd :: fds) = (v.closeFd p fd).closeAll p fds := rfl
    rw [hall]
    unfold Store.closeFd
    refine hofile.seq ?_
    rcases v.ofile p fd with _ | f
    · exact ih
    refine (exact_fileclose (by simp) fun _ => hE).seq (exact_clearFd.seq ?_)
    rw [closeFile_setFd]
    exact ih

lemma Store.closeFile_cwd : (v.closeFile f).cwd = v.cwd := by
  unfold Store.closeFile
  split
  · rfl
  split
  · rw [put_cwd]
    rfl
  · rfl

lemma Store.closeAll_cwd : (v.closeAll p fds).cwd = v.cwd := by
  induction fds generalizing v with
  | nil => rfl
  | cons fd fds ih =>
    refine (ih (v := v.closeFd p fd)).trans ?_
    unfold Store.closeFd
    split
    · rfl
    · rw [closeFile_cwd]
      rfl

lemma spec_exit (hc : v.cwd p = some i) (hclose : E (.panic .fileclose))
    (hinit : E (.panic .initExiting)) :
    Spec p E ⟨∅, v⟩ exit fun a b' => b'.held = ∅ ∧ Result p v .exit a b'.store := by
  have hisInit : Exact p E ⟨∅, v⟩ (perform .isInit) (p == v.initproc) ⟨∅, v⟩ := by
    refine exact_read fun s hs => ?_
    rw [← hs]
    rfl
  refine hisInit.seq ?_
  split
  · exact Prog.Triple.stop rfl hinit
  refine (exact_closeAll hclose).seq (exact_beginOp.seq ?_)
  refine (exact_cwd (closeAll_cwd ▸ hc)).seq ?_
  refine (exact_iput (notMem_empty i)).seq (exact_endOp.seq ?_)
  exact exact_setCwd.seq (.ret ⟨rfl, .exit hc⟩)

/-- The reasons for which a call may stop instead of returning. -/
inductive Allowed (p : Pid) (v : Store) : Request → Stop → Prop
  | short {r : Request} {e : Stop} (h : Shortage e) : Allowed p v r e
  | self {old new : Option Path} (h : v.SelfLink p old new) : Allowed p v (.link old new) .hang
  | close {fd : ℤ} : Allowed p v (.close fd) (.panic .fileclose)
  | exit : Allowed p v .exit (.panic .fileclose)
  | init : Allowed p v .exit (.panic .initExiting)

/-- Whatever the disk has, a shortage may be a reason to stop. -/
lemma stocked_or (hE : ∀ e, Shortage e → E e) (e : Stop) : v.Stocked e ∨ E e := by
  unfold Store.Stocked
  split
  · exact .inr (hE _ .ialloc)
  · exact .inr (hE _ .balloc)
  · exact .inr (hE _ .dirlink)
  · exact .inl trivial

/-- The calls that open or make something or change the working directory. -/
def Request.Opens : Request → Prop
  | .open _ _ => True
  | .mkdir _ => True
  | .mknod _ _ _ => True
  | .chdir _ => True
  | _ => False

/-- These calls return exactly if there is room in the inode cache, with a disk that has what they
need. -/
lemma spec_opens {r : Request} (hr : r.Opens) (h : v.Usable p) (hE : ∀ e, v.Stocked e ∨ E e)
    (hroom : ¬ v.Roomy p r → E (.panic .iget)) : Spec p E ⟨∅, v⟩ r.code fun a b' =>
      v.Roomy p r ∧ b'.held = ∅ ∧ Result p v r a b'.store := by
  cases r with
  | «open» path omode => exact spec_sysOpen h hE hroom
  | mkdir path =>
    refine spec_makeNode (by decide) (by decide) h.toReady hE ?_ hroom (.fail id) ?_
    · cases path <;> simp [Store.Roomy]
    rintro a rfl c w hw
    exact .mkdir hw
  | mknod path major minor =>
    refine spec_makeNode (by decide) (by decide) h.toReady hE ?_ hroom (.fail id) ?_
    · cases path <;> simp [Store.Roomy]
    rintro a rfl c w hw
    exact .mknod hw
  | chdir path => exact spec_sysChdir h.toReady hroom
  | _ => exact hr.elim

/-- Every call of a process that runs alone returns with a result, or stops for one of the
reasons. -/
lemma spec_result (r : Request) (h : v.Usable p) : Spec p (Allowed p v r) ⟨∅, v⟩ r.code
    fun a b' => b'.held = ∅ ∧ Result p v r a b'.store := by
  have hE : ∀ e, Shortage e → Allowed p v r e := fun _ he => .short he
  cases r with
  | link old new =>
    refine (spec_sysLink h.toReady (.inl (hE _ .iget)) .self fun _ => hE).mono ?_
    exact fun _ _ hb => hb.2
  | unlink path => exact spec_sysUnlink h hE
  | close fd => exact spec_sysClose .close
  | exit =>
    obtain ⟨c, hc, -, -⟩ := h.cwd
    exact spec_exit hc .exit .init
  | «open» | mkdir | mknod | chdir =>
    refine (spec_opens ?_ h (stocked_or hE) fun _ => hE _ .iget).mono fun _ _ hb => hb.2
    trivial

end Xv6.File
