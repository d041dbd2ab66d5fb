import Xv6.File.Effects
import Xv6.Lib.Tally

/-!
# Consistent file systems

A store is consistent if its directories form a tree with the right `.` and `..`
entries, link counts and reference counts are exact, and every entry names an
allocated inode.
-/

namespace Xv6.File
open Fs Lib List

/-- Entries that count as links to inode `i`: all but `.`. -/
def linkTo (i : Inum) (e : Dirent) : Bool := e.inum == i && e.name != dot

/-- Entries that name `i` other than as `.` or `..`. -/
def plainTo (i : Inum) (e : Dirent) : Bool := e.inum == i && decide (Name.Plain e.name)

/-- The entries of a kind in a directory. -/
def Node.count (q : Dirent → Bool) (n : Node) : ℕ :=
  if n.info.type = .dir then n.ents.countP q else 0

/-- A directory with its `.` and `..`; the names behind them are plain. -/
structure Shaped (d par : Inum) (es : List Dirent) : Prop where
  exists_rest : ∃ rest, es = ⟨d, dot⟩ :: ⟨par, dotdot⟩ :: rest ∧
    ∀ e ∈ rest, e.inum ≠ 0 → Name.Plain e.name
  self_ne : d ≠ 0
  parent_ne : par ≠ 0

namespace Store

variable (v : Store)

/-- The entries of a kind in all directories. -/
def count (q : Dirent → Bool) : ℕ := tally (Finset.range v.ninodes) (Node.count q) v.node

/-- The processes that have `i` as their working directory. -/
def cwds (i : Inum) : ℕ :=
  tally Finset.univ (fun o : Option Inum => if o = some i then 1 else 0) v.cwd

/-- The open files on `i`. -/
def files (i : Inum) : ℕ :=
  tally Finset.univ (fun x : OpenFile => if x.type = .inode ∧ x.ip = i then 1 else 0) v.file

/-- The descriptors for `f` in one process. -/
def fdsIn (f : Fin NFILE) (row : Fin NOFILE → Option (Fin NFILE)) : ℕ :=
  tally Finset.univ (fun o : Option (Fin NFILE) => if o = some f then 1 else 0) row

/-- The descriptors for `f`. -/
def fds (f : Fin NFILE) : ℕ := tally Finset.univ (fdsIn f) v.ofile

/-- The blocks of the disk that are free or hold contents of inodes. -/
def blocks : ℕ := v.nfree + tally (Finset.range v.ninodes) (fun n => blocksFor n.size) v.node

/-- The names: a tree of directories with exact link counts. -/
structure Tree : Prop where
  root : v.type ROOTINO = .dir
  range : ∀ i, v.type i ≠ .free → 1 ≤ i ∧ i < v.ninodes
  shaped : ∀ d, v.type d = .dir → ∃ par, Shaped d par (v.node d).ents
  entry : v.NoDangling
  noSelf : ∀ d, v.type d = .dir → ∀ e ∈ (v.node d).ents, e.inum ≠ 0 → Name.Plain e.name → e.inum ≠ d
  nlink : ∀ i, v.type i ≠ .free → (v.node i).info.nlink.toInt = v.count (linkTo i)
  named : ∀ d, v.type d = .dir → v.count (plainTo d) = if d = ROOTINO then 0 else 1
  parent : ∀ d d', v.type d = .dir → v.type d' = .dir → ∀ e ∈ (v.node d').ents, e.inum = d →
    Name.Plain e.name → Shaped d d' (v.node d).ents
  rootParent : Shaped ROOTINO ROOTINO (v.node ROOTINO).ents
  capacity : v.blocks ≤ FSSIZE

/-- The working directories and open files, with exact reference counts; a call may own one
reference more. -/
structure Use (own : Option Inum) : Prop where
  refs : ∀ i, v.ref i = v.cwds i + v.files i + if own = some i then 1 else 0
  cwdDir : ∀ p i, v.cwd p = some i → v.type i = .dir
  fileType : ∀ f, (v.file f).type = .inode → v.type (v.file f).ip ≠ .free
  descriptors : ∀ f, (v.file f).ref = v.fds f
  closed : ∀ f, (v.file f).ref = 0 → (v.file f).type = .none
  kept : v.Kept

structure Consistent : Prop extends v.Tree, v.Use none

end Store

section Entries
variable {es : List Dirent} {e a : Dirent} {q : Dirent → Bool} {d par : Inum} {k : ℕ}

lemma insertEntry_nil : insertEntry [] e = [e] := rfl

lemma insertEntry_cons : insertEntry (a :: es) e =
    if a.inum = 0 then e :: es else a :: insertEntry es e := by
  unfold insertEntry freeSlot
  rw [findIdx_cons]
  by_cases h : a.inum = 0
  · simp [h]
  simp only [beq_eq_false_iff_ne.mpr h, cond_false, length_cons, Nat.add_lt_add_iff_right,
    set_cons_succ, cons_append, if_neg h]
  split <;> rfl

lemma countP_insertEntry (hq : ∀ e, e.inum = 0 → q e = false) :
    (insertEntry es e).countP q = es.countP q + if q e then 1 else 0 := by
  induction es with
  | nil => simp [insertEntry_nil, countP_cons]
  | cons a es ih =>
    rw [insertEntry_cons]
    split
    case isTrue h =>
      simp [countP_cons, hq a h]
    case isFalse =>
      rw [countP_cons, countP_cons, ih]
      omega

lemma mem_insertEntry {b : Dirent} (h : b ∈ insertEntry es e) : b = e ∨ b ∈ es := by
  induction es with
  | nil =>
    rw [insertEntry_nil] at h
    exact .inl (mem_singleton.mp h)
  | cons a es ih =>
    rw [insertEntry_cons] at h
    split at h
    · exact (mem_cons.mp h).imp_right (mem_cons_of_mem a)
    rcases mem_cons.mp h with rfl | hb
    · exact .inr mem_cons_self
    · exact (ih hb).imp_right (mem_cons_of_mem a)

lemma length_insertEntry :
    (insertEntry es e).length = es.length + if freeSlot es < es.length then 0 else 1 := by
  unfold insertEntry
  split <;> simp

lemma countP_clear (hq : ∀ e, e.inum = 0 → q e = false) (hk : es[k]? = some e) :
    (es.set k ⟨0, []⟩).countP q + (if q e then 1 else 0) = es.countP q := by
  induction es generalizing k with
  | nil => simp at hk
  | cons a es ih =>
    rcases k with _ | k
    · obtain rfl : a = e := by simpa using hk
      simp [countP_cons, hq ⟨0, []⟩ rfl]
    rw [set_cons_succ, countP_cons, countP_cons, ← ih (by simpa using hk)]
    omega

section
variable (h : Shaped d par es)
include h

lemma Shaped.insertEntry (he : Name.Plain e.name) : Shaped d par (insertEntry es e) := by
  obtain ⟨⟨rest, rfl, hrest⟩, hd, hpar⟩ := h
  refine ⟨⟨File.insertEntry rest e, ?_, ?_⟩, hd, hpar⟩
  · rw [insertEntry_cons, if_neg hd, insertEntry_cons, if_neg hpar]
  intro b hb
  rcases mem_insertEntry hb with rfl | hmem
  · exact fun _ => he
  · exact hrest b hmem

/-- The first two entries are not plain. -/
lemma Shaped.clear (hk : es[k]? = some e) (he : Name.Plain e.name) :
    Shaped d par (es.set k ⟨0, []⟩) := by
  obtain ⟨⟨rest, rfl, hrest⟩, hd, hpar⟩ := h
  match k with
  | 0 =>
    obtain rfl : ⟨d, dot⟩ = e := by simpa using hk
    exact absurd rfl he.1
  | 1 =>
    obtain rfl : ⟨par, dotdot⟩ = e := by simpa using hk
    exact absurd rfl he.2
  | k + 2 =>
    refine ⟨⟨rest.set k ⟨0, []⟩, rfl, ?_⟩, hd, hpar⟩
    intro b hb
    rcases mem_or_eq_of_mem_set hb with hmem | rfl
    · exact hrest b hmem
    · exact fun h => absurd rfl h

lemma Shaped.unique {par' : Inum} (h' : Shaped d par' es) : par = par' := by
  obtain ⟨⟨rest, rfl, -⟩, -, -⟩ := h
  obtain ⟨⟨rest', heq, -⟩, -, -⟩ := h'
  simp at heq
  exact heq.1

/-- The counts of a directory with no entries behind `.` and `..`. -/
lemma Shaped.countP_of_empty (hempty : (es.drop 2).all (·.inum == 0))
    (hq : ∀ e, e.inum = 0 → q e = false) :
    es.countP q = (if q ⟨d, dot⟩ then 1 else 0) + if q ⟨par, dotdot⟩ then 1 else 0 := by
  obtain ⟨⟨rest, rfl, -⟩, -, -⟩ := h
  have hzero : rest.countP q = 0 := by
    rw [countP_eq_zero]
    intro e he
    have := all_eq_true.mp hempty e he
    simp [hq e (by simpa using this)]
  rw [countP_cons, countP_cons, hzero]
  omega

end
end Entries

section Counts
variable {v w : Store} {i d a b : Inum} {e : Dirent} {q : Dirent → Bool} {x y : Node} {p : Pid}

lemma linkTo_free (hi : i ≠ 0) : ∀ e : Dirent, e.inum = 0 → linkTo i e = false := by
  intro e he
  simp [linkTo, he, hi.symm]

lemma plainTo_free (hi : i ≠ 0) : ∀ e : Dirent, e.inum = 0 → plainTo i e = false := by
  intro e he
  simp [plainTo, he, hi.symm]

variable {c : Inum}

@[simp] lemma linkTo_dot : linkTo i ⟨c, dot⟩ = false := by simp [linkTo]

@[simp] lemma linkTo_dotdot : linkTo i ⟨c, dotdot⟩ = decide (c = i) := by
  unfold linkTo
  rw [show (dotdot != dot) = true by decide, Bool.and_true]
  rfl

lemma linkTo_plain {n : Name} (hn : Name.Plain n) : linkTo i ⟨c, n⟩ = decide (c = i) := by
  unfold linkTo
  rw [show (n != dot) = true from bne_iff_ne.mpr hn.1, Bool.and_true]
  rfl

@[simp] lemma plainTo_dot : plainTo i ⟨c, dot⟩ = false := by
  simp [plainTo, Name.Plain]

@[simp] lemma plainTo_dotdot : plainTo i ⟨c, dotdot⟩ = false := by
  simp [plainTo, Name.Plain]

lemma plainTo_plain {n : Name} (hn : Name.Plain n) : plainTo i ⟨c, n⟩ = decide (c = i) := by
  unfold plainTo
  rw [decide_eq_true hn, Bool.and_true]
  rfl

lemma inum_of_linkTo (h : linkTo i e = true) : e.inum = i ∧ e.name ≠ dot := by
  simpa [linkTo] using h

lemma inum_of_plainTo (h : plainTo i e = true) : e.inum = i ∧ Name.Plain e.name := by
  simpa [plainTo] using h

lemma Node.count_dir {n : Node} (h : n.info.type = .dir) : n.count q = n.ents.countP q := if_pos h

lemma Node.count_of_ne {n : Node} (h : n.info.type ≠ .dir) : n.count q = 0 := if_neg h

lemma Node.count_le (n : Node) : n.count q ≤ 32 * blocksFor n.size := by
  unfold Node.count Node.size
  split
  case isTrue =>
    have hdiv : n.ents.length ≤ 32 * ((DIRENTSIZE * n.ents.length + (BSIZE - 1)) / BSIZE) := by
      have hsize : DIRENTSIZE = 16 ∧ BSIZE = 512 := by decide
      rw [hsize.1, hsize.2]
      omega
    refine (countP_le_length.trans hdiv).trans (Nat.mul_le_mul_left 32 ?_)
    unfold blocksFor
    simp only
    split
    · exact le_rfl
    · exact Nat.le_succ _
  case isFalse => exact Nat.zero_le _

lemma Store.count_le : v.count q ≤ 32 * v.blocks := by
  have := tally_le_mul (S := Finset.range v.ninodes) (f := v.node) (Node.count_le (q := q))
  unfold Store.count Store.blocks
  omega

lemma Store.count_pos (hd : v.type d = .dir) (hlt : d < v.ninodes) (he : e ∈ (v.node d).ents)
    (hq : q e = true) : 0 < v.count q := by
  refine tally_pos_iff.mpr ⟨d, Finset.mem_range.mpr hlt, ?_⟩
  rw [Node.count_dir hd]
  exact countP_pos_iff.mpr ⟨e, he, hq⟩

lemma Store.exists_of_count_pos (h : 0 < v.count q) :
    ∃ d, v.type d = .dir ∧ ∃ e ∈ (v.node d).ents, q e = true := by
  obtain ⟨d, -, hpos⟩ := tally_pos_iff.mp h
  unfold Node.count at hpos
  split at hpos
  case isTrue hdir => exact ⟨d, hdir, countP_pos_iff.mp hpos⟩
  case isFalse => exact absurd hpos (lt_irrefl 0)

section
variable (hn : w.ninodes = v.ninodes)
  (hnode : w.node = Function.update (Function.update v.node a x) b y) (ha : a < v.ninodes)
  (hb : b < v.ninodes) (hab : b ≠ a)
include hn hnode ha hb hab

lemma Store.count_two :
    w.count q + (v.node a).count q + (v.node b).count q = v.count q + x.count q + y.count q := by
  unfold Store.count
  rw [hn, hnode]
  exact tally_update_two (Finset.mem_range.mpr ha) (Finset.mem_range.mpr hb) hab

lemma Store.blocks_two :
    w.blocks + v.nfree + blocksFor (v.node a).size + blocksFor (v.node b).size =
      v.blocks + w.nfree + blocksFor x.size + blocksFor y.size := by
  unfold Store.blocks
  rw [hn, hnode]
  have := tally_update_two (w := fun n : Node => blocksFor n.size) (f := v.node) (x := x) (y := y)
    (Finset.mem_range.mpr ha) (Finset.mem_range.mpr hb) hab
  omega

end

end Counts

namespace Store.Tree

variable {v : Store} {i d : Inum} {e : Dirent} {p : Pid} {name : Name}

lemma dir_lt (h : v.Tree) (hd : v.type d = .dir) : d < v.ninodes :=
  (h.range d (by rw [hd]; decide)).2

lemma ne_zero (h : v.Tree) (hi : v.type i ≠ .free) : i ≠ 0 :=
  Nat.one_le_iff_ne_zero.mp (h.range i hi).1

lemma count_lt (h : v.Tree) {q : Dirent → Bool} : v.count q ≤ 32000 := by
  have h1 := h.capacity
  have h2 := Store.count_le (v := v) (q := q)
  unfold FSSIZE at h1
  omega

section
variable (h : v.Tree) (hd : v.type d = .dir)
include h hd

lemma nlink_pos (he : e ∈ (v.node d).ents) (hlive : e.inum ≠ 0) (hname : e.name ≠ dot) :
    0 < (v.node e.inum).info.nlink.toInt := by
  rw [h.nlink e.inum (h.entry d hd e he hlive)]
  exact_mod_cast Store.count_pos hd (h.dir_lt hd) he (by simp [linkTo, hname])

lemma dot_self (he : e ∈ (v.node d).ents) (hlive : e.inum ≠ 0) (hname : e.name = dot) :
    d = e.inum := by
  obtain ⟨par, ⟨rest, hents, hrest⟩, -, -⟩ := h.shaped d hd
  rw [hents] at he
  rcases mem_cons.mp he with rfl | he
  · rfl
  rcases mem_cons.mp he with rfl | he
  · exact absurd hname (show ¬ dotdot = dot by decide)
  · exact absurd hname (hrest e he hlive).1

lemma plain_of_lookup (hnone : v.lookup d name = none) : Name.Plain name := by
  obtain ⟨par, ⟨rest, hents, -⟩, hdne, hpar⟩ := h.shaped d hd
  have hmiss := Store.scan_none hnone
  rw [hents] at hmiss
  constructor
  · rintro rfl
    exact hmiss ⟨d, dot⟩ (by simp) hdne rfl
  · rintro rfl
    exact hmiss ⟨par, dotdot⟩ (by simp) hpar rfl

lemma nlink_dir : 0 < (v.node d).info.nlink.toInt := by
  by_cases hroot : d = ROOTINO
  · obtain ⟨⟨rest, hents, -⟩, -, -⟩ := h.rootParent
    have hmem : ⟨ROOTINO, dotdot⟩ ∈ (v.node ROOTINO).ents := by rw [hents]; simp
    have hpos := h.nlink_pos h.root hmem (by decide) (by decide)
    rwa [hroot]
  have hcount : 0 < v.count (plainTo d) := by
    rw [h.named d hd, if_neg hroot]
    exact Nat.one_pos
  obtain ⟨d', hd', e, he, hq⟩ := Store.exists_of_count_pos hcount
  have hq := inum_of_plainTo hq
  have hne : e.inum ≠ 0 := by
    rw [hq.1]
    exact h.ne_zero (by rw [hd]; decide)
  have := h.nlink_pos hd' he hne hq.2.1
  rwa [hq.1] at this

lemma nlink_ne_zero : (v.node d).info.nlink ≠ 0 := by
  intro hzero
  have := h.nlink_dir hd
  rw [hzero] at this
  exact absurd this (by decide)

end
end Store.Tree

namespace Store.Consistent

variable {v : Store} {i : Inum} {p : Pid}

section
variable (h : v.Consistent)
include h

lemma ref_eq : v.ref i = v.cwds i + v.files i := (h.refs i).trans (by simp)

lemma ref_cwd (hi : v.cwd p = some i) : 0 < v.ref i := by
  rw [h.ref_eq]
  have : 0 < v.cwds i := tally_ite_pos_iff.mpr ⟨p, Finset.mem_univ p, hi⟩
  omega

lemma ready (hp : v.cwd p = some i) : v.Ready p where
  root := by
    rw [h.root]
    decide
  cwd := ⟨i, hp, h.ref_cwd hp, by rw [h.cwdDir p i hp]; decide⟩
  entry := h.entry
  kept := h.kept

lemma usable (hp : v.cwd p = some i) : v.Usable p where
  toReady := h.ready hp
  noSelf := h.noSelf
  linked := by
    intro d hd e he hlive hplain
    have := h.nlink_pos hd he hlive hplain.1
    rw [Int16.lt_iff_toInt_lt]
    exact not_lt.mpr this
  closed := h.closed

end
end Store.Consistent

/-- The inode cache between two calls: nothing is locked, copies agree with the disk, and
inodes without links are loaded. -/
structure Settled (s : FsState) : Prop where
  unlocked : ∀ i, s.lock i = none
  coherent : ∀ i, 0 < s.ref i → s.valid i = true → s.info i = (s.node i).info ∧ s.type i ≠ .free
  orphan : ∀ i, s.type i ≠ .free → (s.node i).info.nlink = 0 → 0 < s.ref i ∧ s.valid i = true

/-- What holds between two calls. -/
structure Sound (s : FsState) : Prop where
  settled : Settled s
  consistent : s.Consistent

variable {p : Pid} {s : FsState}

lemma Settled.rep (h : Settled s) (p : Pid) : Rep p ⟨∅, s.toStore⟩ s := by
  refine ⟨rfl, fun i => ⟨fun hi => ?_, fun _ => h.unlocked i, h.coherent i, fun hi => ?_,
    h.orphan i⟩⟩
  · exact absurd hi (Finset.notMem_empty i)
  · exact absurd hi (Finset.notMem_empty i)

lemma Rep.settled {b : View} (h : Rep p b s) (hb : b.held = ∅) : Settled s := by
  have hstore := h.store
  refine ⟨fun i => ?_, fun i => ?_, fun i => ?_⟩
  · exact (h.slot i).unlocked (by simp [hb])
  · rw [hstore]
    exact (h.slot i).coherent
  · rw [hstore]
    exact (h.slot i).orphan

/-- A disk with the file `a` in its root directory, where two processes are. -/
def image : FsState where
  ninodes := 8
  ninodes_lt := by decide
  nfree := 100
  node
    | 1 => { info := { type := .dir, nlink := 1 }, ents := [⟨1, dot⟩, ⟨1, dotdot⟩, ⟨2, [0x61]⟩] }
    | 2 => { info := { type := .file, nlink := 1 } }
    | _ => {}
  ref i := if i = 1 then 2 else 0
  file _ := { ip := 0 }
  cwd p := if p.val < 2 then some 1 else none
  ofile _ _ := none
  initproc := 0
  lock _ := none
  valid _ := false
  info _ := {}

lemma image_settled : Settled image := by
  refine ⟨fun _ => rfl, fun i _ hvalid => absurd hvalid (by simp [image]), fun i htype hlink => ?_⟩
  obtain _ | _ | _ | i := i
  · exact absurd rfl htype
  · exact absurd hlink (by decide)
  · exact absurd hlink (by decide)
  · exact absurd rfl htype

lemma image_type_dir {d : Inum} (h : image.type d = .dir) : d = 1 := by
  obtain _ | _ | _ | d := d
  · exact absurd h (by decide)
  · rfl
  · exact absurd h (by decide)
  · exact absurd h (by simp [Store.type, image])

lemma image_type {i : Inum} (h : image.type i ≠ .free) : i = 1 ∨ i = 2 := by
  obtain _ | _ | _ | i := i
  · exact absurd rfl h
  · exact .inl rfl
  · exact .inr rfl
  · exact absurd rfl h

lemma image_tree : image.Tree where
  root := rfl
  range := by
    intro i hi
    rcases image_type hi with rfl | rfl <;> decide
  shaped := by
    intro d hd
    rw [image_type_dir hd]
    exact ⟨1, ⟨[⟨2, [0x61]⟩], rfl, by decide⟩, by decide, by decide⟩
  entry := by
    intro d hd
    rw [image_type_dir hd]
    decide
  noSelf := by
    intro d hd
    rw [image_type_dir hd]
    decide
  nlink := by
    intro i hi
    rcases image_type hi with rfl | rfl <;> decide +kernel
  named := by
    intro d hd
    rw [image_type_dir hd]
    decide +kernel
  parent := by
    intro d d' hd hd' e he hed hplain
    have hnone : ∀ e ∈ (image.node 1).ents, e.inum = 1 → ¬ Name.Plain e.name := by decide
    rw [image_type_dir hd] at hed
    rw [image_type_dir hd'] at he
    exact absurd hplain (hnone e he hed)
  rootParent := ⟨⟨[⟨2, [0x61]⟩], rfl, by decide⟩, by decide, by decide⟩
  capacity := by decide +kernel

lemma image_sound : Sound image where
  settled := image_settled
  consistent := by
    refine ⟨image_tree, ?_, ?_, ?_, ?_, fun _ _ => rfl,
      fun i htype hlink => (image_settled.orphan i htype hlink).1⟩
    · intro i
      by_cases hi : i = 1
      · subst hi
        decide +kernel
      have hcwds : image.cwds i = 0 := by
        refine tally_eq_zero_iff.mpr fun p _ => if_neg fun hp => ?_
        have : (if p.val < 2 then some 1 else none) = some i := hp
        split at this
        · exact hi (Option.some.inj this).symm
        · cases this
      have hfiles : image.files i = 0 :=
        tally_eq_zero_iff.mpr fun f _ => if_neg fun hf => nomatch hf.1
      rw [hcwds, hfiles]
      exact if_neg hi
    · intro p i hp
      have : (if p.val < 2 then some 1 else none) = some i := hp
      split at this
      · rw [← Option.some.inj this]
        rfl
      · cases this
    · intro f hf
      exact nomatch hf
    · intro f
      exact (tally_eq_zero_iff.mpr fun p _ => tally_eq_zero_iff.mpr fun fd _ => rfl).symm

end Xv6.File
