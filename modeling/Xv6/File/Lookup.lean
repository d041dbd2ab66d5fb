import Xv6.File.Rules

/-!
# Path lookup

`Store.namex` is what a path stands for, read off the store. The loop of `namex`
computes it, with one reference to the inode that it finds and everything else as
it was.
-/

namespace Xv6.File
open Fs Lib Finset

namespace Store

variable (v : Store)

/-- The inode behind a list of names, or the directory of the last name. -/
def walk (parent : Bool) : List Name → Inum → Option (Inum × Name)
  | [], i => if parent then none else some (i, [])
  | name :: names, i =>
    if v.type i ≠ .dir then none
    else if parent && names.isEmpty then some (i, name)
    else
      match v.lookup i name with
      | none => none
      | some (next, _) => walk parent names next

/-- Where process `p` starts to look for a path. -/
def start (p : Pid) (path : Path) : Option Inum :=
  if path.head? = some slash then some ROOTINO else v.cwd p

/-- The inode that a path names, or the parent and the last name. -/
def namex (p : Pid) (path : Path) (parent : Bool) : Option (Inum × Name) :=
  match v.start p path with
  | none => none
  | some i => v.walk parent (pathElements path) i

/-- There is room for every inode on the way; a lookup keeps a reference to where it stands. -/
def WalkRoom (parent : Bool) : List Name → Inum → Prop
  | [], _ => True
  | name :: names, i =>
    if v.type i ≠ .dir then True
    else if parent && names.isEmpty then True
    else
      match v.lookup i name with
      | none => True
      | some (next, _) => (v.addRef i).Room next ∧ WalkRoom parent names next

instance decidableWalkRoom (parent : Bool) : ∀ names i, Decidable (v.WalkRoom parent names i)
  | [], _ => isTrue trivial
  | name :: names, i =>
    if hdir : v.type i ≠ .dir then isTrue (by simp [WalkRoom, hdir])
    else if hlast : parent && names.isEmpty then isTrue (by simp [WalkRoom, hlast])
    else
      match hc : v.lookup i name with
      | none => isTrue (by simp [WalkRoom, hc])
      | some (next, _) =>
        have := decidableWalkRoom parent names next
        decidable_of_iff ((v.addRef i).Room next ∧ v.WalkRoom parent names next)
          (by rw [WalkRoom, if_neg hdir, if_neg hlast, hc])

/-- There is room for every inode that the lookup of a path gets. -/
def NamexRoom (p : Pid) (path : Path) (parent : Bool) : Prop :=
  (path.head? = some slash → v.Room ROOTINO) ∧
    ∀ i ∈ v.start p path, v.WalkRoom parent (pathElements path) i

instance (p : Pid) (path : Path) (parent : Bool) : Decidable (v.NamexRoom p path parent) :=
  inferInstanceAs (Decidable (_ ∧ _))

/-- Inodes without links are in use. -/
def Kept : Prop := ∀ i, v.type i ≠ .free → (v.node i).info.nlink = 0 → 0 < v.ref i

/-- Every entry names an allocated inode. -/
def NoDangling : Prop :=
  ∀ d, v.type d = .dir → ∀ e ∈ (v.node d).ents, e.inum ≠ 0 → v.type e.inum ≠ .free

/-- What a path lookup of process `p` relies on. -/
structure Ready (p : Pid) : Prop where
  root : v.type ROOTINO ≠ .free
  cwd : ∃ i, v.cwd p = some i ∧ 0 < v.ref i ∧ v.type i ≠ .free
  entry : v.NoDangling
  kept : v.Kept

/-- Free an inode that nothing refers to. -/
def reap (i : Inum) : Store :=
  if v.type i ≠ .free ∧ (v.node i).info.nlink = 0 ∧ v.ref i = 0 then v.freeInode i else v

variable {v} {i j : Inum}

lemma addRef_comm : (v.addRef i).addRef j = (v.addRef j).addRef i := by
  by_cases h : i = j
  · rw [h]
  · simp [addRef, setRef, h, Ne.symm h, Function.update_comm h]

lemma inUse_addRef_le : (v.addRef i).inUse ≤ v.inUse + 1 := by
  refine le_trans (card_le_card ?_) (card_insert_le i _)
  intro j hj
  simp only [mem_filter, mem_insert] at hj ⊢
  by_cases h : j = i
  · exact .inl h
  · exact .inr ⟨hj.1, by simpa [h] using hj.2⟩

lemma put_addRef : (v.addRef i).put i = v.reap i := by
  have hdead : (v.addRef i).Dead i ↔
      v.type i ≠ .free ∧ (v.node i).info.nlink = 0 ∧ v.ref i = 0 := by
    simp [Dead, type]
  unfold put reap
  simp only [hdead]
  split
  · simp [addRef, dropRef, setRef, freeInode, truncate, setInfo, setNode]
  · simp [addRef, dropRef, setRef]

lemma reap_of_kept (h : v.Kept) : v.reap i = v := by
  refine if_neg fun hdead => ?_
  have := h i hdead.1 hdead.2.1
  omega

lemma reap_addRef_of_ne (h : i ≠ j) : (v.addRef i).reap j = (v.reap j).addRef i := by
  have hdead : ((v.addRef i).type j ≠ .free ∧ ((v.addRef i).node j).info.nlink = 0 ∧
      (v.addRef i).ref j = 0) ↔
      (v.type j ≠ .free ∧ (v.node j).info.nlink = 0 ∧ v.ref j = 0) := by
    simp [type, h.symm]
  unfold reap
  simp only [hdead]
  split <;> rfl

lemma Kept.addRef (h : v.Kept) : (v.addRef i).Kept := by
  intro j htype hlink
  have := h j htype hlink
  by_cases hj : j = i
  · simp [hj]
  · simpa [hj] using this

lemma put_addRef_addRef (h : v.Kept) : ((v.addRef i).addRef j).put i = v.addRef j := by
  rw [addRef_comm, put_addRef, reap_of_kept h.addRef]

variable {name : Name} {es : List Dirent} {c k : ℕ}

lemma scan_some {n : ℕ} (h : scan name es k = some (c, n)) :
    k ≤ n ∧ es[n - k]? = some ⟨c, name⟩ ∧ c ≠ 0 := by
  induction es generalizing k with
  | nil => simp [scan] at h
  | cons e es ih =>
    unfold scan at h
    split at h
    case isTrue he =>
      simp only [Option.some.injEq, Prod.mk.injEq] at h
      obtain ⟨rfl, rfl⟩ := h
      refine ⟨le_refl k, ?_, he.1⟩
      simp [← he.2]
    case isFalse he =>
      obtain ⟨hk, hn, hc⟩ := ih h
      refine ⟨by omega, ?_, hc⟩
      rw [show n - k = (n - (k + 1)) + 1 by omega]
      simpa using hn

lemma scan_none (h : scan name es k = none) : ∀ e ∈ es, e.inum ≠ 0 → e.name ≠ name := by
  induction es generalizing k with
  | nil => simp
  | cons e es ih =>
    unfold scan at h
    split at h
    case isTrue => exact absurd h (by simp)
    case isFalse he =>
      intro e' he'
      rcases List.mem_cons.mp he' with rfl | hmem
      · exact fun hi hn => he ⟨hi, hn⟩
      · exact ih h e' hmem

variable {dp : Inum}

lemma lookup_some (h : v.lookup dp name = some (c, k)) :
    (v.node dp).ents[k]? = some ⟨c, name⟩ ∧ c ≠ 0 := by
  have := scan_some h
  exact ⟨by simpa using this.2.1, this.2.2⟩

lemma lookup_mem (h : v.lookup dp name = some (c, k)) :
    ⟨c, name⟩ ∈ (v.node dp).ents :=
  List.mem_of_getElem? (lookup_some h).1

lemma NoDangling.lookup (h : v.NoDangling) (hdp : v.type dp = .dir)
    (hc : v.lookup dp name = some (c, k)) : v.type c ≠ .free := by
  exact h dp hdp _ (lookup_mem hc) (lookup_some hc).2

lemma NoDangling.walk {parent : Bool} {names : List Name} (h : v.NoDangling)
    (hj : v.type j ≠ .free) (hi : v.walk parent names j = some (i, name)) :
    v.type i ≠ .free ∧ (parent = true → v.type i = .dir) := by
  induction names generalizing j with
  | nil =>
    cases parent with
    | false =>
      obtain ⟨rfl, -⟩ : j = i ∧ [] = name := by simpa [Store.walk] using hi
      exact ⟨hj, by simp⟩
    | true => simp [Store.walk] at hi
  | cons n names ih =>
    unfold Store.walk at hi
    split at hi
    case isTrue => exact absurd hi (by simp)
    case isFalse hdir =>
      have hdir' : v.type j = .dir := not_not.mp hdir
      split at hi
      case isTrue =>
        obtain ⟨rfl, -⟩ : j = i ∧ n = name := by simpa using hi
        exact ⟨hj, fun _ => hdir'⟩
      case isFalse =>
        split at hi
        case h_1 => exact absurd hi (by simp)
        case h_2 next k hnext => exact ih (h.lookup hdir' hnext) hi

/-- A lookup depends on the types and the entries of the inodes only. -/
lemma walk_congr {w : Store} (htype : ∀ i, w.type i = v.type i)
    (hents : ∀ i, (w.node i).ents = (v.node i).ents) (parent : Bool) (names : List Name)
    (i : Inum) : w.walk parent names i = v.walk parent names i := by
  induction names generalizing i with
  | nil => rfl
  | cons n names ih =>
    have hlookup : w.lookup i n = v.lookup i n := by
      unfold lookup
      rw [hents]
    simp only [Store.walk, htype, hlookup, ih]

lemma namex_congr {w : Store} (htype : ∀ i, w.type i = v.type i)
    (hents : ∀ i, (w.node i).ents = (v.node i).ents) (hcwd : w.cwd = v.cwd) (p : Pid)
    (path : Path) (parent : Bool) : w.namex p path parent = v.namex p path parent := by
  unfold namex start
  simp only [hcwd, walk_congr htype hents]

end Store

variable {p : Pid} {E : Stop → Prop} {L : Finset Inum} {v : Store} {i dp : Inum}

lemma exact_iunlockput (hi : i ∈ L) : Exact p E ⟨L, v⟩ (iunlockput i) () ⟨L.erase i, v.put i⟩ :=
  (exact_iunlock hi).seq (exact_iput (notMem_erase i L))

variable {parent : Bool} {names : List Name} {path : Path}

lemma spec_walk (hdang : v.NoDangling) (hkept : v.Kept) (htype : v.type i ≠ .free)
    (hfull : ¬ v.WalkRoom parent names i → E (.panic .iget)) :
    Spec p E ⟨∅, v.addRef i⟩ (walk parent names i) fun r b' =>
      v.WalkRoom parent names i ∧ r = v.walk parent names i ∧
        b' = ⟨∅, v.addRefOf (v.walk parent names i)⟩ := by
  induction names generalizing i with
  | nil =>
    rcases parent with _ | _
    · exact .ret ⟨trivial, rfl, rfl⟩
    refine (exact_iput (notMem_empty i)).seq ?_
    rw [Store.put_addRef, Store.reap_of_kept hkept]
    exact .ret ⟨trivial, rfl, rfl⟩
  | cons name names ih =>
    have href : 0 < (v.addRef i).ref i := by simp
    have hheld := mem_insert_self i ∅
    have hback : Exact p E ⟨insert i ∅, v.addRef i⟩ (iunlockput i) () ⟨∅, v⟩ := by
      have := exact_iunlockput (p := p) (E := E) (v := v.addRef i) hheld
      rwa [erase_insert (notMem_empty i), Store.put_addRef, Store.reap_of_kept hkept] at this
    unfold walk Store.walk
    unfold Store.WalkRoom at hfull ⊢
    refine (exact_ilock (notMem_empty i) href htype).seq ?_
    refine (exact_getMeta hheld).seq ?_
    by_cases hdir : v.type i = .dir
    · rw [if_neg (show ¬ ((v.addRef i).node i).info.type ≠ .dir from not_not_intro hdir)]
      simp only [if_neg (not_not_intro hdir)] at hfull ⊢
      split
      case isTrue hlast =>
        have := exact_iunlock (p := p) (E := E) (v := v.addRef i) hheld
        rw [erase_insert (notMem_empty i)] at this
        exact this.seq (.ret ⟨trivial, rfl, rfl⟩)
      case isFalse hlast =>
        rw [if_neg hlast] at hfull
        have hlookup : (v.addRef i).lookup i name = v.lookup i name := rfl
        refine (spec_dirlookup hheld (show (v.addRef i).type i = .dir from hdir) ?_).bind ?_
        · rw [hlookup]
          intro hno
          refine hfull fun hroom => hno ?_
          rcases hc : v.lookup i name with _ | r
          · trivial
          rw [hc] at hroom
          exact hroom.1
        rintro _ _ ⟨hroom, rfl, rfl⟩
        rw [hlookup] at hroom ⊢
        rcases hc : v.lookup i name with _ | r
        · exact hback.seq (.ret ⟨trivial, rfl, rfl⟩)
        rw [hc] at hroom hfull
        have := exact_iunlockput (p := p) (E := E) (v := (v.addRef i).addRef r.1) hheld
        rw [erase_insert (notMem_empty i), Store.put_addRef_addRef hkept] at this
        refine this.seq ((ih (hdang.lookup hdir hc) fun hno => ?_).mono ?_)
        · exact hfull fun hall => hno hall.2
        rintro _ _ ⟨hrest, rfl, rfl⟩
        exact ⟨⟨hroom, hrest⟩, rfl, rfl⟩
    rw [if_pos (show ((v.addRef i).node i).info.type ≠ .dir from hdir)]
    simp only [if_pos hdir]
    exact hback.seq (.ret ⟨trivial, rfl, rfl⟩)

lemma exact_cwd (hi : v.cwd p = some i) : Exact p E ⟨L, v⟩ (perform .cwd) i ⟨L, v⟩ := by
  refine exact_read fun s hs => ?_
  exact fsOp_cwd (hs ▸ hi)

lemma Store.walkRoom_of_inUse (h : v.inUse + 2 ≤ NINODE) : v.WalkRoom parent names i := by
  induction names generalizing i with
  | nil => trivial
  | cons name names ih =>
    unfold Store.WalkRoom
    split
    · trivial
    split
    · trivial
    split
    · trivial
    · have := Store.inUse_addRef_le (v := v) (i := i)
      exact ⟨.inr (by omega), ih⟩

lemma Store.namexRoom_of_inUse (h : v.inUse + 2 ≤ NINODE) : v.NamexRoom p path parent :=
  ⟨fun _ => .inr (by omega), fun _ _ => Store.walkRoom_of_inUse h⟩

section
variable (h : v.Ready p)
include h

lemma spec_pathStart (hi : v.start p path = some i)
    (hfull : ¬ (path.head? = some slash → v.Room ROOTINO) → E (.panic .iget)) :
    Spec p E ⟨∅, v⟩ (pathStart path) fun j b' =>
      (path.head? = some slash → v.Room ROOTINO) ∧ j = i ∧ b' = ⟨∅, v.addRef i⟩ := by
  unfold pathStart
  unfold Store.start at hi
  split
  case isTrue hroot =>
    rw [if_pos hroot] at hi
    cases hi
    refine (spec_iget fun hno => hfull fun hroom => hno (hroom hroot)).mono ?_
    rintro _ _ ⟨hroom, hb⟩
    exact ⟨fun _ => hroom, hb⟩
  case isFalse hroot =>
    rw [if_neg hroot] at hi
    obtain ⟨c, hcwd, href, _⟩ := h.cwd
    obtain rfl := Option.some.inj (hi.symm.trans hcwd)
    exact (exact_cwd hi).seq ((exact_idup href).seq
      (.ret ⟨fun h => absurd h hroot, rfl, rfl⟩))

lemma Store.Ready.start (path : Path) : ∃ i, v.start p path = some i ∧ v.type i ≠ .free := by
  unfold Store.start
  split
  · exact ⟨ROOTINO, rfl, h.root⟩
  obtain ⟨c, hcwd, -, htype⟩ := h.cwd
  exact ⟨c, hcwd, htype⟩

lemma Store.Ready.namex {name : Name} (hi : v.namex p path parent = some (i, name)) :
    v.type i ≠ .free ∧ (parent = true → v.type i = .dir) := by
  obtain ⟨j, hstart, htype⟩ := h.start path
  unfold Store.namex at hi
  rw [hstart] at hi
  exact h.entry.walk htype hi

lemma spec_namex (hfull : ¬ v.NamexRoom p path parent → E (.panic .iget)) :
    Spec p E ⟨∅, v⟩ (namex path parent) fun r b' =>
      v.NamexRoom p path parent ∧ r = v.namex p path parent ∧
        b' = ⟨∅, v.addRefOf (v.namex p path parent)⟩ := by
  obtain ⟨i, hstart, htype⟩ := h.start path
  have hall : v.NamexRoom p path parent ↔ (path.head? = some slash → v.Room ROOTINO) ∧
      v.WalkRoom parent (pathElements path) i := by
    simp [Store.NamexRoom, hstart]
  rw [hall] at hfull ⊢
  unfold namex Store.namex
  rw [hstart]
  refine (spec_pathStart h hstart fun hno => hfull fun hroom => hno hroom.1).bind ?_
  rintro _ _ ⟨hroom, rfl, rfl⟩
  refine (spec_walk h.entry h.kept htype fun hno => hfull fun hroom => hno hroom.2).mono ?_
  rintro _ _ ⟨hrest, hb⟩
  exact ⟨⟨hroom, hrest⟩, hb⟩

lemma exact_namex (hroom : E (.panic .iget) ∨ v.inUse + 2 ≤ NINODE) :
    Exact p E ⟨∅, v⟩ (namex path parent) (v.namex p path parent)
      ⟨∅, v.addRefOf (v.namex p path parent)⟩ := by
  refine (spec_namex h fun hno => ?_).mono fun _ _ hb => hb.2
  exact hroom.resolve_right fun hcount => hno (Store.namexRoom_of_inUse hcount)

end
end Xv6.File
