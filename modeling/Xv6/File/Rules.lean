import Xv6.File.Inodes
import Xv6.Lib.Triple

/-!
# Rules for a process that runs alone

Between the calls, and to a process that runs alone, the copies in the inode
cache do not matter: what an inode is can be read off the store. A `View` is the
store together with the inodes that the process has locked, and each function of
`fs.c` has one rule for what it does to the view.
-/

namespace Xv6.File
open Fs Lib Exec

/-- What a process that runs alone sees: the inodes that it has locked, and the store. -/
structure View where
  held : Finset Inum
  store : Store

/-- One inode: whether it is locked, its node and reference count in the store, and the lock
and the copy in the inode cache. -/
structure Slot (p : Pid) (held : Prop) (n : Node) (r : ℕ) (lock : Option Pid) (valid : Bool)
    (copy : Meta) : Prop where
  locked : held → lock = some p
  unlocked : ¬ held → lock = none
  coherent : 0 < r → valid = true → copy = n.info ∧ n.info.type ≠ .free
  loaded : held → 0 < r ∧ valid = true
  orphan : n.info.type ≠ .free → n.info.nlink = 0 → 0 < r ∧ valid = true

/-- A state and its view. -/
structure Rep (p : Pid) (b : View) (s : FsState) : Prop where
  store : s.toStore = b.store
  slot : ∀ i, Slot p (i ∈ b.held) (b.store.node i) (b.store.ref i) (s.lock i) (s.valid i) (s.info i)

/-- A program with a postcondition on views. -/
abbrev Spec {α : Type} (p : Pid) (E : Stop → Prop) (b : View) (x : Call α)
    (Q : α → View → Prop) : Prop :=
  Prog.Triple (fsOp p) (Rep p) E b x Q

/-- A program that changes the view in one way only. -/
abbrev Exact {α : Type} (p : Pid) (E : Stop → Prop) (b : View) (x : Call α) (a : α)
    (b' : View) : Prop :=
  Prog.Does (fsOp p) (Rep p) E b x a b'

/-- Put an entry into the first slot that is free, or at the end. -/
def insertEntry (es : List Dirent) (e : Dirent) : List Dirent :=
  if freeSlot es < es.length then es.set (freeSlot es) e else es ++ [e]

/-- The directory after `dirlink`. -/
def Node.withEntry (n : Node) (e : Dirent) : Node := { n with ents := insertEntry n.ents e }

/-- An inode with another link count. -/
def Node.withLinks (n : Node) (d : Int16) : Node :=
  { n with info := { n.info with nlink := n.info.nlink + d } }

/-- The blocks that one more entry takes. -/
def entryCost (es : List Dirent) : ℕ := if freeSlot es < es.length then 0 else growth es

namespace Store

variable (v : Store)

/-- `iput` frees the inode: it has no links, and the reference is the last one. -/
def Dead (i : Inum) : Prop := v.type i ≠ .free ∧ (v.node i).info.nlink = 0 ∧ v.ref i = 1

instance (i : Inum) : Decidable (v.Dead i) := inferInstanceAs (Decidable (_ ∧ _ ∧ _))

/-- Free an inode and its blocks. -/
def freeInode (i : Inum) : Store := (v.truncate i (v.node i).info).setInfo i (v.node i).info.freed

/-- `iput` -/
def put (i : Inum) : Store := if v.Dead i then (v.freeInode i).dropRef i else v.dropRef i

/-- `dirlookup`, without the reference that it takes. -/
def lookup (dp : Inum) (name : Name) : Option (Inum × ℕ) := scan name (v.node dp).ents 0

/-- The reference that a lookup takes. -/
def addRefOf {α : Type} : Option (Inum × α) → Store
  | some (i, _) => v.addRef i
  | none => v

/-- The entry that `dirlink` writes. -/
def addEntry (dp : Inum) (e : Dirent) : Store :=
  { v.setNode dp ((v.node dp).withEntry e) with
    nfree := v.nfree - entryCost (v.node dp).ents }

/-- There is room for one more entry. -/
def Fits (dp : Inum) : Prop := entryCost (v.node dp).ents ≤ v.nfree

/-- A directory with one more entry is not larger than a file may be. -/
def Growable (dp : Inum) : Prop :=
  freeSlot (v.node dp).ents < (v.node dp).ents.length ∨
    DIRENTSIZE * ((v.node dp).ents.length + 1) ≤ MAXFILE * BSIZE

/-- `iget` finds the inode in the cache, or a free entry for it. -/
def Room (i : Inum) : Prop := 0 < v.ref i ∨ v.inUse < NINODE

instance (i : Inum) : Decidable (v.Room i) := inferInstanceAs (Decidable (_ ∨ _))

/-- Change a link count. -/
def addLinks (i : Inum) (d : Int16) : Store := v.setNode i ((v.node i).withLinks d)

end Store

variable {p : Pid} {E : Stop → Prop} {L : Finset Inum} {v : Store} {s : FsState} {i dp : Inum}

lemma Rep.change {b b' : View} {s' : FsState} (i : Inum) (h : Rep p b s)
    (hstore : s'.toStore = b'.store)
    (hother : ∀ j, j ≠ i → (j ∈ b'.held ↔ j ∈ b.held) ∧ b'.store.node j = b.store.node j ∧
      b'.store.ref j = b.store.ref j ∧ s'.lock j = s.lock j ∧ s'.valid j = s.valid j ∧
      s'.info j = s.info j)
    (hslot : Slot p (i ∈ b'.held) (b'.store.node i) (b'.store.ref i) (s'.lock i) (s'.valid i)
      (s'.info i)) : Rep p b' s' := by
  refine ⟨hstore, fun j => ?_⟩
  by_cases hj : j = i
  · rw [hj]
    exact hslot
  obtain ⟨hheld, hnode, href, hlock, hvalid, hinfo⟩ := hother j hj
  rw [hheld, hnode, href, hlock, hvalid, hinfo]
  exact h.slot j

variable {f : Store → Store} {name : Name} {c : Inum} {t : FileType} {major minor : Int16}

section
variable (h : Rep p ⟨L, v⟩ s)
include h

/-- Changes of the file table and the processes do not matter to inodes. -/
lemma Rep.frame (hnode : (f v).node = v.node) (href : (f v).ref = v.ref) :
    Rep p ⟨L, f v⟩ (s.onStore f) := by
  obtain ⟨hstore, hslot⟩ := h
  refine ⟨congrArg f hstore, fun j => ?_⟩
  simp only [hnode, href]
  exact hslot j

lemma Rep.toStore_eq : s.toStore = v := h.store

lemma Rep.slotAt (i : Inum) :
    Slot p (i ∈ L) (v.node i) (v.ref i) (s.lock i) (s.valid i) (s.info i) :=
  h.slot i

end

lemma Slot.lock {n : Node} {r : ℕ} (hr : 0 < r) (htype : n.info.type ≠ .free) {copy : Meta}
    (hcopy : copy = n.info) : Slot p True n r (some p) true copy :=
  ⟨fun _ => rfl, fun h => absurd trivial h, fun _ _ => ⟨hcopy, htype⟩, fun _ => ⟨hr, rfl⟩,
    fun _ _ => ⟨hr, rfl⟩⟩

lemma exact_ilock (hi : i ∉ L) (href : 0 < v.ref i) (htype : v.type i ≠ .free) :
    Exact p E ⟨L, v⟩ (ilock i) () ⟨insert i L, v⟩ := by
  intro s hs
  obtain rfl := hs.toStore_eq
  have hlock : s.lock i = none := (hs.slot i).unlocked hi
  have href' : ¬ s.ref i < 1 := by omega
  refine (Prog.wp_bind _ _).mpr (wp_ref.mpr ?_)
  rw [if_neg href']
  refine (Prog.wp_bind _ _).mpr (wp_acquire.mpr ?_)
  rw [if_pos hlock]
  refine wp_load.mpr ?_
  split
  case isTrue hvalid =>
    refine ⟨_, hs.change i rfl ?_ ?_, rfl, rfl⟩
    · intro j hj
      simp [hj]
    · have hcopy := ((hs.slot i).coherent href hvalid).1
      simpa [show s.valid i = true from hvalid] using Slot.lock href htype hcopy
  case isFalse hvalid =>
    rw [if_neg (show ¬ (s.setLock i (some p)).type i = .free from htype)]
    refine ⟨_, hs.change i rfl ?_ ?_, rfl, rfl⟩
    · intro j hj
      simp [hj]
    · simpa using Slot.lock href htype rfl

lemma exact_iunlock (hi : i ∈ L) : Exact p E ⟨L, v⟩ (iunlock i) () ⟨L.erase i, v⟩ := by
  intro s hs
  obtain rfl := hs.toStore_eq
  have hslot := hs.slotAt i
  have hlock : (s.lock i == some p) = true := by simp [hslot.locked hi]
  have href : ¬ s.ref i < 1 := by
    have : 0 < s.ref i := (hslot.loaded hi).1
    omega
  have hrun : (iunlock i).run (fsOp p) s = .ok () (s.setLock i none) := by
    have hdo : (iunlock i).run (fsOp p) s =
        (if !(s.lock i == some p) || s.ref i < 1 then panicWith .iunlock
          else perform (.release i) : Call Unit).run (fsOp p) s := rfl
    rw [hdo, if_neg (by simp [hlock, href])]
    rfl
  refine wp_of_ok hrun ⟨_, hs.change i rfl ?_ ?_, rfl, rfl⟩
  · intro j hj
    simp [hj]
  constructor
  · simp
  · simp
  · exact hslot.coherent
  · simp
  · exact hslot.orphan

lemma run_iputLocked (s : FsState) : (iputLocked i).run (fsOp p) s = .ok ()
    (if s.valid i = true ∧ (s.info i).nlink = 0 ∧ s.ref i = 1 then
      (((s.onStore (·.truncate i (s.info i))).setCopy i (s.info i).freed).onStore
        (·.setInfo i (s.info i).freed)).setValid i false else s) := by
  have hrun : (iputLocked i).run (fsOp p) s = (if s.valid i && (s.info i).nlink == 0 then
        perform (.ref i) >>= fun r => if r = 1 then ifree i else pure ()
      else pure () : Call Unit).run (fsOp p) s := rfl
  have href : (perform (.ref i) >>= fun r => if r = 1 then ifree i else pure () : Call Unit).run
      (fsOp p) s = (if s.ref i = 1 then ifree i else pure () : Call Unit).run (fsOp p) s := rfl
  rw [hrun]
  by_cases hdead : s.valid i = true ∧ (s.info i).nlink = 0
  · rw [if_pos (by simp [hdead]), href]
    by_cases hr : s.ref i = 1
    · rw [if_pos hr, if_pos ⟨hdead.1, hdead.2, hr⟩]
      let s' := (s.onStore (·.truncate i (s.info i))).setCopy i (s.info i).freed
      have hfree : (ifree i).run (fsOp p) s =
          .ok () ((s'.onStore (·.setInfo i (s'.info i))).setValid i false) := rfl
      rw [hfree]
      simp [s']
    · rw [if_neg hr, if_neg fun h => hr h.2.2]
      rfl
  · rw [if_neg (by simpa using hdead), if_neg fun h => hdead ⟨h.1, h.2.1⟩]
    rfl

/-- The test of `iput` reads the copy, but decides about the inode. -/
lemma Rep.dead_iff (h : Rep p ⟨L, v⟩ s) :
    (s.valid i = true ∧ (s.info i).nlink = 0 ∧ s.ref i = 1) ↔ v.Dead i := by
  obtain rfl := h.toStore_eq
  have hslot := h.slotAt i
  constructor
  · intro hfree
    have hcopy := hslot.coherent (by omega) hfree.1
    exact ⟨hcopy.2, hcopy.1 ▸ hfree.2.1, hfree.2.2⟩
  intro hdead
  have hvalid := (hslot.orphan hdead.1 hdead.2.1).2
  have hcopy := hslot.coherent (by have := hdead.2.2; omega) hvalid
  exact ⟨hvalid, hcopy.1 ▸ hdead.2.1, hdead.2.2⟩

lemma exact_iput (hi : i ∉ L) : Exact p E ⟨L, v⟩ (iput i) () ⟨L, v.put i⟩ := by
  intro s hs
  obtain rfl := hs.toStore_eq
  have hslot := hs.slotAt i
  have hlock : s.lock i = none := hslot.unlocked hi
  refine (Prog.wp_bind _ _).mpr (wp_acquire.mpr ?_)
  rw [if_pos hlock]
  refine (Prog.wp_bind _ _).mpr (wp_of_ok (run_iputLocked _) ?_)
  refine (Prog.wp_bind _ _).mpr (wp_release.mpr ?_)
  refine wp_decref.mpr ?_
  unfold Store.put
  by_cases hdead : s.Dead i
  · have hfree := hs.dead_iff.mpr hdead
    have hcopy := (hslot.coherent (by omega) hfree.1).1
    rw [if_pos (by simpa using hfree), if_pos hdead]
    refine ⟨_, hs.change i ?_ ?_ ?_, rfl, rfl⟩
    · simp [Store.freeInode, hcopy]
    · intro j hj
      simp [Store.freeInode, hj]
    · constructor <;> simp [Store.freeInode, hi, hdead.2.2]
  have hfree := mt hs.dead_iff.mp hdead
  rw [if_neg (by simpa using hfree), if_neg hdead]
  refine ⟨_, hs.change i rfl ?_ ?_, rfl, rfl⟩
  · intro j hj
    simp [hj]
  constructor
  · intro h
    exact absurd h hi
  · simp
  · intro hr
    exact hslot.coherent (by simp at hr; omega)
  · intro h
    exact absurd h hi
  intro htype hlink
  have hor := hslot.orphan htype hlink
  have hne : s.ref i ≠ 1 := fun h1 => hdead ⟨htype, hlink, h1⟩
  exact ⟨by simp; omega, hor.2⟩

lemma spec_iput_hang {Q : Unit → View → Prop} (hi : i ∈ L) (hE : E .hang) :
    Spec p E ⟨L, v⟩ (iput i) Q := by
  intro s hs
  refine (Prog.wp_bind _ _).mpr (wp_acquire.mpr ?_)
  rw [if_neg (by simp [(hs.slot i).locked hi])]
  exact hE

lemma spec_iget {dev : ℕ} (hfull : ¬ v.Room i → E (.panic .iget)) :
    Spec p E ⟨L, v⟩ (perform (.iget dev i)) fun j b' =>
      v.Room i ∧ j = i ∧ b' = ⟨L, v.addRef i⟩ := by
  intro s hs
  obtain rfl := hs.toStore_eq
  have hslot := hs.slotAt i
  refine wp_iget.mpr ?_
  split
  case isTrue href =>
    refine ⟨_, hs.change i rfl ?_ ?_, .inl href, rfl, rfl⟩
    · intro j hj
      simp [hj]
    · exact ⟨hslot.locked, hslot.unlocked, fun _ => hslot.coherent href,
        fun h => ⟨by simp, (hslot.loaded h).2⟩, fun h1 h2 => ⟨by simp, (hslot.orphan h1 h2).2⟩⟩
  case isFalse href =>
    have hzero : s.ref i = 0 := by omega
    split
    case isTrue hcount =>
      refine hfull fun hroom => ?_
      have : 0 < s.ref i ∨ s.inUse < NINODE := hroom
      omega
    case isFalse hcount =>
      refine ⟨_, hs.change i ?_ ?_ ?_, .inr (not_le.mp hcount), rfl, rfl⟩
      · simp [Store.addRef, hzero]
      · intro j hj
        simp [hj]
      exact ⟨hslot.locked, hslot.unlocked, fun _ h => absurd h (by simp),
        fun h => absurd (hslot.loaded h).1 href,
        fun h1 h2 => absurd (hslot.orphan h1 h2).1 href⟩

lemma exact_idup (href : 0 < v.ref i) :
    Exact p E ⟨L, v⟩ (perform (.idup i)) () ⟨L, v.addRef i⟩ := by
  refine Prog.Does.op fun s hs => ⟨_, rfl, ?_⟩
  obtain rfl := hs.toStore_eq
  have hslot := hs.slotAt i
  refine hs.change i rfl ?_ ?_
  · intro j hj
    simp [hj]
  · exact ⟨hslot.locked, hslot.unlocked, fun _ => hslot.coherent href,
      fun h => ⟨by simp, (hslot.loaded h).2⟩, fun h1 h2 => ⟨by simp, (hslot.orphan h1 h2).2⟩⟩

lemma exact_getMeta (hi : i ∈ L) :
    Exact p E ⟨L, v⟩ (perform (.getMeta i)) (v.node i).info ⟨L, v⟩ := by
  refine Prog.Does.op fun s hs => ⟨s, ?_, hs⟩
  have hloaded := (hs.slotAt i).loaded hi
  rw [← ((hs.slotAt i).coherent hloaded.1 hloaded.2).1]
  rfl

/-- An operation that only reads the store. -/
lemma exact_read {o : FsOp} {r : o.Res} (ho : ∀ s, s.toStore = v → fsOp p o s = .ok r s) :
    Exact p E ⟨L, v⟩ (perform o) r ⟨L, v⟩ :=
  Prog.Does.op fun s hs => ⟨s, ho s hs.toStore_eq, hs⟩

lemma exact_frame {o : FsOp} {r : o.Res} (hnode : (f v).node = v.node) (href : (f v).ref = v.ref)
    (ho : ∀ s, s.toStore = v → fsOp p o s = .ok r (s.onStore f)) :
    Exact p E ⟨L, v⟩ (perform o) r ⟨L, f v⟩ :=
  Prog.Does.op fun s hs => ⟨s.onStore f, ho s hs.toStore_eq, hs.frame hnode href⟩

/-- All inodes are on one device. -/
lemma exact_dev : Exact p E ⟨L, v⟩ (perform (.dev i)) ROOTDEV ⟨L, v⟩ := exact_read fun _ _ => rfl

lemma exact_inum : Exact p E ⟨L, v⟩ (perform (.inum i)) i ⟨L, v⟩ := exact_read fun _ _ => rfl

lemma exact_dirscan (name : Name) :
    Exact p E ⟨L, v⟩ (perform (.dirscan dp name)) (v.lookup dp name) ⟨L, v⟩ := by
  refine exact_read fun s hs => ?_
  rw [← hs]
  rfl

/-- There is room for the inode that a lookup finds. -/
def Store.RoomOf {α : Type} (v : Store) : Option (Inum × α) → Prop
  | some (i, _) => v.Room i
  | none => True

instance {α : Type} (v : Store) : DecidablePred (v.RoomOf (α := α))
  | some (i, _) => inferInstanceAs (Decidable (v.Room i))
  | none => inferInstanceAs (Decidable True)

lemma spec_dirlookup (hdp : dp ∈ L) (hdir : v.type dp = .dir)
    (hfull : ¬ v.RoomOf (v.lookup dp name) → E (.panic .iget)) :
    Spec p E ⟨L, v⟩ (dirlookup dp name) fun r b' =>
      v.RoomOf (v.lookup dp name) ∧ r = v.lookup dp name ∧
        b' = ⟨L, v.addRefOf (v.lookup dp name)⟩ := by
  refine (exact_getMeta hdp).seq ?_
  rw [if_neg (show ¬ (v.node dp).info.type ≠ .dir from not_not_intro hdir)]
  refine (exact_dirscan name).seq ?_
  rcases hlookup : v.lookup dp name with _ | r
  · exact Prog.Triple.ret ⟨trivial, rfl, rfl⟩
  rw [hlookup] at hfull
  refine exact_dev.seq ((spec_iget (i := r.1) hfull).bind ?_)
  rintro j b' ⟨hroom, rfl, rfl⟩
  exact Prog.Triple.ret ⟨hroom, rfl, rfl⟩

lemma Store.roomOf_of_inUse {α : Type} {r : Option (Inum × α)} (h : v.inUse < NINODE) :
    v.RoomOf r := by
  cases r with
  | none => trivial
  | some r => exact .inr h

lemma exact_dirlookup (hdp : dp ∈ L) (hdir : v.type dp = .dir)
    (hfull : E (.panic .iget) ∨ v.inUse < NINODE) :
    Exact p E ⟨L, v⟩ (dirlookup dp name) (v.lookup dp name) ⟨L, v.addRefOf (v.lookup dp name)⟩ := by
  refine (spec_dirlookup hdp hdir fun hno => ?_).mono fun _ _ hb => hb.2
  exact hfull.resolve_right fun hlt => hno (Store.roomOf_of_inUse hlt)

lemma Rep.setInfo {m : Meta} (h : Rep p ⟨L, v⟩ s) (hi : i ∈ L) (hm : m.type ≠ .free) :
    Rep p ⟨L, v.setInfo i m⟩ ((s.setCopy i m).onStore (·.setInfo i m)) := by
  obtain rfl := h.toStore_eq
  have hslot := h.slotAt i
  refine h.change i rfl ?_ ?_
  · intro j hj
    simp [hj]
  have hloaded := hslot.loaded hi
  exact ⟨hslot.locked, hslot.unlocked, fun _ _ => by simpa using hm, hslot.loaded,
    fun _ _ => hloaded⟩

lemma exact_addLinks {d : Int16} (hi : i ∈ L) :
    Exact p E ⟨L, v⟩ (addLinks i d) () ⟨L, v.addLinks i d⟩ := by
  intro s hs
  obtain rfl := hs.toStore_eq
  have hloaded := (hs.slotAt i).loaded hi
  have hcopy := (hs.slotAt i).coherent hloaded.1 hloaded.2
  let s' := s.setCopy i { s.info i with nlink := (s.info i).nlink + d }
  have hrun : (addLinks i d).run (fsOp p) s = .ok () (s'.onStore (·.setInfo i (s'.info i))) := rfl
  refine wp_of_ok hrun ⟨_, ?_, rfl, rfl⟩
  have hinfo : s'.info i = { (s.node i).info with nlink := (s.node i).info.nlink + d } := by
    simp [s', hcopy.1]
  rw [hinfo]
  simp only [s', hcopy.1]
  exact hs.setInfo hi hcopy.2

lemma Rep.setEnts {es : List Dirent} (h : Rep p ⟨L, v⟩ s) (hi : i ∈ L) :
    Rep p ⟨L, v.setEnts i es⟩ (s.onStore (·.setEnts i es)) := by
  obtain rfl := h.toStore_eq
  have hslot := h.slotAt i
  refine h.change i rfl ?_ ?_
  · intro j hj
    simp [hj]
  · exact ⟨hslot.locked, hslot.unlocked, by simpa using hslot.coherent, hslot.loaded,
      fun _ _ => hslot.loaded hi⟩

lemma exact_clearEntry {k : ℕ} (hi : dp ∈ L) : Exact p E ⟨L, v⟩ (perform (.clearEntry dp k)) ()
    ⟨L, v.setEnts dp ((v.node dp).ents.set k ⟨0, []⟩)⟩ := by
  refine Prog.Does.op fun s hs => ⟨_, rfl, ?_⟩
  obtain rfl := hs.toStore_eq
  exact hs.setEnts hi

lemma exact_isdirempty : Exact p E ⟨L, v⟩ (perform (.isdirempty dp))
    (((v.node dp).ents.drop 2).all (·.inum == 0)) ⟨L, v⟩ := by
  refine exact_read fun s hs => ?_
  rw [← hs]
  rfl

lemma spec_dirwrite (hdp : dp ∈ L) (hbig : ¬ v.Growable dp → E (.panic .dirlink))
    (hfree : ¬ v.Fits dp → E (.panic .balloc)) : Spec p E ⟨L, v⟩ (perform (.dirwrite dp name i))
    fun _ b' => v.Fits dp ∧ b' = ⟨L, v.addEntry dp ⟨i, name⟩⟩ := by
  intro s hs
  obtain rfl := hs.toStore_eq
  have hslot := hs.slotAt dp
  have hloaded := hslot.loaded hdp
  have hcopy := hslot.coherent hloaded.1 hloaded.2
  refine (Prog.wp_perform (S := fsSig) (h := fsOp p) (.dirwrite dp name i)).mpr ?_
  simp only [fsOp, dirwriteOp, wp_bind, wp_get]
  split
  case isTrue hslot =>
    refine wp_modify.mpr ⟨_, hs.setEnts hdp, ?_, ?_⟩
    · simp [Store.Fits, entryCost, hslot]
    simp [Store.addEntry, Node.withEntry, insertEntry, entryCost, hslot, Store.setEnts,
      Store.setNode]
  case isFalse hend =>
    refine wp_bind.mpr (wp_stopIf.mpr ⟨fun hlarge => hbig ?_, fun _ => ?_⟩)
    · rintro (hslot | hsmall)
      · exact hend hslot
      · exact absurd hlarge (not_lt.mpr hsmall)
    refine wp_bind.mpr (wp_stopIf.mpr ⟨fun hshort => hfree ?_, fun hroom => ?_⟩)
    · simpa [Store.Fits, entryCost, hend] using hshort
    refine wp_modify.mpr ⟨⟨L, s.append dp (s.info dp) ⟨i, name⟩⟩, ?_, ?_, ?_⟩
    · refine hs.change dp rfl ?_ ?_
      · intro j hj
        simp [Store.append, hj]
      rw [hcopy.1]
      exact ⟨hslot.locked, hslot.unlocked, by simpa [Store.append, hcopy.1] using hslot.coherent,
        hslot.loaded, fun _ _ => hloaded⟩
    · simpa [Store.Fits, entryCost, hend] using hroom
    · simp [Store.addEntry, Store.append, Node.withEntry, insertEntry, entryCost, hend, hcopy.1,
        Store.setNode]

lemma Store.freeInum_spec (h : v.freeInum = some c) :
    c < v.ninodes ∧ 1 ≤ c ∧ v.type c = .free := by
  have hmem := List.mem_of_find?_eq_some h
  have hprop := List.find?_some h
  simp only [Bool.and_eq_true, decide_eq_true_eq, beq_iff_eq] at hprop
  exact ⟨List.mem_range.mp hmem, hprop.1, hprop.2⟩

/-- The node that `create` writes for a new inode. -/
def newNode (type : FileType) (major minor : Int16) : Node :=
  { info := { type := type, major := major, minor := minor, nlink := 1 } }

/-- The fresh inode `c` is in the cache, with one more reference, but not locked or loaded. -/
structure Fresh (p : Pid) (L : Finset Inum) (v : Store) (t : FileType) (c : Inum) (s : FsState) :
    Prop where
  store : s.toStore = (v.setNode c { info := { type := t } }).addRef c
  slot : ∀ j, j ≠ c → Slot p (j ∈ L) (v.node j) (v.ref j) (s.lock j) (s.valid j) (s.info j)
  lock : s.lock c = none
  valid : s.valid c = false

lemma Rep.fresh (h : Rep p ⟨L, v⟩ s) (hc : v.type c = .free) {s' : FsState}
    (hs' : s'.toStore = (v.setNode c { info := { type := t } }).addRef c) (hlock : s'.lock = s.lock)
    (hinfo : s'.info = s.info) (hvalid : s'.valid c = false)
    (hother : ∀ j, j ≠ c → s'.valid j = s.valid j) : c ∉ L ∧ Fresh p L v t c s' := by
  have hslot := h.slotAt c
  have hnot : c ∉ L := by
    intro hmem
    have hl := hslot.loaded hmem
    exact (hslot.coherent hl.1 hl.2).2 hc
  refine ⟨hnot, hs', ?_, ?_, hvalid⟩
  · intro j hj
    rw [hlock, hinfo, hother j hj]
    exact h.slotAt j
  · rw [hlock]
    exact hslot.unlocked hnot

lemma Fresh.init (h : Fresh p L v t c s) (ht : t ≠ .free) : wp ((do
      ilock c
      let m ← perform (.getMeta c)
      perform (.setMeta c { m with major := major, minor := minor, nlink := 1 })
      perform (.iupdate c)
      pure c : Call Inum).run (fsOp p))
      (fun a s' => a = c ∧ Rep p ⟨insert c L, (v.setNode c (newNode t major minor)).addRef c⟩ s')
      (fun e _ => E e) s := by
  have href : ¬ s.ref c < 1 := by
    rw [h.store]
    simp
  have htype : ¬ (s.setLock c (some p)).type c = .free := by
    simp only [Store.type, FsState.setLock_toStore, h.store]
    simpa using ht
  refine (Prog.wp_bind _ _).mpr ((Prog.wp_bind _ _).mpr (wp_ref.mpr ?_))
  rw [if_neg href]
  refine (Prog.wp_bind _ _).mpr (wp_acquire.mpr ?_)
  rw [if_pos h.lock]
  refine wp_load.mpr ?_
  rw [if_neg (by simp [h.valid]), if_neg htype]
  let s1 := ((s.setLock c (some p)).setCopy c (s.node c).info).setValid c true
  let s2 := s1.setCopy c { s1.info c with major := major, minor := minor, nlink := 1 }
  have hrun : (do
      let m ← perform (.getMeta c)
      perform (.setMeta c { m with major := major, minor := minor, nlink := 1 })
      perform (.iupdate c)
      pure c : Call Inum).run (fsOp p) s1 = .ok c (s2.onStore (·.setInfo c (s2.info c))) := rfl
  refine wp_of_ok hrun ⟨rfl, ?_, ?_⟩
  · simp [s2, s1, h.store, Store.setInfo, Store.setNode, Store.addRef, Store.setRef, newNode]
  intro j
  by_cases hj : j = c
  · subst hj
    simp [s2, s1, h.store, newNode]
    exact Slot.lock (by simp) ht rfl
  · simp [s2, s1, hj]
    exact h.slot j hj

lemma spec_newInode {dev : ℕ} (ht : t ≠ .free) (halloc : v.freeInum = none → E (.panic .ialloc))
    (hfull : ∀ c, v.freeInum = some c → ¬ v.Room c → E (.panic .iget)) :
    Spec p E ⟨L, v⟩ (newInode dev t major minor) fun c b' => v.freeInum = some c ∧ v.Room c ∧
      c ∉ L ∧ b' = ⟨insert c L, (v.setNode c (newNode t major minor)).addRef c⟩ := by
  intro s hs
  obtain rfl := hs.toStore_eq
  refine (Prog.wp_bind _ _).mpr ((Prog.wp_bind _ _).mpr ?_)
  refine (Prog.wp_perform (S := fsSig) (h := fsOp p) (.ialloc t)).mpr ?_
  simp only [fsOp, iallocOp, wp_bind, wp_get]
  rcases hc : s.freeInum with _ | c
  · exact halloc hc
  have hfree := (Store.freeInum_spec hc).2.2
  refine wp_bind.mpr (wp_modify.mpr ?_)
  refine wp_iget.mpr ?_
  have hrest : s.Room c → c ∉ L → ∀ a s'', (a = c ∧ Rep p ⟨insert c L,
      (s.setNode c (newNode t major minor)).addRef c⟩ s'') → ∃ b', Rep p b' s'' ∧
        some c = some a ∧ s.Room a ∧ a ∉ L ∧
        b' = ⟨insert a L, (s.setNode a (newNode t major minor)).addRef a⟩ := by
    intro hroom hnot a s'' ha
    rw [ha.1]
    exact ⟨_, ha.2, rfl, hroom, hnot, rfl⟩
  let s1 := s.onStore (·.setNode c { info := { type := t } })
  split
  case isTrue href =>
    have hvalid : s.valid c = false := by
      by_contra hvalid
      exact ((hs.slotAt c).coherent href (by simpa using hvalid)).2 hfree
    have hfresh : c ∉ L ∧ Fresh p L s.toStore t c (s1.onStore (·.addRef c)) :=
      hs.fresh hfree rfl rfl rfl hvalid fun _ _ => rfl
    exact wp_post (hfresh.2.init ht) (hrest (.inl href) hfresh.1)
  case isFalse href =>
    split
    case isTrue hcount =>
      refine hfull c hc fun hroom => ?_
      have : 0 < s.ref c ∨ s.inUse < NINODE := hroom
      exact absurd hcount (not_le.mpr (this.resolve_left href))
    case isFalse hcount =>
      have hzero : s.ref c = 0 := Nat.eq_zero_of_not_pos href
      have hfresh : c ∉ L ∧
          Fresh p L s.toStore t c ((s1.setValid c false).onStore (·.setRef c 1)) := by
        refine hs.fresh hfree ?_ rfl rfl (by simp) ?_
        · simp [Store.addRef, hzero, s1]
        intro j hj
        simp [hj, s1]
      exact wp_post (hfresh.2.init ht) (hrest (.inr (not_le.mp hcount)) hfresh.1)

end Xv6.File
