import Mathlib.Algebra.Order.BigOperators.Group.Finset
import Xv6.Mkfs.Append

/-!
# The files of an image

`Files` is what an image is for: numbered files with a type, a size and their
bytes. `ialloc` adds an empty file and `iappend` appends to one. `Holds` relates
such files to the image, and the rules of this module say that `ialloc`,
`iappend` and the body of the loop of `main` do on the image what `Files.add`,
`Files.append` and `Files.put` say.

## Implementation notes

The inode blocks have room for `ROOM` inodes, some more than `NINODES`. The
rules are about images that stay within that room.
-/

namespace Xv6.Mkfs
open Fs Lib Function Exec

/-- The number of inodes in the inode blocks. -/
def ROOM : ℕ := ninodeblocks * IPB

lemma IBLOCK_range {i : ℕ} (h : i < ROOM) :
    sb.inodestart ≤ IBLOCK i sb ∧ IBLOCK i sb < sb.bmapstart := by
  refine ⟨Nat.le_add_left _ _, ?_⟩
  change i / 8 + 32 < 58
  change i < 208 at h
  omega

/-- The inode that the image holds under a number. -/
def diskInode (image : ℕ → Block) (i : ℕ) : Dinode := (image (IBLOCK i sb)).dinode (i % IPB)

/-- The state after `winode`. -/
@[simps! -fullyApplied]
def State.putInode (s : State) (i : ℕ) (d : Dinode) : State :=
  { s.write (IBLOCK i sb) ((s.image (IBLOCK i sb)).setDinode (i % IPB) d) with
    inodeWrites := IBLOCK i sb :: s.inodeWrites }

section Inodes
variable {i j : ℕ} {d : Dinode} {s : State}

lemma diskInode_putInode (s : State) (i : ℕ) (d : Dinode) :
    diskInode (s.putInode i d).image i = d := by
  rw [diskInode, State.putInode_image, update_self,
    Block.dinode_setDinode _ _ (Nat.mod_lt _ (by decide))]

lemma diskInode_putInode_of_ne (s : State) (d : Dinode) (h : j ≠ i) :
    diskInode (s.putInode i d).image j = diskInode s.image j := by
  rw [diskInode, diskInode, State.putInode_image]
  obtain hb | hb := eq_or_ne (IBLOCK j sb) (IBLOCK i sb)
  · have hslot : j % IPB ≠ i % IPB := by
      unfold IBLOCK IPB BSIZE at hb
      unfold IPB BSIZE
      omega
    rw [hb, update_self, Block.dinode_setDinode_of_ne _ _ hslot]
  · rw [update_of_ne hb]

lemma sector_IBLOCK (h : i < ROOM) : sector (UInt32.ofNat (IBLOCK i sb)) = IBLOCK i sb := by
  apply sector_ofNat
  have hlt := (IBLOCK_range h).2
  change _ < 58 at hlt
  change _ ≤ 1000
  omega

lemma IBLOCK_lt_sectors (h : i < ROOM) (hs : s.sectors = FSSIZE) :
    ¬ s.sectors ≤ sector (UInt32.ofNat (IBLOCK i sb)) := by
  rw [sector_IBLOCK h, hs]
  have hlt := (IBLOCK_range h).2
  change _ < 58 at hlt
  change ¬ 1000 ≤ _
  omega

variable {S : Failure → State → Prop}

lemma wp_rinode {Q : Dinode → State → Prop} (h : i < ROOM)
    (hs : s.sectors = FSSIZE) (hQ : Q (diskInode s.image i) s) : wp (rinode i) Q S s := by
  rw [rinode, wp_bind, wp_rsect, wp_pure]
  refine ⟨fun hle => absurd hle (IBLOCK_lt_sectors h hs), fun _ => ?_⟩
  rwa [sector_IBLOCK h]

lemma wp_winode {Q : Unit → State → Prop} (h : i < ROOM)
    (hs : s.sectors = FSSIZE) (hQ : Q () (s.putInode i d)) : wp (winode i d) Q S s := by
  rw [winode, wp_bind, wp_rsect]
  refine ⟨fun hle => absurd hle (IBLOCK_lt_sectors h hs), fun _ => ?_⟩
  rwa [wp_bind, wp_wsect, wp_modify, sector_IBLOCK h]

end Inodes

/-- The files that an image is to hold: those with a number below `count`, from 1 on. -/
structure Files where
  count : ℕ
  type : ℕ → UInt16
  size : ℕ → ℕ
  contents : ℕ → List UInt8

namespace Files

/-- An empty file with the next number. -/
@[simps -fullyApplied]
def add (A : Files) (type : UInt16) : Files :=
  { A with
    count := A.count + 1
    type := update A.type A.count type }

/-- Bytes behind those of file `j`. -/
@[simps -fullyApplied]
def append (A : Files) (j : ℕ) (p : List UInt8) : Files :=
  { A with
    size := update A.size j (A.size j + p.length)
    contents := update A.contents j (A.contents j ++ p) }

/-- The blocks that the files take. -/
def cost (A : Files) : ℕ := ∑ i ∈ Finset.range A.count, spent (blocksOf (A.contents i).length)

/-- The sizes are those of the contents, and nothing is in a file that does not exist. -/
structure Exact (A : Files) : Prop where
  size : ∀ i, A.size i = (A.contents i).length
  unused : ∀ i, A.count ≤ i → A.contents i = []

variable {A : Files} {j : ℕ} {p q : List UInt8}

lemma Exact.add (h : A.Exact) (type : UInt16) : (A.add type).Exact where
  size := h.size
  unused i hi := h.unused i (Nat.le_of_succ_le hi)

lemma Exact.append (h : A.Exact) (hj : j < A.count) (p : List UInt8) : (A.append j p).Exact where
  size i := by
    obtain rfl | hne := eq_or_ne i j
    · simp [h.size]
    · simp [hne, h.size]
  unused i hi := by
    have hne : i ≠ j := Nat.ne_of_gt (Nat.lt_of_lt_of_le hj hi)
    rw [append_contents, update_of_ne hne]
    exact h.unused i hi

lemma append_append (A : Files) (j : ℕ) (p q : List UInt8) :
    (A.append j p).append j q = A.append j (p ++ q) := by
  simp [append, Nat.add_assoc]

lemma append_nil (A : Files) (j : ℕ) : A.append j [] = A := by
  simp [append]

lemma cost_add (h : A.Exact) (type : UInt16) : (A.add type).cost = A.cost := by
  rw [cost, add_count, Finset.sum_range_succ, add_contents, h.unused A.count (Nat.le_refl _)]
  rfl

/-- Only the file that grows takes more blocks. -/
lemma cost_append (hj : j < A.count) (p : List UInt8) :
    (A.append j p).cost + spent (blocksOf (A.contents j).length) =
      A.cost + spent (blocksOf (A.contents j ++ p).length) := by
  have hmem := Finset.mem_range.mpr hj
  unfold cost
  rw [append_count, ← Finset.add_sum_erase _ _ hmem, ← Finset.add_sum_erase (Finset.range A.count)
    (fun i => spent (blocksOf (A.contents i).length)) hmem]
  have hrest : ∑ i ∈ (Finset.range A.count).erase j,
      spent (blocksOf ((A.append j p).contents i).length) =
      ∑ i ∈ (Finset.range A.count).erase j, spent (blocksOf (A.contents i).length) := by
    apply Finset.sum_congr rfl
    intro i hi
    rw [append_contents, update_of_ne (Finset.ne_of_mem_erase hi)]
  rw [hrest, append_contents, update_self]
  omega

lemma cost_le_append (hj : j < A.count) (p : List UInt8) : A.cost ≤ (A.append j p).cost := by
  have hcost := cost_append hj p
  have hmono : spent (blocksOf (A.contents j).length) ≤
      spent (blocksOf (A.contents j ++ p).length) :=
    spent_mono (blocksOf_mono (by rw [List.length_append]; omega))
  omega

end Files

/-- The files `A` are laid out in the image, file `i` in the blocks `E i` and under an inode
`D i` that need not be on disk yet. -/
structure Laid (A : Files) (E : ℕ → Extent) (D : ℕ → Dinode) (s : State) : Prop where
  table : Table A.contents E D s
  tight : ∀ i, Tight (E i) (A.contents i).length
  type : ∀ i, 0 < i → i < A.count → (D i).type = A.type i
  nlink : ∀ i, 0 < i → i < A.count → (D i).nlink = 1
  size : ∀ i, 0 < i → i < A.count → (D i).size = UInt32.ofNat (A.size i)
  count : s.freeinode = A.count
  root : 0 < A.count
  room : A.count ≤ ROOM
  full : s.freeblock ≤ FSSIZE
  cost : s.freeblock = nmeta + A.cost
  super : s.image 1 = Block.zero.setWords 0 sb.words
  writes : ∀ b ∈ s.inodeWrites, sb.inodestart ≤ b ∧ b < sb.bmapstart

/-- The image holds the files `A`. -/
structure Holds (A : Files) (E : ℕ → Extent) (D : ℕ → Dinode) (s : State) : Prop
    extends Laid A E D s where
  disk : ∀ i, 0 < i → i < A.count → diskInode s.image i = D i

section Frame
variable {C : ℕ → List UInt8} {E : ℕ → Extent} {D : ℕ → Dinode} {s : State}

/-- Only the data blocks of the image matter to a table. -/
lemma Table.frame (h : Table C E D s) {s' : State}
    (himage : ∀ x, nmeta ≤ x → s'.image x = s.image x) (hsectors : s'.sectors = s.sectors)
    (hfree : s'.freeblock = s.freeblock) : Table C E D s' where
  sectors := hsectors.trans h.sectors
  held i := (h.held i).frame fun x hx => himage x (h.range i x hx).1
  range i x hx := hfree ▸ h.range i x hx
  nodup := h.nodup
  disjoint := h.disjoint
  free x hx := by
    rw [hfree] at hx
    rw [himage x (h.data.trans hx)]
    exact h.free x hx
  data := hfree ▸ h.data

lemma Table.putInode (h : Table C E D s) {i : ℕ} (hi : i < ROOM) (d : Dinode) :
    Table C E D (s.putInode i d) := by
  have hlt := (IBLOCK_range hi).2
  change _ < 58 at hlt
  apply h.frame
  · intro x hx
    change 59 ≤ x at hx
    rw [State.putInode_image, update_of_ne (by omega)]
  · rw [State.putInode_sectors, h.sectors]
    change max 1000 _ = 1000
    omega
  · rfl

/-- The inodes of a table matter only up to their addresses. -/
lemma Table.change_head (h : Table C E D s) {D' : ℕ → Dinode}
    (hD : ∀ i, (D' i).addrs = (D i).addrs) : Table C E D' s where
  sectors := h.sectors
  held i := by
    have haddr : ∀ k, (D' i).addr k = (D i).addr k := fun k => by
      unfold Dinode.addr
      rw [hD]
    exact ⟨fun k hk => (haddr k).trans ((h.held i).direct k hk),
      (haddr _).trans (h.held i).indirect, (h.held i).entries, (h.held i).data⟩
  range := h.range
  nodup := h.nodup
  disjoint := h.disjoint
  free := h.free
  data := h.data

end Frame

section Laid
variable {A : Files} {E : ℕ → Extent} {D : ℕ → Dinode} {s : State}

lemma Laid.extent_unused (h : Laid A E D s) (hexact : A.Exact) {i : ℕ} (hi : A.count ≤ i) :
    E i = Extent.empty := by
  have htight := h.tight i
  rw [hexact.unused i hi] at htight
  have hblocks : (E i).blocks = [] := List.length_eq_zero_iff.mp htight.length
  have hind := htight.shaped.ind_eq_none (by rw [hblocks]; exact Nat.zero_le _)
  cases hE : E i with
  | mk blocks ind =>
    rw [hE] at hblocks hind
    rw [show blocks = [] from hblocks, show ind = none from hind]
    rfl

lemma Laid.lt_room (h : Laid A E D s) {i : ℕ} (hi : i < A.count) : i < ROOM :=
  Nat.lt_of_lt_of_le hi h.room

/-- The last inode that was not on disk is written. -/
lemma Laid.putInode (h : Laid A E D s) {j : ℕ} (hj : j < A.count)
    (hdisk : ∀ i, 0 < i → i < A.count → i ≠ j → diskInode s.image i = D i) :
    Holds A E D (s.putInode j (D j)) := by
  have hroom := h.lt_room hj
  constructor
  case disk =>
    intro i hi hlt
    obtain rfl | hne := eq_or_ne i j
    · exact diskInode_putInode s i (D i)
    rw [diskInode_putInode_of_ne _ _ hne]
    exact hdisk i hi hlt hne
  case toLaid =>
    refine { h with table := h.table.putInode hroom _, super := ?_, writes := ?_ }
    · have hstart := (IBLOCK_range hroom).1
      change 32 ≤ _ at hstart
      rw [State.putInode_image, update_of_ne (by omega)]
      exact h.super
    intro b hb
    rcases List.mem_cons.mp hb with rfl | hb
    · exact IBLOCK_range hroom
    · exact h.writes b hb

lemma Holds.writeBitmap (h : Holds A E D s) (b : Block) :
    Holds A E D (s.write sb.bmapstart b) := by
  have hsame : ∀ y, y ≠ sb.bmapstart → (s.write sb.bmapstart b).image y = s.image y :=
    fun y hy => update_of_ne hy _ _
  constructor
  case disk =>
    intro i hi hlt
    rw [diskInode, hsame _ (Nat.ne_of_lt (IBLOCK_range (h.lt_room hlt)).2)]
    exact h.disk i hi hlt
  case toLaid =>
    refine { h.toLaid with table := h.table.frame ?_ ?_ rfl, super := ?_ }
    · intro y hy
      exact hsame y (Nat.ne_of_gt hy)
    · rw [State.write_sectors, h.table.sectors]
      rfl
    · rw [hsame 1 (by decide), h.super]

end Laid

lemma SameMeta.diskInode {s s' : State} (h : SameMeta s s') {i : ℕ} (hi : i < ROOM) :
    diskInode s'.image i = diskInode s.image i := by
  have hlt := (IBLOCK_range hi).2
  change _ < 58 at hlt
  unfold Mkfs.diskInode
  rw [h.image _ (show _ < 59 by omega)]

lemma addr_newInode (type : UInt16) (i : ℕ) : (newInode type).addr i = 0 := by
  unfold Dinode.addr
  split <;> rfl

section Rules
variable {A : Files} {E : ℕ → Extent} {D : ℕ → Dinode} {s : State}

lemma wp_ialloc {S : Failure → State → Prop} (h : Holds A E D s) (hexact : A.Exact)
    (hroom : A.count < ROOM) (type : UInt16) :
    wp (ialloc type) (fun inum s' => inum = A.count ∧ ∃ D', Holds (A.add type) E D' s') S s := by
  have hempty := h.extent_unused hexact (Nat.le_refl A.count)
  have hold : ∀ i, i < A.count + 1 → i ≠ A.count → i < A.count := fun i hi hne => by omega
  rw [ialloc, wp_bind, wp_get, wp_bind, wp_modify, wp_bind, h.count]
  refine wp_winode hroom (by exact h.table.sectors) ⟨rfl, ?_⟩
  have hlaid : Laid (A.add type) E (update D A.count (newInode type))
      { s with freeinode := A.count + 1 } := by
    constructor
    case table =>
      refine { h.table with held := fun i => ?_ }
      obtain rfl | hne := eq_or_ne i A.count
      · rw [update_self, hempty, Files.add_contents, hexact.unused _ (Nat.le_refl _)]
        exact .empty (addr_newInode type)
      · rw [update_of_ne hne]
        exact h.table.held i
    case tight => exact h.tight
    case type =>
      intro i hi hlt
      obtain rfl | hne := eq_or_ne i A.count
      · simp [newInode]
      · simp [hne, h.type i hi (hold i hlt hne)]
    case nlink =>
      intro i hi hlt
      obtain rfl | hne := eq_or_ne i A.count
      · simp [newInode]
      · simp [hne, h.nlink i hi (hold i hlt hne)]
    case size =>
      intro i hi hlt
      obtain rfl | hne := eq_or_ne i A.count
      · simp [newInode, hexact.size, hexact.unused _ (Nat.le_refl _)]
      · simp [hne, h.size i hi (hold i hlt hne)]
    case count => rfl
    case root => exact Nat.succ_pos _
    case room => exact hroom
    case full => exact h.full
    case cost => rw [Files.cost_add hexact]; exact h.cost
    case super => exact h.super
    case writes => exact h.writes
  have hholds := hlaid.putInode (Nat.lt_succ_self A.count) fun i hi hlt hne => by
    rw [update_of_ne hne]
    exact h.disk i hi (hold i hlt hne)
  rw [update_self] at hholds
  exact ⟨_, hholds⟩

/-- The reasons for which bytes are not appended. -/
def Failure.CannotAppend (err : Failure) (A : Files) (j : ℕ) (p : List UInt8) : Prop :=
  err = .maxfile ∧ MAXFILE * BSIZE < (A.contents j ++ p).length ∨
    err = .read ∧ FSSIZE < nmeta + (A.append j p).cost

/-- `iappend` appends to a file, or it stops because there is no room. -/
lemma wp_iappend {j : ℕ} (h : Holds A E D s) (hexact : A.Exact) (hj : 0 < j) (hlt : j < A.count)
    (p : List UInt8) : wp (iappend j p) (fun _ s' => ∃ E' D', Holds (A.append j p) E' D' s')
      (fun err _ => err.CannotAppend A j p) s := by
  have hroom : j < ROOM := Nat.lt_of_lt_of_le hlt h.room
  have hcost := Files.cost_append hlt p
  have hsize : (D j).size.toNat = (A.contents j).length := by
    have hsmall := (h.tight j).small
    change _ ≤ 71680 at hsmall
    rw [h.size j hj hlt, hexact.size, UInt32.toNat_ofNat']
    omega
  rw [iappend, wp_bind]
  apply wp_rinode hroom h.table.sectors
  rw [h.disk j hj hlt, hsize, wp_bind]
  refine wp_mono (wp_appendLoop p (h.table.opened j) (h.tight j) h.full) ?_ ?_
  · rintro ⟨d, off⟩ s₁ ⟨hoff, e, happ⟩
    obtain rfl : off = (A.contents j ++ p).length := hoff
    dsimp only at happ
    have htable : Table _ _ _ s₁ := happ.opened
    apply wp_winode hroom htable.sectors
    generalize hd : ({ d with size := UInt32.ofNat (A.contents j ++ p).length } : Dinode) = d'
    have htype : d.type = (D j).type := by rw [happ.head]
    have hnlink : d.nlink = (D j).nlink := by rw [happ.head]
    have hhead : d'.type = (D j).type ∧ d'.nlink = (D j).nlink := hd ▸ ⟨htype, hnlink⟩
    have haddrs : d'.addrs = d.addrs := by rw [← hd]
    have hgrown := happ.grown
    have hcost' := h.cost
    have hlaid : Laid (A.append j p) (update E j e) (update D j d') s₁ := by
      constructor
      case table =>
        apply htable.change_head
        intro i
        obtain rfl | hne := eq_or_ne i j
        · simpa using haddrs
        · simp [hne]
      case tight =>
        intro i
        obtain rfl | hne := eq_or_ne i j
        · simpa using happ.tight
        · simpa [hne] using h.tight i
      case type =>
        intro i hi hi'
        obtain rfl | hne := eq_or_ne i j
        · rw [update_self, hhead.1]
          exact h.type i hi hi'
        · rw [update_of_ne hne]
          exact h.type i hi hi'
      case nlink =>
        intro i hi hi'
        obtain rfl | hne := eq_or_ne i j
        · rw [update_self, hhead.2]
          exact h.nlink i hi hi'
        · rw [update_of_ne hne]
          exact h.nlink i hi hi'
      case size =>
        intro i hi hi'
        obtain rfl | hne := eq_or_ne i j
        · simp [← hd, hexact.size]
        · simpa [hne] using h.size i hi hi'
      case count => exact happ.same.freeinode.trans h.count
      case root => exact h.root
      case room => exact h.room
      case full => exact happ.full
      case cost => omega
      case super =>
        rw [happ.same.image 1 (by decide)]
        exact h.super
      case writes =>
        rw [happ.same.inodeWrites]
        exact h.writes
    have hholds := hlaid.putInode hlt fun i hi hi' hne => by
      rw [update_of_ne hne, happ.same.diskInode (h.lt_room hi')]
      exact h.disk i hi hi'
    rw [update_self] at hholds
    exact ⟨_, _, hholds⟩
  have hcost' := h.cost
  rintro err _ (hmax | ⟨herr, hfull⟩)
  · exact .inl hmax
  · exact .inr ⟨herr, by omega⟩

end Rules
end Xv6.Mkfs
