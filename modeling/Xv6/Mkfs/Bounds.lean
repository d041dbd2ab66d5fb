import Xv6.Mkfs.Build

/-!
# The layout of the image

When `mkfs` is done, the image keeps to the layout of its super block exactly
if at most 198 files were named. With one more file an inode gets the number
`sb.ninodes`, which nothing checks. Blocks do not run out unnoticed: a block
number behind the end of the image is read before it is used.
-/

namespace Xv6.Mkfs
open Fs Lib

lemma bit_bitmap {used : ℕ} (h : used ≤ BPB) (j : ℕ) :
    (bitmap used).bit j = decide (j < used) := by
  induction used with
  | zero => simp [bitmap]
  | succ used ih =>
    have hstep : bitmap (used + 1) = (bitmap used).setBit used := by
      simp [bitmap, List.range_succ]
    rw [hstep, Block.bit_setBit _ _ h, ih (Nat.le_of_succ_le h), ← Bool.decide_or]
    congr 1
    exact propext ⟨fun h' => by omega, fun h' => by omega⟩

lemma ofBlock_super : Superblock.ofBlock (Block.zero.setWords 0 sb.words) = sb := by
  have hword : ∀ {k : ℕ} {w : UInt32}, sb.words[k]? = some w →
      (Block.zero.setWords 0 sb.words).word k = w := by
    intro k w hw
    have := Block.word_setWords Block.zero hw (i := 0) (by decide)
    rwa [Nat.zero_add] at this
  unfold Superblock.ofBlock
  rw [hword (k := 0) rfl, hword (k := 1) rfl, hword (k := 2) rfl, hword (k := 3) rfl,
    hword (k := 4) rfl, hword (k := 5) rfl, hword (k := 6) rfl]
  rfl

/-- A number of a data block, or zero. -/
def InData (addr : UInt32) : Prop := addr ≠ 0 → nmeta ≤ addr.toNat ∧ addr.toNat < sb.size

/-- The image keeps to its layout. -/
structure InLayout (s : State) : Prop where
  super : Superblock.ofBlock (s.image 1) = sb
  inodes : ∀ i, 0 < i → i < s.freeinode → i < sb.ninodes
  addrs : ∀ i, 0 < i → i < s.freeinode → ∀ k ≤ NDIRECT, InData ((diskInode s.image i).addr k)
  indirect : ∀ i, 0 < i → i < s.freeinode → (diskInode s.image i).addr NDIRECT ≠ 0 →
    ∀ k < NINDIRECT, InData ((s.image ((diskInode s.image i).addr NDIRECT).toNat).word k)
  inodeWrites : ∀ b ∈ s.inodeWrites, sb.inodestart ≤ b ∧ b < sb.bmapstart
  bitmap : ∀ j < BPB, (s.image sb.bmapstart).bit j = decide (j < s.freeblock)
  freeblock : s.freeblock ≤ sb.size

section Held
variable {image : ℕ → Block} {d : Dinode} {e : Extent} {bytes : List UInt8}

/-- Every block of an extent is a data block. -/
def Extent.Placed (e : Extent) : Prop := ∀ x ∈ e.used, nmeta ≤ x ∧ x < FSSIZE

lemma Extent.Placed.ofNat_inData (h : e.Placed) {x : ℕ} (hx : x ∈ e.used) :
    InData (UInt32.ofNat x) := by
  intro _
  have hrange := h x hx
  rwa [toNat_ofNat_of_le (Nat.le_of_lt hrange.2)]

lemma Extent.Placed.entry_inData (h : e.Placed) (i : ℕ) : InData (e.entry i) := by
  rcases hx : e.blocks[i]? with _ | x
  · intro hne
    exact absurd (entry_of_le (List.getElem?_eq_none_iff.mp hx)) hne
  rw [entry_of_block hx]
  exact h.ofNat_inData (mem_used_of_block hx)

lemma Held.addr_inData (h : Held image d e bytes) (hplaced : e.Placed) {k : ℕ}
    (hk : k ≤ NDIRECT) : InData (d.addr k) := by
  obtain hlt | rfl := Nat.lt_or_eq_of_le hk
  · rw [h.direct k hlt]
    exact hplaced.entry_inData k
  rw [h.indirect]
  cases hind : e.ind with
  | none => exact fun hne => absurd rfl hne
  | some b => exact hplaced.ofNat_inData (Extent.mem_used_of_ind hind)

lemma Held.word_inData (h : Held image d e bytes) (hplaced : e.Placed)
    (hne : d.addr NDIRECT ≠ 0) {k : ℕ} (hk : k < NINDIRECT) :
    InData ((image (d.addr NDIRECT).toNat).word k) := by
  rw [h.indirect] at hne ⊢
  rcases hind : e.ind with _ | b
  · rw [hind] at hne
    exact absurd rfl hne
  have hrange := hplaced b (Extent.mem_used_of_ind hind)
  rw [Option.getD_some, toNat_ofNat_of_le (Nat.le_of_lt hrange.2), h.entries b hind k hk]
  exact hplaced.entry_inData _

end Held

variable {s : State} {files : List HostFile}

lemma Holds.placed {A : Files} {E : ℕ → Extent} {D : ℕ → Dinode} (h : Holds A E D s) (i : ℕ) :
    (E i).Placed := fun x hx =>
  ⟨(h.table.range i x hx).1, Nat.lt_of_lt_of_le (h.table.range i x hx).2 h.full⟩

lemma Finished.freeinode (h : Finished files s) : s.freeinode = files.length + 2 := by
  obtain ⟨E, D, hholds⟩ := h.holds
  exact hholds.count.trans (Files.count_listed files)

lemma Finished.inLayout (h : Finished files s) (hfew : files.length ≤ 198) : InLayout s := by
  have hcount := h.freeinode
  obtain ⟨E, D, hholds⟩ := h.holds
  have hdisk : ∀ i, 0 < i → i < s.freeinode → diskInode s.image i = D i := fun i hi hlt =>
    hholds.disk i hi (hholds.count ▸ hlt)
  constructor
  case super => rw [hholds.super, ofBlock_super]
  case inodes =>
    intro i _ hlt
    change i < 200
    omega
  case addrs =>
    intro i hi hlt k hk
    rw [hdisk i hi hlt]
    exact (hholds.table.held i).addr_inData (hholds.placed i) hk
  case indirect =>
    intro i hi hlt hne k hk
    rw [hdisk i hi hlt] at hne ⊢
    exact (hholds.table.held i).word_inData (hholds.placed i) hne hk
  case inodeWrites => exact hholds.writes
  case bitmap =>
    intro j _
    rw [h.bitmap]
    exact bit_bitmap (hholds.full.trans (by decide)) j
  case freeblock => exact hholds.full

/-- When `mkfs` is done, the image keeps to its layout if and only if there are at most 198
files. -/
theorem inLayout_iff_few (files : List HostFile) :
    Exec.wp (main files) (fun _ s => InLayout s ↔ files.length ≤ 198) (fun _ _ => True) start := by
  obtain hfew | hmany := Nat.lt_or_ge 198 files.length
  · refine Exec.wp_mono (wp_main_counters files 0 (by decide)) ?_ (fun _ _ h => h)
    rintro _ s ⟨hcount, -⟩
    refine ⟨fun h => ?_, fun h => absurd hfew (Nat.not_lt.mpr h)⟩
    have h200 := h.inodes 200 (by decide) (by omega)
    exact absurd h200 (by decide)
  have hroom : files.length + 2 ≤ ROOM := by
    change _ ≤ 208
    omega
  refine Exec.wp_mono (wp_main hroom) ?_ (fun _ _ _ => trivial)
  exact fun _ s h => ⟨fun _ => hmany, h.inLayout⟩

/-- An empty file with a name of one letter. -/
def emptyFile : HostFile := ⟨⟨[97], by decide⟩, some []⟩

lemma fits_replicate {n : ℕ} (h : n + 2 ≤ ROOM) : Fits (List.replicate n emptyFile) where
  slash file hfile := by
    rw [List.eq_of_mem_replicate hfile]
    decide
  opened file hfile := by
    rw [List.eq_of_mem_replicate hfile]
    decide
  size file hfile := by
    rw [List.eq_of_mem_replicate hfile]
    decide
  blocks := by
    have hroot : spent (blocksOf ((n + 2) * Dirent.SIZE)) ≤ spent (blocksOf (ROOM * Dirent.SIZE)) :=
      spent_mono (blocksOf_mono (Nat.mul_le_mul_right _ h))
    have hseven : spent (blocksOf (ROOM * Dirent.SIZE)) = 7 := by decide
    have hzero : Files.blocksFor emptyFile = 0 := by decide
    rw [List.length_replicate, List.map_replicate, List.sum_replicate, hzero, nsmul_zero]
    change 59 + _ ≤ 1000
    omega

lemma main_replicate {n : ℕ} (h : n + 2 ≤ ROOM) :
    ∃ s, main (List.replicate n emptyFile) start = .ok () s ∧
      Finished (List.replicate n emptyFile) s :=
  (fits_replicate h).main_finishes (by rwa [List.length_replicate])

/-- With 199 empty files `mkfs` is done, and it has given out the inode number 200. -/
theorem not_inLayout_199 :
    ∃ s, main (List.replicate 199 emptyFile) start = .ok () s ∧ ¬ InLayout s := by
  obtain ⟨s, hmain, hfinished⟩ := main_replicate (n := 199) (by decide)
  refine ⟨s, hmain, fun h => ?_⟩
  have hcount := hfinished.freeinode
  rw [List.length_replicate] at hcount
  exact absurd (h.inodes 200 (by decide) (by omega)) (by decide)

end Xv6.Mkfs
