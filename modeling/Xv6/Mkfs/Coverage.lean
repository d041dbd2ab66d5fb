import Xv6.Mkfs.Reading

/-!
# Do the inodes of the image cover their sizes

An inode covers its size when a block is mapped for every block index below
`ceil(size/BSIZE)`, so that the kernel reads the file without allocating. The
files of an image do, with one exception: `main` rounds the size of the root
directory up past its last block, even if that block is full. It is full when
the number of entries is a multiple of 32.

Moreover, from the 207th file on an inode lies in the block where `balloc` puts
the bitmap, and the bits that are found there do not make an inode that covers
its size.
-/

namespace Xv6.Mkfs
open Fs Lib

/-- A block is mapped for every index below `ceil(size/BSIZE)`, and the kernel reads the file
or searches the directory without a call of `balloc`. -/
structure Covers (image : ℕ → Block) (d : Dinode) : Prop where
  mapped : ∀ bn < blocksOf d.size.toNat, ∃ b, b ≠ 0 ∧ bmap image d bn = .ok b
  readi : ∀ off n, readi image d off n ≠ .error .balloc
  dirlookup : ∀ name, dirlookup image d name ≠ .error .balloc

/-- Every inode that `mkfs` has given out covers its size. -/
def Covered (s : State) : Prop :=
  ∀ i, 0 < i → i < s.freeinode → Covers s.image (diskInode s.image i)

section Search
variable {image : ℕ → Block} {d : Dinode}

section
variable (h : ∀ off n, readi image d off n ≠ .error .balloc)
include h

lemma lookupFrom_ne_balloc (name : List UInt8) (off : ℕ) : lookupFrom image d name off ≠ .error
    .balloc := by
  induction hk : d.size.toNat - off using Nat.strong_induction_on generalizing off with
  | _ k ih =>
  rw [lookupFrom]
  split_ifs with hlt
  · have hstep : lookupFrom image d name (off + Dirent.SIZE) ≠ .error .balloc :=
      ih _ (by unfold Dirent.SIZE; omega) _ rfl
    cases hread : readi image d (UInt32.ofNat off) (UInt32.ofNat Dirent.SIZE) with
    | error fault =>
      intro hfault
      obtain rfl : fault = .balloc := Except.error.inj hfault
      exact h _ _ hread
    | ok bytes =>
      rw [ok_bind]
      dsimp only
      split_ifs
      · exact fun hfault => nomatch hfault
      · exact hstep
      · exact fun hfault => nomatch hfault
      · exact hstep
  · exact fun hfault => nomatch hfault

lemma dirlookup_ne_balloc (name : List UInt8) : dirlookup image d name ≠ .error .balloc := by
  unfold dirlookup
  split_ifs
  · exact fun hfault => nomatch hfault
  · exact lookupFrom_ne_balloc h name 0

end
end Search

/-- A file covers its size if the size stays within the blocks. -/
lemma Held.covers {image : ℕ → Block} {d : Dinode} {e : Extent} {bytes : List UInt8}
    (h : Held image d e bytes) (hplaced : e.Placed) (hshaped : e.Shaped)
    (hmax : e.blocks.length ≤ MAXFILE) (hsize : d.size.toNat ≤ e.blocks.length * BSIZE) :
    Covers image d := by
  have hread := h.readi_ne_balloc hplaced hshaped hmax hsize
  refine ⟨fun bn hbn => ?_, hread, dirlookup_ne_balloc hread⟩
  have hlt : bn < e.blocks.length := by
    unfold blocksOf at hbn
    simp only [BSIZE] at hbn hsize
    omega
  have hx := List.getElem?_eq_getElem hlt
  have hrange := hplaced _ (Extent.mem_used_of_block hx)
  exact ⟨_, Nat.ne_of_gt (Nat.lt_of_lt_of_le (by decide) hrange.1), h.bmap hplaced hshaped hmax hx⟩

section Sizes
variable {A : Files} {E : ℕ → Extent} {D : ℕ → Dinode} {s : State} {files : List HostFile}

lemma Tight.length_le {e : Extent} {len : ℕ} (h : Tight e len) : e.blocks.length ≤ MAXFILE := by
  have hsmall := h.small
  rw [h.length]
  change _ ≤ 71680 at hsmall
  change (len + 512 - 1) / 512 ≤ 140
  omega

lemma Tight.le_length {e : Extent} {len : ℕ} (h : Tight e len) :
    len ≤ e.blocks.length * BSIZE := by
  rw [h.length]
  change len ≤ (len + 512 - 1) / 512 * 512
  omega

section
variable (h : Holds (Files.listed files).rounded E D s)
include h

lemma Holds.toNat_size {i : ℕ} (hi : 0 < i)
    (hlt : i < files.length + 2) : (D i).size.toNat = (Files.listed files).rounded.size i := by
  have hcount : i < (Files.listed files).rounded.count := by
    rwa [Files.rounded_count, Files.count_listed]
  have hsmall := (h.tight i).small
  rw [Files.rounded_contents, ← (Files.exact_listed files).size] at hsmall
  change _ ≤ 71680 at hsmall
  rw [h.size i hi hcount, UInt32.toNat_ofNat']
  obtain rfl | hne := eq_or_ne i ROOTINO
  · rw [Files.rounded_size, Function.update_self]
    change (_ / 512 + 1) * 512 % 2 ^ 32 = (_ / 512 + 1) * 512
    omega
  · rw [Files.rounded_size, Function.update_of_ne hne]
    omega

/-- The root directory ends with a full block if the number of its entries is a multiple of 32. -/
lemma Holds.covers_dir_iff : Covers s.image (D ROOTINO) ↔ (files.length + 2) % 32 ≠ 0 := by
  have hsize := h.toNat_size (i := ROOTINO) (by decide) (Nat.lt_add_left _ (by decide))
  have htight := h.tight ROOTINO
  have hlen : (Files.listed files).rounded.contents ROOTINO =
      (Files.listed files).contents ROOTINO := rfl
  rw [Files.rounded_size, Function.update_self, (Files.exact_listed files).size,
    Files.length_contents_root] at hsize
  change _ = ((files.length + 2) * 16 / 512 + 1) * 512 at hsize
  rw [hlen, Files.length_contents_root] at htight
  have hblocks : (E ROOTINO).blocks.length = ((files.length + 2) * 16 + 512 - 1) / 512 :=
    htight.length
  constructor
  · intro hcovers hfull
    have hdirect : (files.length + 2) / 32 < NDIRECT := by
      have hroom := h.room
      rw [Files.rounded_count, Files.count_listed] at hroom
      change _ ≤ 208 at hroom
      change _ < 12
      omega
    obtain ⟨b, -, hb⟩ := hcovers.mapped ((files.length + 2) / 32) (by
      rw [hsize]
      change _ < (_ + 512 - 1) / 512
      omega)
    rw [bmap, if_pos hdirect, (h.table.held ROOTINO).direct _ hdirect,
      Extent.entry_of_le (by omega)] at hb
    exact nomatch hb
  intro hrest
  apply (h.table.held ROOTINO).covers (h.placed ROOTINO) htight.shaped htight.length_le
  rw [hsize, hblocks]
  change _ ≤ _ * 512
  omega

lemma Holds.covers_file {i : ℕ}
    (hi : ROOTINO < i) (hlt : i < files.length + 2) : Covers s.image (D i) := by
  have htight := h.tight i
  apply (h.table.held i).covers (h.placed i) htight.shaped htight.length_le
  rw [h.toNat_size (Nat.zero_lt_of_lt hi) hlt, Files.rounded_size,
    Function.update_of_ne (Nat.ne_of_gt hi), (Files.exact_listed files).size]
  exact htight.le_length

end

lemma Finished.covered_iff (h : Finished files s) : Covered s ↔ (files.length + 2) % 32 ≠ 0 := by
  have hcount := h.freeinode
  obtain ⟨E, D, hholds⟩ := h.holds
  have hdisk : ∀ i, 0 < i → i < files.length + 2 → diskInode s.image i = D i := fun i hi hlt =>
    hholds.disk i hi (by rwa [Files.rounded_count, Files.count_listed])
  rw [← hholds.covers_dir_iff]
  constructor
  · intro hcovered
    have hroot := hcovered ROOTINO (by decide) (hcount ▸ Nat.lt_add_left _ (by decide))
    rwa [hdisk ROOTINO (by decide) (Nat.lt_add_left _ (by decide))] at hroot
  intro hroot i hi hlt
  rw [hcount] at hlt
  rw [hdisk i hi hlt]
  obtain rfl | hne := eq_or_ne i ROOTINO
  · exact hroot
  refine hholds.covers_file ?_ hlt
  change 1 < i
  change i ≠ 1 at hne
  omega

end Sizes

/-! ### An inode in the bitmap block -/

section Bitmap
variable {used : ℕ}

variable {k : ℕ}

lemma byte_bitmap_of_le (h : used ≤ BPB) (hk : used ≤ 8 * k) :
    (bitmap used).byte k = 0 := by
  apply Nat.eq_of_testBit_eq
  intro t
  have hbit : ¬ 8 * k + t < used := by omega
  simp [Block.testBit_byte, bit_bitmap h, hbit]

lemma byte_bitmap_of_ge (h : used ≤ BPB) (hk : 8 * k + 8 ≤ used) :
    (bitmap used).byte k = 2 ^ 8 - 1 := by
  apply Nat.eq_of_testBit_eq
  intro t
  rw [Nat.testBit_two_pow_sub_one, Block.testBit_byte, bit_bitmap h]
  obtain ht | ht := Nat.lt_or_ge t 8
  · have hbit : 8 * k + t < used := by omega
    simp [ht, hbit]
  · simp [Nat.not_lt.mpr ht]

lemma byte_bitmap_pos (h : used ≤ BPB) (hk : 8 * k < used) :
    0 < (bitmap used).byte k := by
  have hbit : ((bitmap used).byte k).testBit 0 = true := by
    rw [Block.testBit_byte, bit_bitmap h]
    simpa using hk
  apply Nat.pos_of_ne_zero
  intro hzero
  simp [hzero] at hbit

/-- The first inode in a bitmap of more than 64 blocks does not cover its size: either it has no
block, or its size is the largest number. -/
lemma not_covers_bitmap (image : ℕ → Block) (h : used ≤ BPB) (hused : 64 < used) :
    ¬ Covers image ((bitmap used).dinode 0) := by
  intro hcovers
  have hsize : ((bitmap used).dinode 0).size = (bitmap used).word 2 := rfl
  have hword := Block.toNat_word (bitmap used) 2
  obtain hlow | hhigh := Nat.lt_or_ge used 96
  · have haddr : ((bitmap used).dinode 0).addr 0 = 0 := by
      change (bitmap used).word 3 = 0
      apply UInt32.toNat_inj.mp
      rw [Block.toNat_word, byte_bitmap_of_le h (by omega), byte_bitmap_of_le h (by omega),
        byte_bitmap_of_le h (by omega), byte_bitmap_of_le h (by omega)]
      rfl
    have hpos : 0 < (bitmap used).byte (4 * 2) := byte_bitmap_pos h (by omega)
    obtain ⟨b, -, hb⟩ := hcovers.mapped 0 (by
      rw [hsize, hword]
      change 0 < (_ + 512 - 1) / 512
      omega)
    rw [bmap, if_pos (by decide), haddr] at hb
    exact nomatch hb
  obtain ⟨b, -, hb⟩ := hcovers.mapped MAXFILE (by
    rw [hsize, hword, byte_bitmap_of_ge h (by omega), byte_bitmap_of_ge h (by omega),
      byte_bitmap_of_ge h (by omega), byte_bitmap_of_ge h (by omega)]
    decide)
  exact nomatch hb

end Bitmap

lemma blocks_in_use {files : List HostFile} (h : 206 ≤ files.length) :
    64 < nmeta + (Files.listed (files.take 206)).cost := by
  have hlen : (files.take 206).length = 206 := by
    rw [List.length_take]
    omega
  rw [Files.cost_listed, hlen]
  change 64 < 59 + (7 + _)
  omega

/-- When `mkfs` is done, every inode that it has given out covers its size if and only if there
are at most 206 files and the number of entries in the root directory is not a multiple of 32. -/
theorem covered_iff_files (files : List HostFile) : Exec.wp (main files)
      (fun _ s => Covered s ↔ files.length ≤ 206 ∧ (files.length + 2) % 32 ≠ 0)
      (fun _ _ => True) start := by
  obtain hmany | hfew := Nat.lt_or_ge 206 files.length
  · refine Exec.wp_mono (wp_main_counters files 206 (by decide)) ?_ (fun _ _ h => h)
    rintro _ s ⟨hcount, hbitmap, hused, hblocks⟩
    refine ⟨fun h => ?_, fun h => absurd hmany (Nat.not_lt.mpr h.1)⟩
    have h208 := h 208 (by decide) (by omega)
    have hinode : diskInode s.image 208 = (bitmap s.freeblock).dinode 0 := by
      rw [← hbitmap]
      rfl
    rw [hinode] at h208
    have hmore := blocks_in_use (Nat.le_of_lt hmany)
    exact absurd h208 (not_covers_bitmap s.image hused (Nat.lt_of_lt_of_le hmore hblocks))
  have hroom : files.length + 2 ≤ ROOM := by
    change _ ≤ 208
    omega
  refine Exec.wp_mono (wp_main hroom) ?_ (fun _ _ _ => trivial)
  intro _ s h
  rw [h.covered_iff]
  exact ⟨fun hrest => ⟨hfew, hrest⟩, fun h => h.2⟩

/-- With 30 empty files the root directory has 32 entries, which fill its block. -/
theorem not_covered_30 :
    ∃ s, main (List.replicate 30 emptyFile) start = .ok () s ∧ ¬ Covered s := by
  obtain ⟨s, hmain, hfinished⟩ := main_replicate (n := 30) (by decide)
  refine ⟨s, hmain, ?_⟩
  rw [hfinished.covered_iff, List.length_replicate]
  decide

end Xv6.Mkfs
