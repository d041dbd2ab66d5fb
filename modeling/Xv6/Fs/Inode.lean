import Mathlib.Data.List.OfFn
import Xv6.Fs.Block

/-!
# Inodes and directory entries on disk

`struct dinode`, `struct dirent` and `struct superblock` of `fs.h` as bytes of
a block: what `mkfs` stores and what the kernel finds when it reads the same
bytes.

## Implementation notes

A C string is the list of its bytes in front of the terminating zero. An array
of bytes is read with zeroes behind its end.
-/

namespace Xv6.Fs

/-- The file types of `stat.h`. -/
def T_DIR : UInt16 := 1

@[inherit_doc T_DIR]
def T_FILE : UInt16 := 2

@[inherit_doc T_DIR]
def T_DEV : UInt16 := 3

/-- Two `short`s in one word of a block, the first one in the low half. -/
def pack (lo hi : UInt16) : UInt32 := UInt32.ofNat (lo.toNat + hi.toNat * 65536)

/-- The first of the two `short`s in a word. -/
def low (w : UInt32) : UInt16 := UInt16.ofNat w.toNat

/-- The second of the two `short`s in a word. -/
def high (w : UInt32) : UInt16 := UInt16.ofNat (w.toNat / 65536)

lemma toNat_pack (lo hi : UInt16) : (pack lo hi).toNat = lo.toNat + hi.toNat * 65536 := by
  have hlo := lo.toNat_lt
  have hhi := hi.toNat_lt
  rw [pack, UInt32.toNat_ofNat']
  omega

@[simp]
lemma low_pack (lo hi : UInt16) : low (pack lo hi) = lo := by
  have hlo := lo.toNat_lt
  apply UInt16.toNat_inj.mp
  rw [low, toNat_pack, UInt16.toNat_ofNat']
  omega

@[simp]
lemma high_pack (lo hi : UInt16) : high (pack lo hi) = hi := by
  have hlo := lo.toNat_lt
  have hhi := hi.toNat_lt
  apply UInt16.toNat_inj.mp
  rw [high, toNat_pack, UInt16.toNat_ofNat']
  omega

/-- `struct dinode`. -/
@[ext]
structure Dinode where
  type : UInt16
  major : UInt16
  minor : UInt16
  nlink : UInt16
  size : UInt32
  addrs : Fin (NDIRECT + 1) → UInt32

namespace Dinode

/-- Words of an inode: it has 64 bytes. -/
def WORDS : ℕ := 16

/-- `addrs[i]`. -/
def addr (d : Dinode) (i : ℕ) : UInt32 := if h : i < NDIRECT + 1 then d.addrs ⟨i, h⟩ else 0

/-- `addrs[i] = a`. -/
@[simps]
def setAddr (d : Dinode) (i : ℕ) (a : UInt32) : Dinode :=
  { d with addrs := fun k => if k.val = i then a else d.addrs k }

variable {i : ℕ}

@[simp]
lemma addr_setAddr (d : Dinode) (a : UInt32) (hi : i < NDIRECT + 1) :
    (d.setAddr i a).addr i = a := by
  simp [addr, setAddr, hi]

lemma addr_setAddr_of_ne (d : Dinode) {i j : ℕ} (a : UInt32) (hj : j ≠ i) :
    (d.setAddr i a).addr j = d.addr j := by
  simp [addr, setAddr, hj]

/-- An inode as the words that it takes in a block. -/
def words (d : Dinode) : List UInt32 :=
  pack d.type d.major :: pack d.minor d.nlink :: d.size :: List.ofFn d.addrs

@[simp]
lemma length_words (d : Dinode) : d.words.length = WORDS := by
  rw [words, List.length_cons, List.length_cons, List.length_cons, List.length_ofFn]
  rfl

/-- The inode that 16 words spell, the first of them word `i` of a block. -/
def ofWords (b : Block) (i : ℕ) : Dinode where
  type := low (b.word i)
  major := high (b.word i)
  minor := low (b.word (i + 1))
  nlink := high (b.word (i + 1))
  size := b.word (i + 2)
  addrs := fun k => b.word (i + 3 + k)

lemma ofWords_congr {b c : Block} (h : ∀ j, i ≤ j → j < i + WORDS → b.word j = c.word j) :
    ofWords b i = ofWords c i := by
  have hword : ∀ k, k < WORDS → b.word (i + k) = c.word (i + k) := fun k hk =>
    h (i + k) (by omega) (by omega)
  have h₀ : b.word i = c.word i := hword 0 (by decide)
  unfold ofWords
  rw [h₀, hword 1 (by decide), hword 2 (by decide)]
  congr
  funext k
  have hk : 3 + k.val < WORDS := Nat.add_lt_add_left k.isLt 3
  rw [Nat.add_assoc]
  exact hword (3 + k) hk

lemma ofWords_setWords (b : Block) (d : Dinode) (hi : i + WORDS ≤ Fs.WORDS) :
    ofWords (b.setWords i d.words) i = d := by
  have hfit : i + d.words.length ≤ Fs.WORDS := by rwa [length_words]
  have h₀ : (b.setWords i d.words).word (i + 0) = _ := Block.word_setWords b (j := 0) rfl hfit
  have h₁ : (b.setWords i d.words).word (i + 1) = _ := Block.word_setWords b (j := 1) rfl hfit
  have h₂ : (b.setWords i d.words).word (i + 2) = _ := Block.word_setWords b (j := 2) rfl hfit
  have hrest : ∀ k : Fin (NDIRECT + 1), (b.setWords i d.words).word (i + 3 + k) = d.addrs k := by
    intro k
    have hk : (List.ofFn d.addrs)[k.val]? = some (d.addrs k) :=
      List.getElem?_ofFn.trans (dif_pos k.isLt)
    rw [Nat.add_assoc]
    apply Block.word_setWords b _ hfit
    rw [Nat.add_comm]
    exact hk
  rw [Nat.add_zero] at h₀
  apply Dinode.ext
  case addrs => exact funext hrest
  all_goals simp [ofWords, h₀, h₁, h₂]

end Dinode

namespace Block

/-- `((struct dinode*)buf)[k]`. -/
def dinode (b : Block) (k : ℕ) : Dinode := Dinode.ofWords b (Dinode.WORDS * k)

/-- `((struct dinode*)buf)[k] = d`. -/
def setDinode (b : Block) (k : ℕ) (d : Dinode) : Block := b.setWords (Dinode.WORDS * k) d.words

@[simp]
lemma dinode_setDinode (b : Block) {k : ℕ} (d : Dinode) (hk : k < IPB) :
    (b.setDinode k d).dinode k = d := by
  apply Dinode.ofWords_setWords
  simp only [Dinode.WORDS, Fs.WORDS, BSIZE, IPB] at hk ⊢
  omega

lemma dinode_setDinode_of_ne (b : Block) {k l : ℕ} (d : Dinode) (hl : l ≠ k) :
    (b.setDinode k d).dinode l = b.dinode l := by
  apply Dinode.ofWords_congr
  intro j hj hj'
  unfold Dinode.WORDS at hj hj'
  obtain hlk | hlk := Nat.lt_or_gt_of_ne hl
  · apply word_setWords_of_lt
    unfold Dinode.WORDS
    omega
  apply word_setWords_of_le
  rw [Dinode.length_words]
  unfold Dinode.WORDS
  omega

end Block

/-- The block that contains inode `i`. -/
def IBLOCK (i : ℕ) (sb : Superblock) : ℕ := i / IPB + sb.inodestart

namespace Superblock

/-- A super block as the words that it takes in block 1. -/
def words (sb : Superblock) : List UInt32 :=
  [sb.size, sb.nblocks, sb.ninodes, sb.nlog, sb.logstart, sb.inodestart, sb.bmapstart].map
    UInt32.ofNat

/-- `memmove(sb, bp->data, sizeof(*sb))`. -/
def ofBlock (b : Block) : Superblock where
  size := (b.word 0).toNat
  nblocks := (b.word 1).toNat
  ninodes := (b.word 2).toNat
  nlog := (b.word 3).toNat
  logstart := (b.word 4).toNat
  inodestart := (b.word 5).toNat
  bmapstart := (b.word 6).toNat

end Superblock

/-- `struct dirent`. -/
@[ext]
structure Dirent where
  inum : UInt16
  name : Fin DIRSIZ → UInt8

/-- `'/'`. -/
def slash : UInt8 := 47

/-- `strncpy(dst, s, DIRSIZ)`. -/
def strncpy (s : List UInt8) : Fin DIRSIZ → UInt8 := fun k => s.getD k 0

namespace Dirent

/-- Bytes of a directory entry. -/
def SIZE : ℕ := DIRSIZ + 2

/-- A directory entry as the bytes that it takes in a directory. -/
def bytes (de : Dirent) : List UInt8 :=
  UInt8.ofNat de.inum.toNat :: UInt8.ofNat (de.inum.toNat / 256) :: List.ofFn de.name

@[simp]
lemma length_bytes (de : Dirent) : de.bytes.length = SIZE := by
  simp [bytes, SIZE]

/-- The directory entry that 16 bytes spell. -/
def ofBytes (l : List UInt8) : Dirent where
  inum := UInt16.ofNat ((l.getD 0 0).toNat + (l.getD 1 0).toNat * 256)
  name := fun k => l.getD (k + 2) 0

@[simp]
lemma ofBytes_bytes (de : Dirent) : ofBytes de.bytes = de := by
  have hinum := de.inum.toNat_lt
  apply Dirent.ext
  · change UInt16.ofNat ((UInt8.ofNat de.inum.toNat).toNat +
      (UInt8.ofNat (de.inum.toNat / 256)).toNat * 256) = de.inum
    apply UInt16.toNat_inj.mp
    rw [UInt16.toNat_ofNat', UInt8.toNat_ofNat', UInt8.toNat_ofNat']
    omega
  · funext k
    simp [ofBytes, bytes]

end Dirent
end Xv6.Fs
