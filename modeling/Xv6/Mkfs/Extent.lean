import Mathlib.Data.List.Nodup
import Xv6.Fs.Inode

/-!
# The blocks of a file

An `Extent` lists the data blocks of a file in order, together with its
indirect block. `Held` says that an inode and the blocks of an image spell an
extent and that the data blocks begin with the given bytes. The lemmas below
follow the ways in which a file grows: one more direct block, the indirect
block, one more block entered there, and bytes copied behind the last ones.
-/

namespace Xv6.Mkfs
open Fs Function List

/-- The data blocks of a file and its indirect block. -/
structure Extent where
  blocks : List ℕ
  ind : Option ℕ

namespace Extent

/-- All blocks of a file. -/
def used (e : Extent) : List ℕ := e.blocks ++ e.ind.toList

/-- A file without blocks. -/
def empty : Extent := ⟨[], none⟩

/-- One more data block. -/
@[simps]
def push (e : Extent) (b : ℕ) : Extent := { e with blocks := e.blocks ++ [b] }

/-- An indirect block. -/
@[simps]
def addInd (e : Extent) (b : ℕ) : Extent := { e with ind := some b }

/-- The address of data block `i`, zero where there is none. -/
def entry (e : Extent) (i : ℕ) : UInt32 := UInt32.ofNat (e.blocks.getD i 0)

/-- There is an indirect block when the inode has no room for all blocks. -/
def Shaped (e : Extent) : Prop := e.ind.isSome ↔ NDIRECT < e.blocks.length

variable {e : Extent} {b x i : ℕ}

lemma mem_used_of_block (h : e.blocks[i]? = some x) : x ∈ e.used :=
  mem_append_left _ (mem_of_getElem? h)

lemma mem_used_of_ind (h : e.ind = some x) : x ∈ e.used := by
  simp [used, h]

lemma mem_used_push : x ∈ (e.push b).used ↔ x ∈ e.used ∨ x = b := by
  simp only [used, push, mem_append, mem_singleton]
  tauto

lemma mem_used_addInd (h : e.ind = none) : x ∈ (e.addInd b).used ↔ x ∈ e.used ∨ x = b := by
  simp [used, addInd, h]

lemma length_used (e : Extent) :
    e.used.length = e.blocks.length + if e.ind.isSome then 1 else 0 := by
  cases h : e.ind <;> simp [used, h]

section
variable (h : e.used.Nodup)
include h

lemma nodup_push (hb : b ∉ e.used) : (e.push b).used.Nodup := by
  have hperm : (e.push b).used.Perm (b :: e.used) := by
    simp [used, push]
  exact hperm.nodup_iff.mpr (nodup_cons.mpr ⟨hb, h⟩)

lemma nodup_addInd (hb : b ∉ e.used) (hind : e.ind = none) : (e.addInd b).used.Nodup := by
  rw [used, hind, Option.toList_none, append_nil] at h hb
  have hperm : (e.addInd b).used.Perm (b :: e.blocks) := by
    simp [used, addInd]
  exact hperm.nodup_iff.mpr (nodup_cons.mpr ⟨hb, h⟩)

lemma ind_notMem_blocks (hind : e.ind = some x) : x ∉ e.blocks := by
  intro hx
  have hdisj := disjoint_of_nodup_append h
  exact hdisj hx (by simp [hind])

lemma blocks_nodup : e.blocks.Nodup := h.of_append_left

end

lemma entry_of_block (h : e.blocks[i]? = some x) : e.entry i = UInt32.ofNat x := by
  rw [entry, getD_eq_getElem?_getD, h, Option.getD_some]

lemma entry_of_le (h : e.blocks.length ≤ i) : e.entry i = 0 := by
  rw [entry, getD_eq_getElem?_getD, getElem?_eq_none h]
  rfl

lemma Shaped.ind_eq_none (h : e.Shaped) (hlen : e.blocks.length ≤ NDIRECT) : e.ind = none := by
  rw [← Option.not_isSome_iff_eq_none]
  intro hsome
  exact Nat.not_lt.mpr hlen (h.mp hsome)

lemma Shaped.length_gt (h : e.Shaped) (hind : e.ind = some x) : NDIRECT < e.blocks.length :=
  h.mp (by rw [hind]; rfl)

@[simp]
lemma entry_push_length : (e.push b).entry e.blocks.length = UInt32.ofNat b :=
  entry_of_block (by simp)

lemma entry_push_of_ne (h : i ≠ e.blocks.length) : (e.push b).entry i = e.entry i := by
  obtain hi | hi := Nat.lt_or_gt_of_ne h
  · rw [entry, entry, getD_eq_getElem?_getD, getD_eq_getElem?_getD, push_blocks,
      getElem?_append_left hi]
  rw [entry_of_le (Nat.le_of_lt hi), entry_of_le]
  rw [push_blocks, length_append]
  exact hi

lemma push_block (h : e.blocks[i]? = some x) : (e.push b).blocks[i]? = some x := by
  rw [push_blocks, List.getElem?_append_left (List.getElem?_eq_some_iff.mp h).1, h]

end Extent

/-- The position of byte `k` of a file in its block. -/
def position (k : ℕ) : Fin BSIZE := ⟨k % BSIZE, Nat.mod_lt _ (by decide)⟩

/-- The inode `d` and the image spell the extent `e`, whose data begins with `bytes`. -/
structure Held (image : ℕ → Block) (d : Dinode) (e : Extent) (bytes : List UInt8) : Prop where
  direct : ∀ i < NDIRECT, d.addr i = e.entry i
  indirect : d.addr NDIRECT = UInt32.ofNat (e.ind.getD 0)
  entries : ∀ b, e.ind = some b → ∀ j < NINDIRECT, (image b).word j = e.entry (NDIRECT + j)
  data : ∀ k v, bytes[k]? = some v → ∃ b, e.blocks[k / BSIZE]? = some b ∧ image b (position k) = v

namespace Held

variable {image image' : ℕ → Block} {d : Dinode} {e : Extent} {bytes : List UInt8}

lemma empty (h : ∀ i, d.addr i = 0) : Held image d Extent.empty [] where
  direct i _ := h i
  indirect := h _
  entries _ hb := nomatch hb
  data _ _ hv := nomatch hv

section
variable (h : Held image d e bytes)
include h

/-- Only the blocks of the file matter. -/
lemma frame (hsame : ∀ x ∈ e.used, image' x = image x) : Held image' d e bytes where
  direct := h.direct
  indirect := h.indirect
  entries b hb j hj := by
    rw [hsame b (Extent.mem_used_of_ind hb)]
    exact h.entries b hb j hj
  data k v hv := by
    obtain ⟨b, hb, hval⟩ := h.data k v hv
    refine ⟨b, hb, ?_⟩
    rw [hsame b (Extent.mem_used_of_block hb)]
    exact hval

variable {b : ℕ}

lemma data_push (k : ℕ) (v : UInt8) (hv : bytes[k]? = some v) :
    ∃ x, (e.push b).blocks[k / BSIZE]? = some x ∧ image x (position k) = v := by
  obtain ⟨x, hx, hval⟩ := h.data k v hv
  exact ⟨x, Extent.push_block hx, hval⟩

lemma push_direct (hlen : e.blocks.length < NDIRECT) (hind : e.ind = none) :
    Held image (d.setAddr e.blocks.length (UInt32.ofNat b)) (e.push b) bytes where
  direct i hi := by
    obtain rfl | hne := eq_or_ne i e.blocks.length
    · rw [d.addr_setAddr _ (by omega), Extent.entry_push_length]
    · rw [d.addr_setAddr_of_ne _ hne, Extent.entry_push_of_ne hne]
      exact h.direct i hi
  indirect := by
    rw [d.addr_setAddr_of_ne _ (Nat.ne_of_gt hlen), h.indirect, Extent.push_ind]
  entries x hx := by
    rw [Extent.push_ind, hind] at hx
    cases hx
  data := h.data_push

/-- An indirect block without entries. -/
lemma addInd (hlen : e.blocks.length ≤ NDIRECT) (hb : image b = Block.zero) :
    Held image (d.setAddr NDIRECT (UInt32.ofNat b)) (e.addInd b) bytes where
  direct i hi := by
    rw [d.addr_setAddr_of_ne _ (Nat.ne_of_lt hi)]
    exact h.direct i hi
  indirect := d.addr_setAddr _ (Nat.lt_succ_self _)
  entries x hx j _ := by
    obtain rfl : b = x := Option.some.inj hx
    rw [hb, Block.word_zero]
    exact (Extent.entry_of_le (e := e) (by omega)).symm
  data := h.data

lemma push_indirect {a b : ℕ} (hused : e.used.Nodup) (hind : e.ind = some a)
    (hlen : NDIRECT ≤ e.blocks.length) (hmax : e.blocks.length < MAXFILE) : Held (update image a
      ((image a).setWord (e.blocks.length - NDIRECT) (UInt32.ofNat b))) d (e.push b) bytes where
  direct i hi := by
    rw [Extent.entry_push_of_ne (by omega)]
    exact h.direct i hi
  indirect := h.indirect
  entries x hx j hj := by
    obtain rfl : a = x := Option.some.inj (hind.symm.trans hx)
    have hword : e.blocks.length - NDIRECT < WORDS := by
      change _ < NINDIRECT
      unfold MAXFILE at hmax
      omega
    rw [update_self]
    obtain rfl | hne := eq_or_ne j (e.blocks.length - NDIRECT)
    · rw [Block.word_setWord _ _ hword, Nat.add_sub_cancel' hlen, Extent.entry_push_length]
    · rw [Block.word_setWord_of_ne _ _ hne, Extent.entry_push_of_ne (by omega)]
      exact h.entries a hind j hj
  data k v hv := by
    obtain ⟨x, hx, hval⟩ := h.data_push (b := b) k v hv
    obtain ⟨y, hy, hyval⟩ := h.data k v hv
    obtain rfl : y = x := Option.some.inj ((Extent.push_block hy).symm.trans hx)
    have hne : y ≠ a := fun hya =>
      Extent.ind_notMem_blocks hused hind (hya ▸ mem_of_getElem? hy)
    refine ⟨y, hx, ?_⟩
    rw [update_of_ne hne]
    exact hval

lemma splice {chunk : List UInt8} {x : ℕ} (hused : e.used.Nodup)
    (hx : e.blocks[bytes.length / BSIZE]? = some x)
    (hfit : bytes.length % BSIZE + chunk.length ≤ BSIZE) :
    Held (update image x ((image x).splice (bytes.length % BSIZE) chunk)) d e (bytes ++ chunk) where
  direct := h.direct
  indirect := h.indirect
  entries b hb j hj := by
    have hne : b ≠ x := fun hbx =>
      Extent.ind_notMem_blocks hused hb (hbx ▸ mem_of_getElem? hx)
    rw [update_of_ne hne]
    exact h.entries b hb j hj
  data k v hv := by
    have hdiv := Nat.div_add_mod bytes.length BSIZE
    have hkdiv := Nat.div_add_mod k BSIZE
    have hpos : 0 < BSIZE := by decide
    obtain hk | hk := Nat.lt_or_ge k bytes.length
    · rw [getElem?_append_left hk] at hv
      obtain ⟨b, hb, hval⟩ := h.data k v hv
      refine ⟨b, hb, ?_⟩
      obtain rfl | hne := eq_or_ne b x
      · -- An old byte of the block that is written lies in front of the new ones.
        have hsame : k / BSIZE = bytes.length / BSIZE :=
          (List.getElem?_inj (List.getElem?_eq_some_iff.mp hb).1 (Extent.blocks_nodup hused)).mp
            (hb.trans hx.symm)
        have hlt : k % BSIZE < bytes.length % BSIZE := by
          rw [hsame] at hkdiv
          omega
        rw [update_self, Block.splice_of_lt _ _ hlt]
        exact hval
      · rw [update_of_ne hne]
        exact hval
    have hlt : k - bytes.length < chunk.length := by
      have := (List.getElem?_eq_some_iff.mp hv).1
      rw [length_append] at this
      omega
    rw [getElem?_append_right hk] at hv
    have hblock : k / BSIZE = bytes.length / BSIZE := by
      have hle := Nat.div_le_div_right (c := BSIZE) hk
      have hge : k / BSIZE < bytes.length / BSIZE + 1 := by
        rw [Nat.div_lt_iff_lt_mul hpos, Nat.add_mul, Nat.one_mul]
        rw [Nat.mul_comm] at hdiv
        omega
      omega
    refine ⟨x, hblock ▸ hx, ?_⟩
    rw [hblock] at hkdiv
    rw [update_self]
    apply Block.splice_of_le
    · change bytes.length % BSIZE ≤ k % BSIZE
      omega
    change chunk[k % BSIZE - bytes.length % BSIZE]? = some v
    rw [← hv]
    congr 1
    omega

end
end Held

end Xv6.Mkfs
