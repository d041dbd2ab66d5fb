import Xv6.Mkfs.Bounds
import Xv6.Mkfs.Reader

/-!
# What the kernel reads from a file of the image

`bmap` finds the blocks of a `Held` file, and `readi` copies their bytes, as
long as the inode does not claim more blocks than the file has.
-/

namespace Xv6.Mkfs
open Fs Lib List UInt32

section Bmap
variable {image : ℕ → Block} {d : Dinode} {e : Extent} {bytes : List UInt8}

lemma ok_bind {ε α β : Type} (a : α) (f : α → Except ε β) : (Except.ok a >>= f) = f a := rfl

lemma mapped_ofNat {x : ℕ} (hrange : nmeta ≤ x ∧ x < FSSIZE) :
    mapped (UInt32.ofNat x) = .ok x := by
  have hle := Nat.le_of_lt hrange.2
  have hne := ofNat_ne_zero (Nat.lt_of_lt_of_le (by decide) hrange.1) hle
  rw [mapped, if_neg hne, toNat_ofNat_of_le hle]
  rfl

lemma bread_of_lt {x : ℕ} (h : x < FSSIZE) : bread image x = .ok (image x) := by
  unfold bread
  exact if_neg (Nat.not_le.mpr h)

section
variable (h : Held image d e bytes) (hplaced : e.Placed) (hshaped : e.Shaped)
  (hmax : e.blocks.length ≤ MAXFILE)

include h hplaced hshaped hmax

lemma Held.bmap {bn x : ℕ} (hx : e.blocks[bn]? = some x) : Mkfs.bmap image d bn = .ok x := by
  have hlen := (List.getElem?_eq_some_iff.mp hx).1
  have hrange := hplaced x (Extent.mem_used_of_block hx)
  unfold Mkfs.bmap
  split_ifs with hdirect hindirect
  · rw [h.direct bn hdirect, Extent.entry_of_block hx]
    exact mapped_ofNat hrange
  · have hge := Nat.le_of_not_lt hdirect
    obtain ⟨a, hind⟩ := Option.isSome_iff_exists.mp (hshaped.mpr (Nat.lt_of_le_of_lt hge hlen))
    have harange := hplaced a (Extent.mem_used_of_ind hind)
    have haddr : mapped (d.addr NDIRECT) = .ok a := by
      rw [h.indirect, hind, Option.getD_some]
      exact mapped_ofNat harange
    have hword : (image a).word (bn - NDIRECT) = UInt32.ofNat x := by
      rw [h.entries a hind _ hindirect, Nat.add_sub_cancel' hge, Extent.entry_of_block hx]
    rw [haddr, ok_bind, bread_of_lt harange.2, ok_bind, hword]
    exact mapped_ofNat hrange
  · unfold MAXFILE at hmax
    omega

lemma Held.readLoop (off left : ℕ) (hle : off + left ≤ e.blocks.length * BSIZE) :
    ∃ out, Mkfs.readLoop image d off left = .ok out ∧ out.length = left ∧
      ∀ k v, k < left → bytes[off + k]? = some v → out[k]? = some v := by
  induction off, left using readLoop.induct with
  | case1 off =>
    rw [Mkfs.readLoop, if_pos rfl]
    exact ⟨[], rfl, rfl, fun k v hk _ => absurd hk (Nat.not_lt_zero k)⟩
  | case2 off left hleft ih =>
    have hmod : off % BSIZE < BSIZE := Nat.mod_lt _ (by decide)
    dsimp only at ih
    generalize hm : min left (BSIZE - off % BSIZE) = m at ih
    have hlt : off / BSIZE < e.blocks.length := by
      rw [Nat.div_lt_iff_lt_mul (by decide)]
      omega
    have hx := getElem?_eq_getElem hlt
    generalize e.blocks[off / BSIZE] = x at hx
    have hle' : off + m + (left - m) ≤ e.blocks.length * BSIZE := by
      clear ih
      omega
    obtain ⟨rest, hrest, hlen, hbytes⟩ := ih hle'
    clear ih
    have hextract : (Block.extract (image x) (off % BSIZE) m).length = m :=
      Block.length_extract _ (by omega)
    refine ⟨Block.extract (image x) (off % BSIZE) m ++ rest, ?_, ?_, ?_⟩
    · rw [Mkfs.readLoop, if_neg hleft, h.bmap hplaced hshaped hmax hx, ok_bind,
        bread_of_lt (hplaced x (Extent.mem_used_of_block hx)).2, ok_bind]
      dsimp only
      rw [hm, hrest, ok_bind]
      rfl
    · rw [length_append, hextract, hlen]
      omega
    intro k v hk hv
    obtain hkm | hkm := Nat.lt_or_ge k m
    · -- The byte lies in the block that is read first.
      have hdiv : (off + k) / BSIZE = off / BSIZE := by
        unfold BSIZE at hm ⊢
        omega
      have hpos : position (off + k) = ⟨off % BSIZE + k, by omega⟩ := by
        apply Fin.ext
        change (off + k) % BSIZE = off % BSIZE + k
        unfold BSIZE at hm ⊢
        omega
      obtain ⟨y, hy, hval⟩ := h.data (off + k) v hv
      obtain rfl : x = y := Option.some.inj (hx.symm.trans (hdiv ▸ hy))
      rw [getElem?_append_left (by omega), Block.getElem?_extract _ hkm (by omega), ← hpos, hval]
    rw [getElem?_append_right (by omega), hextract]
    apply hbytes (k - m) v (by omega)
    rw [← hv]
    congr 1
    omega

lemma Held.readi (htype : d.type ≠ T_DEV) {off n : UInt32}
    (hdata : bytes.length ≤ e.blocks.length * BSIZE) (hsize : bytes.length ≤ d.size.toNat)
    (hle : off.toNat + n.toNat ≤ bytes.length) :
    Mkfs.readi image d off n = .ok (some ((bytes.drop off.toNat).take n.toNat)) := by
  have hdsize := d.size.toNat_lt
  have hsum : (off + n).toNat = off.toNat + n.toNat := by
    rw [UInt32.toNat_add, Nat.mod_eq_of_lt]
    omega
  have hbad : ¬ (off > d.size ∨ off + n < off) := by
    rw [gt_iff_lt, lt_iff_toNat_lt, lt_iff_toNat_lt, hsum]
    omega
  have hfit : ¬ off + n > d.size := by
    rw [gt_iff_lt, lt_iff_toNat_lt, hsum]
    omega
  obtain ⟨out, hloop, hlen, hbytes⟩ := h.readLoop hplaced hshaped hmax off.toNat n.toNat (by omega)
  have hout : out = (bytes.drop off.toNat).take n.toNat := by
    apply ext_getElem?
    intro k
    obtain hk | hk := Nat.lt_or_ge k n.toNat
    · rw [getElem?_take_of_lt hk, getElem?_drop]
      have hlt : off.toNat + k < bytes.length := by omega
      rw [getElem?_eq_getElem hlt]
      exact hbytes k _ hk (getElem?_eq_getElem hlt)
    rw [getElem?_eq_none (by omega), getElem?_eq_none]
    rw [length_take, length_drop]
    omega
  rw [Mkfs.readi, if_neg htype, if_neg hbad, if_neg hfit]
  dsimp only
  rw [hloop, hout]
  rfl

/-- A file whose size stays within its blocks is read without a call of `balloc`. -/
lemma Held.readi_ne_balloc (hsize : d.size.toNat ≤ e.blocks.length * BSIZE) (off n : UInt32) :
    Mkfs.readi image d off n ≠ .error .balloc := by
  unfold Mkfs.readi
  split_ifs with htype hbad hlong
  · exact fun hfault => nomatch hfault
  · exact fun hfault => nomatch hfault
  all_goals
    rw [not_or, gt_iff_lt, lt_iff_toNat_lt, lt_iff_toNat_lt] at hbad
    rw [gt_iff_lt, lt_iff_toNat_lt] at hlong
  · have hsub : (d.size - off).toNat = d.size.toNat - off.toNat := by
      rw [UInt32.toNat_sub_of_le]
      rw [le_iff_toNat_le]
      omega
    obtain ⟨out, hloop, -⟩ := h.readLoop hplaced hshaped hmax off.toNat (d.size - off).toNat
      (by omega)
    dsimp only
    rw [hloop]
    exact fun hfault => nomatch hfault
  have hsum : (off + n).toNat = off.toNat + n.toNat := by
    have hoff := off.toNat_lt
    have hn := n.toNat_lt
    have hmod := UInt32.toNat_add off n
    omega
  obtain ⟨out, hloop, -⟩ := h.readLoop hplaced hshaped hmax off.toNat n.toNat (by omega)
  dsimp only
  rw [hloop]
  exact fun hfault => nomatch hfault

end
end Bmap

end Xv6.Mkfs
