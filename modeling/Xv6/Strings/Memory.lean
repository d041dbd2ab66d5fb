import Mathlib.Data.Int.Notation
import Mathlib.Order.Basic

/-!
# Moving and filling memory

`memmove` of `string.c` copies downwards when the destination starts inside the source;
`memmove` of `ulib.c` always copies upwards. `memset` of `string.c` stores words where it can.

## Implementation notes

`memmove` works on addresses that do not wrap around, `memset` on the whole address space.
-/

namespace Xv6.Strings
open Function

/-! ### `memmove` -/

/-- `while(n-- > 0) *d++ = *s++;` -/
def copyUp (m : ℕ → UInt8) (d s : ℕ) : ℕ → ℕ → UInt8
  | 0 => m
  | n + 1 => copyUp (update m d (m s)) (d + 1) (s + 1) n

/-- `while(n-- > 0) *--d = *--s;` -/
def copyDown (m : ℕ → UInt8) (d s : ℕ) : ℕ → ℕ → UInt8
  | 0 => m
  | n + 1 => copyDown (update m (d - 1) (m (s - 1))) (d - 1) (s - 1) n

/-- `memmove` of `string.c`. -/
def memmove (m : ℕ → UInt8) (dst src n : ℕ) : ℕ → UInt8 :=
  if src < dst ∧ src + n > dst then copyDown m (dst + n) (src + n) n else copyUp m dst src n

/-- `memmove` of `ulib.c`, for an `int` that may be negative. -/
def ulibMemmove (m : ℕ → UInt8) (dst src : ℕ) (n : ℤ) : ℕ → UInt8 := copyUp m dst src n.toNat

/-- The bytes at `dst` are what the bytes at `src` were. -/
def moved (m : ℕ → UInt8) (dst src n : ℕ) : ℕ → UInt8 := fun a =>
  if dst ≤ a ∧ a < dst + n then m (src + (a - dst)) else m a

variable {m : ℕ → UInt8} {dst src n : ℕ}

lemma copyUp_eq_moved (h : dst ≤ src ∨ src + n ≤ dst) :
    copyUp m dst src n = moved m dst src n := by
  induction n generalizing m dst src with
  | zero =>
    ext a
    rw [copyUp, moved, if_neg (by omega)]
  | succ n ih =>
    rw [copyUp, ih (by omega)]
    ext a
    unfold moved
    -- no byte of the source is overwritten before it is read
    by_cases ha : dst + 1 ≤ a ∧ a < dst + 1 + n
    · rw [if_pos ha, if_pos (by omega), update_of_ne (by omega),
        show src + 1 + (a - (dst + 1)) = src + (a - dst) by omega]
    rw [if_neg ha]
    by_cases hd : a = dst
    · simp [hd]
    · rw [if_neg (by omega), update_of_ne hd]

lemma copyDown_eq_moved (h : src ≤ dst) :
    copyDown m (dst + n) (src + n) n = moved m dst src n := by
  induction n generalizing m with
  | zero =>
    ext a
    rw [copyDown, moved, if_neg (by omega)]
  | succ n ih =>
    rw [copyDown, ← Nat.add_assoc, ← Nat.add_assoc, Nat.add_sub_cancel, Nat.add_sub_cancel, ih]
    ext a
    unfold moved
    by_cases ha : dst ≤ a ∧ a < dst + n
    · rw [if_pos ha, if_pos (by omega), update_of_ne (by omega)]
    rw [if_neg ha]
    by_cases hd : a = dst + n
    · simp [hd]
    · rw [if_neg (by omega), update_of_ne hd]

lemma copyUp_fills {c : UInt8} (h : src < dst) (hm : ∀ a < dst, m a = c) {a : ℕ}
    (ha : a < dst + n) : copyUp m dst src n a = c := by
  induction n generalizing m dst src with
  | zero => exact hm a ha
  | succ n ih =>
    refine ih (by omega) (fun b hb => ?_) (by omega)
    rcases Nat.lt_succ_iff_lt_or_eq.mp hb with hb | rfl
    · rw [update_of_ne (Nat.ne_of_lt hb), hm b hb]
    · rw [update_self, hm src h]

/-- `memmove` of `string.c` moves any bytes. The one of `ulib.c` does the same in every memory
exactly when the destination does not start inside the source. -/
theorem memmove_moves_iff (dst src n : ℕ) :
    (∀ m, memmove m dst src n = moved m dst src n) ∧
      ((∀ m, ulibMemmove m dst src n = memmove m dst src n) ↔ dst ≤ src ∨ src + n ≤ dst) := by
  have hmove : ∀ m, memmove m dst src n = moved m dst src n := by
    intro m
    unfold memmove
    split
    · exact copyDown_eq_moved (by omega)
    · exact copyUp_eq_moved (by omega)
  refine ⟨hmove, ?_⟩
  simp only [hmove]
  refine ⟨fun h => ?_, fun h _ => copyUp_eq_moved h⟩
  -- the last byte of the source lies in the destination
  by_contra hin
  have hlast := congrFun (h fun a => if a < dst then 1 else 0) (dst + (n - 1))
  rw [ulibMemmove, Int.toNat_natCast, moved, if_pos (by omega), if_neg (by omega),
    copyUp_fills (by omega) (fun _ ha => if_pos ha) (by omega)] at hlast
  exact absurd hlast (by decide)

/-- Two bytes moved up by one address: `memmove` of `ulib.c` reads the second one after it has
overwritten it. -/
theorem ulibMemmove_overlapping : ∃ m : ℕ → UInt8,
    memmove m 1 0 2 2 = 8 ∧ ulibMemmove m 1 0 2 2 = 7 :=
  ⟨fun a => if a = 0 then 7 else 8, by decide, by decide⟩

/-! ### `memset` -/

/-- `stosb`: store a byte at `cnt` addresses. -/
def stosb (m : UInt32 → UInt8) (addr : UInt32) (b : UInt8) : ℕ → UInt32 → UInt8
  | 0 => m
  | cnt + 1 => stosb (update m addr b) (addr + 1) b cnt

/-- Store a word, the lowest byte first. -/
def storeWord (m : UInt32 → UInt8) (addr w : UInt32) : UInt32 → UInt8 :=
  update (update (update (update m addr w.toUInt8) (addr + 1) (w >>> 8).toUInt8)
    (addr + 1 + 1) (w >>> 16).toUInt8) (addr + 1 + 1 + 1) (w >>> 24).toUInt8

/-- `stosl`: store a word at `cnt` places. -/
def stosl (m : UInt32 → UInt8) (addr w : UInt32) : ℕ → UInt32 → UInt8
  | 0 => m
  | cnt + 1 => stosl (storeWord m addr w) (addr + 4) w cnt

/-- `memset` of `string.c`; `c` is an `int` in two's complement. -/
def memset (m : UInt32 → UInt8) (dst : UInt32) (c : Int32) (n : UInt32) : UInt32 → UInt8 :=
  if dst.toInt32 % 4 = 0 ∧ n % 4 = 0 then
    let c := c.toUInt32 &&& 0xFF
    stosl m dst (c <<< 24 ||| c <<< 16 ||| c <<< 8 ||| c) (n / 4).toNat
  else
    stosb m dst c.toUInt32.toUInt8 n.toNat

lemma toUInt8_fill (c : UInt32) : ∀ k ∈ [0, 8, 16, 24],
    (((c &&& 0xFF) <<< 24 ||| (c &&& 0xFF) <<< 16 ||| (c &&& 0xFF) <<< 8 ||| (c &&& 0xFF)) >>>
      k).toUInt8 = c.toUInt8 := by
  have hlow : c &&& 0xFF = c.toUInt8.toUInt32 := by
    apply UInt32.toNat_inj.mp
    rw [UInt32.toNat_and, UInt8.toNat_toUInt32, UInt32.toNat_toUInt8]
    exact Nat.and_two_pow_sub_one_eq_mod c.toNat 8
  have hbyte : ∀ b : Fin 256, [0, 8, 16, 24].all fun k =>
      let d := (UInt8.ofFin b).toUInt32
      ((d <<< 24 ||| d <<< 16 ||| d <<< 8 ||| d) >>> k).toUInt8 = .ofFin b := by decide +kernel
  rw [hlow]
  exact fun k hk => of_decide_eq_true (List.all_eq_true.mp (hbyte c.toUInt8.toFin) k hk)

/-- Words whose bytes are all the same. -/
lemma stosl_eq_stosb {w : UInt32} {b : UInt8} (hw : ∀ k ∈ [0, 8, 16, 24], (w >>> k).toUInt8 = b)
    (m : UInt32 → UInt8) (addr : UInt32) (cnt : ℕ) :
    stosl m addr w cnt = stosb m addr b (4 * cnt) := by
  induction cnt generalizing m addr with
  | zero => rfl
  | succ cnt ih =>
    have hword : storeWord m addr w = stosb m addr b 4 := by
      have h₀ := hw 0 (by simp)
      rw [UInt32.shiftRight_zero] at h₀
      rw [storeWord, h₀, hw 8 (by simp), hw 16 (by simp), hw 24 (by simp)]
      rfl
    have hfour : addr + 4 = addr + 1 + 1 + 1 + 1 := by
      simp only [UInt32.add_assoc]
      rfl
    rw [stosl, ih, hword, hfour, Nat.mul_succ]
    rfl

/-- Both branches of `memset` store the low byte of `c` at `n` addresses. -/
theorem memset_eq_stosb (m : UInt32 → UInt8) (dst : UInt32) (c : Int32) (n : UInt32) :
    memset m dst c n = stosb m dst c.toUInt32.toUInt8 n.toNat := by
  unfold memset
  split
  · rename_i h
    dsimp only
    rw [stosl_eq_stosb (toUInt8_fill c.toUInt32)]
    congr 1
    have hn := congrArg UInt32.toNat h.2
    rw [UInt32.toNat_mod] at hn
    rw [UInt32.toNat_div]
    exact Nat.mul_div_cancel' (Nat.dvd_of_mod_eq_zero hn)
  · rfl

end Xv6.Strings
