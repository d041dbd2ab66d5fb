import Mathlib.Algebra.GroupWithZero.Nat

/-!
# Words in a memory of bytes

A little-endian 32-bit word takes up four bytes, at any address. Words that do
not overlap do not affect each other.
-/

namespace Xv6.Lib

/-- The word at address `a`. -/
def word (m : ℕ → UInt8) (a : ℕ) : ℕ :=
  (m a).toNat + (m (a + 1)).toNat * 256 + (m (a + 2)).toNat * 65536 + (m (a + 3)).toNat * 16777216

/-- Store the low 32 bits of `v` at address `a`. -/
def setWord (m : ℕ → UInt8) (a v : ℕ) : ℕ → UInt8 := fun i =>
  if a ≤ i ∧ i < a + 4 then UInt8.ofNat (v / 256 ^ (i - a)) else m i

section
variable (m : ℕ → UInt8) {a b i : ℕ} (v : ℕ)

lemma word_lt : word m a < 2 ^ 32 := by
  have h₀ := (m a).toNat_lt
  have h₁ := (m (a + 1)).toNat_lt
  have h₂ := (m (a + 2)).toNat_lt
  have h₃ := (m (a + 3)).toNat_lt
  unfold word
  omega

lemma setWord_of_lt (h : i < a) : setWord m a v i = m i := if_neg (by omega)

lemma setWord_of_le (h : a + 4 ≤ i) : setWord m a v i = m i := if_neg (by omega)

lemma toNat_setWord (j : ℕ) (hj : j < 4) : (setWord m a v (a + j)).toNat = v / 256 ^ j % 256 := by
  rw [setWord, if_pos (by omega), Nat.add_sub_cancel_left, UInt8.toNat_ofNat']

lemma word_setWord : word (setWord m a v) a = v % 2 ^ 32 := by
  have h₀ := toNat_setWord m (a := a) v 0 (by omega)
  have h₁ := toNat_setWord m (a := a) v 1 (by omega)
  have h₂ := toNat_setWord m (a := a) v 2 (by omega)
  have h₃ := toNat_setWord m (a := a) v 3 (by omega)
  rw [Nat.add_zero] at h₀
  unfold word
  rw [h₀, h₁, h₂, h₃]
  omega

/-- A word depends on its own bytes only. -/
lemma word_congr {m m' : ℕ → UInt8} (h : ∀ i, a ≤ i → i < a + 4 → m' i = m i) :
    word m' a = word m a := by
  unfold word
  rw [h a (by omega) (by omega), h (a + 1) (by omega) (by omega), h (a + 2) (by omega) (by omega),
    h (a + 3) (by omega) (by omega)]

lemma word_setWord_of_apart (h : a + 4 ≤ b ∨ b + 4 ≤ a) : word (setWord m a v) b = word m b := by
  refine word_congr fun i hi hi' => ?_
  obtain h | h := h
  · exact setWord_of_le m v (by omega)
  · exact setWord_of_lt m v (by omega)

end
end Xv6.Lib
