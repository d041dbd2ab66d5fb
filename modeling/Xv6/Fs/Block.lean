import Mathlib.Logic.Function.Basic
import Xv6.Fs.Layout

/-!
# Disk blocks

A block is an array of bytes. The log header and the file system read and write
little-endian 32-bit words in it.
-/

namespace Xv6.Fs

/-- `uchar data[BSIZE]`. -/
abbrev Block : Type := Fin BSIZE → UInt8

/-- The name of a block: device and block number. -/
structure BlockId where
  dev : ℕ
  blockno : ℕ
  deriving DecidableEq, Repr

/-- Words in a block. -/
def WORDS : ℕ := BSIZE / 4

namespace Block

/-- Byte `k` of a block. -/
def byte (b : Block) (k : ℕ) : ℕ := if h : k < BSIZE then (b ⟨k, h⟩).toNat else 0

lemma byte_lt (b : Block) (k : ℕ) : b.byte k < 2 ^ 8 := by
  unfold byte
  split
  · exact UInt8.toNat_lt _
  · decide

/-- The `uint` at index `i` of a block read as an array of words. -/
def word (b : Block) (i : ℕ) : UInt32 :=
  UInt32.ofNat (b.byte (4 * i) + b.byte (4 * i + 1) * 256 + b.byte (4 * i + 2) * 65536 +
    b.byte (4 * i + 3) * 16777216)

/-- Store a `uint` at index `i`. -/
def setWord (b : Block) (i : ℕ) (v : UInt32) : Block := fun k =>
  if k.val / 4 = i then UInt8.ofNat (v.toNat / 256 ^ (k.val % 4)) else b k

lemma toNat_word (b : Block) (i : ℕ) : (b.word i).toNat =
    b.byte (4 * i) + b.byte (4 * i + 1) * 256 + b.byte (4 * i + 2) * 65536 +
      b.byte (4 * i + 3) * 16777216 := by
  have h₀ := b.byte_lt (4 * i)
  have h₁ := b.byte_lt (4 * i + 1)
  have h₂ := b.byte_lt (4 * i + 2)
  have h₃ := b.byte_lt (4 * i + 3)
  rw [word, UInt32.toNat_ofNat']
  omega

variable {i k j o m : ℕ}

lemma byte_setWord_of_ne (b : Block) (v : UInt32) (h : k / 4 ≠ i) :
    (b.setWord i v).byte k = b.byte k := by
  simp [byte, setWord, h]

lemma byte_setWord (b : Block) (v : UInt32) (hi : i < WORDS) (hj : j < 4) :
    (b.setWord i v).byte (4 * i + j) = v.toNat / 256 ^ j % 256 := by
  have hlt : 4 * i + j < BSIZE := by
    unfold WORDS BSIZE at hi
    unfold BSIZE
    omega
  have hdiv : (4 * i + j) / 4 = i := by omega
  have hmod : (4 * i + j) % 4 = j := by omega
  unfold byte setWord
  rw [dif_pos hlt]
  simp only [hdiv, hmod, if_true, UInt8.toNat_ofNat']

@[simp]
lemma word_setWord (b : Block) (v : UInt32) (hi : i < WORDS) : (b.setWord i v).word i = v := by
  have h₀ := byte_setWord b v hi (j := 0) (by decide)
  have h₁ := byte_setWord b v hi (j := 1) (by decide)
  have h₂ := byte_setWord b v hi (j := 2) (by decide)
  have h₃ := byte_setWord b v hi (j := 3) (by decide)
  have hv := v.toNat_lt
  rw [Nat.add_zero] at h₀
  unfold word
  rw [h₀, h₁, h₂, h₃]
  apply UInt32.toNat_inj.mp
  rw [UInt32.toNat_ofNat']
  omega

lemma word_setWord_of_ne (b : Block) (v : UInt32) (h : j ≠ i) :
    (b.setWord i v).word j = b.word j := by
  unfold word
  rw [byte_setWord_of_ne b v (by omega), byte_setWord_of_ne b v (by omega),
    byte_setWord_of_ne b v (by omega), byte_setWord_of_ne b v (by omega)]

/-- A block of zeroes. -/
def zero : Block := fun _ => 0

@[simp]
lemma byte_zero (k : ℕ) : zero.byte k = 0 := by
  simp [byte, zero]

@[simp]
lemma word_zero (i : ℕ) : zero.word i = 0 := by
  simp [word]

/-- Store consecutive `uint`s, the first one at index `i`. -/
def setWords (b : Block) (i : ℕ) : List UInt32 → Block
  | [] => b
  | w :: ws => (b.setWord i w).setWords (i + 1) ws

lemma word_setWords_of_lt (b : Block) (ws : List UInt32) (h : j < i) :
    (b.setWords i ws).word j = b.word j := by
  induction ws generalizing b i with
  | nil => rfl
  | cons w ws ih => rw [setWords, ih _ (by omega), word_setWord_of_ne _ _ (by omega)]

lemma word_setWords_of_le (b : Block) (ws : List UInt32) (h : i + ws.length ≤ j) :
    (b.setWords i ws).word j = b.word j := by
  induction ws generalizing b i with
  | nil => rfl
  | cons w ws ih =>
    rw [List.length_cons] at h
    rw [setWords, ih _ (by omega), word_setWord_of_ne _ _ (by omega)]

lemma word_setWords (b : Block) {ws : List UInt32} {w : UInt32} (hw : ws[j]? = some w)
    (hi : i + ws.length ≤ WORDS) : (b.setWords i ws).word (i + j) = w := by
  induction ws generalizing b i j with
  | nil => cases hw
  | cons v ws ih =>
    rw [List.length_cons] at hi
    cases j with
    | zero =>
      obtain rfl : v = w := by simpa using hw
      have hfirst : (b.setWord i v).word i = v := word_setWord _ _ (by omega)
      rwa [← word_setWords_of_lt _ ws (Nat.lt_succ_self i)] at hfirst
    | succ j =>
      have hrec := ih (b.setWord i v) hw (i := i + 1) (by omega)
      rwa [show i + 1 + j = i + (j + 1) by omega] at hrec

/-- Copy bytes into a block, the first one to position `o`. -/
def splice (b : Block) (o : ℕ) (bytes : List UInt8) : Block := fun k =>
  if k.val < o then b k else bytes.getD (k.val - o) (b k)

lemma splice_of_lt (b : Block) (bytes : List UInt8) {k : Fin BSIZE} (h : k.val < o) :
    b.splice o bytes k = b k :=
  if_pos h

lemma splice_of_le (b : Block) {bytes : List UInt8} {k : Fin BSIZE} {v : UInt8} (h : o ≤ k.val)
    (hv : bytes[k.val - o]? = some v) : b.splice o bytes k = v := by
  rw [splice, if_neg (Nat.not_lt.mpr h), List.getD_eq_getElem?_getD, hv, Option.getD_some]

/-- The `m` bytes of a block from position `o` on. -/
def extract (b : Block) (o m : ℕ) : List UInt8 := ((List.ofFn b).drop o).take m

lemma length_extract (b : Block) (h : o + m ≤ BSIZE) : (b.extract o m).length = m := by
  rw [extract, List.length_take, List.length_drop, List.length_ofFn]
  omega

lemma getElem?_extract (b : Block) (hk : k < m) (h : o + k < BSIZE) :
    (b.extract o m)[k]? = some (b ⟨o + k, h⟩) := by
  rw [extract, List.getElem?_take_of_lt hk, List.getElem?_drop, List.getElem?_ofFn, dif_pos h]

/-- Bit `i` of a block, counted from the low bit of byte 0. -/
def bit (b : Block) (i : ℕ) : Bool := (b.byte (i / 8)).testBit (i % 8)

/-- `buf[i/8] = buf[i/8] | (0x1 << (i%8))`. -/
def setBit (b : Block) (i : ℕ) : Block := fun k =>
  if k.val = i / 8 then b k ||| UInt8.ofNat (2 ^ (i % 8)) else b k

@[simp]
lemma bit_zero (i : ℕ) : zero.bit i = false := by
  simp [bit]

lemma testBit_byte (b : Block) (k t : ℕ) :
    (b.byte k).testBit t = (decide (t < 8) && b.bit (8 * k + t)) := by
  obtain ht | ht := Nat.lt_or_ge t 8
  · have hdiv : (8 * k + t) / 8 = k := by omega
    have hmod : (8 * k + t) % 8 = t := by omega
    simp [bit, hdiv, hmod, ht]
  have hlt : b.byte k < 2 ^ t :=
    Nat.lt_of_lt_of_le (b.byte_lt k) (Nat.pow_le_pow_right (by decide) ht)
  simp [Nat.testBit_lt_two_pow hlt, Nat.not_lt.mpr ht]

lemma bit_setBit (b : Block) (j : ℕ) (hi : i < BPB) :
    (b.setBit i).bit j = (b.bit j || decide (j = i)) := by
  have hbyte : i / 8 < BSIZE := by
    unfold BPB at hi
    omega
  by_cases hj : j / 8 = i / 8
  · have hsmall : 2 ^ (i % 8) < 2 ^ 8 := Nat.pow_lt_pow_right (by decide) (Nat.mod_lt _ (by decide))
    have hval : (UInt8.ofNat (2 ^ (i % 8))).toNat = 2 ^ (i % 8) := by
      rw [UInt8.toNat_ofNat']
      exact Nat.mod_eq_of_lt hsmall
    have hset : (b.setBit i).byte (j / 8) = b.byte (j / 8) ||| 2 ^ (i % 8) := by
      simp [byte, setBit, hj, hbyte, UInt8.toNat_or, hval]
    have hsame : i % 8 = j % 8 ↔ j = i := by omega
    rw [bit, hset, Nat.testBit_or, Nat.testBit_two_pow, bit]
    simp only [hsame]
  have hset : (b.setBit i).byte (j / 8) = b.byte (j / 8) := by
    simp [byte, setBit, hj]
  have hne : j ≠ i := fun h => hj (by rw [h])
  simp [bit, hset, hne]

end Block
end Xv6.Fs
