import Mathlib.Data.Nat.Digits.Lemmas

/-!
# Printing an integer

`intToStr` of `proc.c` writes the digits of a number from the last one on, adds zeros up to the
width and reverses the string in place.

## Implementation notes

Neither the quotient nor the remainder by ten overflows, so that an `int` is an integer here;
`/` and `%` of C round towards zero. `str` is the list of the characters before `i`, so that
`str[i++] = c` appends one.
-/

namespace Xv6.Strings
open List

/-! ### The code -/

/-- The loop of `reverse`. -/
def reverseLoop (str : List UInt8) (i j : ℕ) : List UInt8 :=
  if i < j then reverseLoop ((str.set i (str.getD j 0)).set j (str.getD i 0)) (i + 1) (j - 1)
  else str
termination_by j - i

def reverse (str : List UInt8) (len : ℕ) : List UInt8 := reverseLoop str 0 (len - 1)

/-- The character of a digit, as C computes it from a remainder. -/
def digitChar (d : ℤ) : UInt8 := UInt8.ofNat (d + 48).toNat

/-- `while (x)` -/
def writeDigits (str : List UInt8) (x : ℤ) : List UInt8 :=
  if x = 0 then str else writeDigits (str ++ [digitChar (x.tmod 10)]) (x.tdiv 10)
termination_by x.natAbs
decreasing_by
  rw [Int.natAbs_tdiv]
  exact Nat.div_lt_self (by omega) (by decide)

/-- `while (i < d)` -/
def writeZeros (str : List UInt8) (d : ℕ) : List UInt8 :=
  if str.length < d then writeZeros (str ++ [digitChar 0]) d else str
termination_by d - str.length
decreasing_by
  rw [List.length_append, List.length_singleton]
  omega

/-- `intToStr`: the string with its terminator, and the result. -/
def intToStr (x : ℤ) (d : ℕ) : List UInt8 × ℕ :=
  let str := if x = 0 then [digitChar 0] else []
  let str := writeZeros (writeDigits str x) d
  (reverse str str.length ++ [0], str.length)

/-! ### What the loops write -/

variable {str : List UInt8} {i j : ℕ}

lemma getElem?_reverseLoop (hj : j < str.length) (a : ℕ) : (reverseLoop str i j)[a]? =
    if i ≤ a ∧ a ≤ j then str[i + j - a]? else str[a]? := by
  induction str, i, j using reverseLoop.induct with
  | case1 str i j hij ih =>
    rw [reverseLoop, if_pos hij, ih (by simp only [length_set]; omega)]
    simp only [getElem?_set, length_set]
    grind
  | case2 str i j hij =>
    rw [reverseLoop, if_neg hij]
    split
    · rw [show i + j - a = a by omega]
    · rfl

lemma reverse_eq (str : List UInt8) : reverse str str.length = str.reverse := by
  cases str with
  | nil => simp [reverse, reverseLoop]
  | cons c l =>
    ext1 a
    rw [reverse, getElem?_reverseLoop (by simp)]
    by_cases ha : a < (c :: l).length
    · rw [if_pos (by omega), getElem?_reverse ha, Nat.zero_add]
    · rw [if_neg (by simp at ha ⊢; omega), getElem?_eq_none (by omega),
        getElem?_eq_none (by simpa using ha)]

/-- The digits of a number, the last one first. -/
def digitChars (n : ℕ) : List UInt8 := (Nat.digits 10 n).map fun d : ℕ => digitChar d

lemma writeDigits_eq (str : List UInt8) (n : ℕ) :
    writeDigits str n = str ++ digitChars n := by
  induction n using Nat.strongRecOn generalizing str with
  | ind n ih =>
    rw [writeDigits.eq_def]
    by_cases hn : n = 0
    · simp [hn, digitChars]
    have hdigits : digitChars n = digitChar (n % 10 : ℕ) :: digitChars (n / 10) := by
      rw [digitChars, Nat.digits_def' (by decide) (Nat.pos_of_ne_zero hn)]
      rfl
    rw [if_neg (by omega), hdigits, append_cons str (digitChar (n % 10 : ℕ))]
    exact ih (n / 10) (by omega) _

lemma writeZeros_eq (d : ℕ) :
    writeZeros str d = str ++ replicate (d - str.length) (digitChar 0) := by
  induction str using writeZeros.induct d with
  | case1 str h ih =>
    rw [writeZeros, if_pos h, ih, length_append, length_singleton,
      show d - str.length = d - (str.length + 1) + 1 by omega, replicate_succ]
    exact (append_cons ..).symm
  | case2 str h =>
    rw [writeZeros, if_neg h, Nat.sub_eq_zero_of_le (by omega), replicate_zero,
      append_nil]

/-! ### The numeral -/

/-- The digits of a number, the first one first; zero has one. -/
def numeral (n : ℕ) : List UInt8 := if n = 0 then [digitChar 0] else (digitChars n).reverse

/-- The number that a string of digits stands for. -/
def value (text : List UInt8) : ℕ := Nat.ofDigits 10 (text.reverse.map fun c => c.toNat - 48)

/-- A numeral with zeros in front. -/
def padded (n d : ℕ) : List UInt8 :=
  replicate (d - (numeral n).length) (digitChar 0) ++ numeral n

lemma intToStr_eq (n d : ℕ) : intToStr n d = (padded n d ++ [0], (padded n d).length) := by
  have hwritten : writeDigits (if (n : ℤ) = 0 then [digitChar 0] else []) n =
      (numeral n).reverse := by
    rw [writeDigits_eq, numeral]
    by_cases hn : n = 0
    · simp [hn, digitChars]
    · simp [hn]
  simp only [intToStr, hwritten, reverse_eq, writeZeros_eq, padded]
  simp [Nat.add_comm]

lemma toNat_digitChar {d : ℕ} (hd : d < 10) : (digitChar d).toNat = d + 48 := by
  rw [digitChar, UInt8.toNat_ofNat']
  omega

lemma exists_of_mem_padded {n d : ℕ} {c : UInt8} (hc : c ∈ padded n d) :
    ∃ k : ℕ, k < 10 ∧ c = digitChar k := by
  obtain hc | hc := mem_append.mp hc
  · exact ⟨0, by decide, eq_of_mem_replicate hc⟩
  unfold numeral at hc
  split at hc
  · exact ⟨0, by decide, by simpa using hc⟩
  obtain ⟨k, hk, rfl⟩ := mem_map.mp (mem_reverse.mp hc)
  exact ⟨k, Nat.digits_lt_base (by decide) hk, rfl⟩

lemma value_padded (n d : ℕ) : value (padded n d) = n := by
  have hvalue : Nat.ofDigits 10 ((numeral n).reverse.map fun c => c.toNat - 48) = n := by
    unfold numeral
    by_cases hn : n = 0
    · simp [hn, digitChar]
    rw [if_neg hn, reverse_reverse, digitChars, map_map]
    calc Nat.ofDigits 10 _ = Nat.ofDigits 10 (Nat.digits 10 n) := by
          congr 1
          refine (map_congr_left fun d hd => ?_).trans (map_id _)
          rw [Function.comp_apply, toNat_digitChar (Nat.digits_lt_base (by decide) hd)]
          exact Nat.add_sub_cancel ..
      _ = n := Nat.ofDigits_digits 10 n
  rw [value, padded, reverse_append, map_append, reverse_replicate,
    map_replicate, show (digitChar 0).toNat - 48 = 0 from rfl,
    Nat.ofDigits_append_replicate_zero, hvalue]

/-- A numeral of an integer: digits, with or without a sign in front. -/
def IsNumeral (text : List UInt8) (x : ℤ) : Prop := ∃ digits : List UInt8, digits ≠ [] ∧
  (∀ c ∈ digits, 48 ≤ c ∧ c ≤ 57) ∧
    (text = digits ∧ x = value digits ∨ text = 45 :: digits ∧ x = -value digits)

lemma isNumeral_padded (n d : ℕ) : IsNumeral (padded n d) n := by
  refine ⟨padded n d, ?_, fun c hc => ?_, .inl ⟨rfl, congrArg _ (value_padded n d).symm⟩⟩
  · unfold padded numeral
    split <;> simp_all [digitChars, Nat.digits_ne_nil_iff_ne_zero]
  · obtain ⟨k, hk, rfl⟩ := exists_of_mem_padded hc
    rw [UInt8.le_iff_toNat_le, UInt8.le_iff_toNat_le, toNat_digitChar hk]
    exact ⟨Nat.le_add_left .., by simpa using Nat.le_of_lt_succ hk⟩

lemma digitChar_le {x : ℤ} (hx : x ≤ 0) : digitChar x ≤ 48 := by
  rw [digitChar, UInt8.le_iff_toNat_le, UInt8.toNat_ofNat']
  exact (Nat.mod_le ..).trans (by simp; omega)

lemma le_of_mem_writeDigits {x : ℤ} (hx : x ≤ 0) (hstr : ∀ c ∈ str, c ≤ 48) :
    ∀ c ∈ writeDigits str x, c ≤ 48 := by
  induction str, x using writeDigits.induct with
  | case1 str =>
    rw [writeDigits, if_pos rfl]
    exact hstr
  | case2 str x hne ih =>
    rw [writeDigits, if_neg hne]
    refine ih (by grind) fun c hc => ?_
    obtain hc | hc := mem_append.mp hc
    · exact hstr c hc
    · rw [mem_singleton.mp hc]
      exact digitChar_le (by grind)

/-- No character that is written for a negative number is above `0`. -/
lemma le_of_mem_intToStr {x : ℤ} {d : ℕ} {text : List UInt8} (hx : x ≤ 0)
    (htext : intToStr x d = (text ++ [0], text.length)) : ∀ c ∈ text, c ≤ 48 := by
  have hstart : ∀ c ∈ (if x = 0 then [digitChar 0] else []), c ≤ 48 := by
    split <;> simp [digitChar]
  have hfst := congrArg Prod.fst htext
  simp only [intToStr, reverse_eq, writeZeros_eq] at hfst
  intro c hc
  rw [← append_cancel_right hfst, mem_reverse, mem_append] at hc
  obtain hc | hc := hc
  · exact le_of_mem_writeDigits hx hstart c hc
  · rw [eq_of_mem_replicate hc]
    exact digitChar_le le_rfl

/-- `intToStr` prints a number, with at least `d` digits, and returns the length of what it prints,
exactly when the number is not negative. -/
theorem intToStr_prints_iff (x : ℤ) (d : ℕ) :
    ((∃ text : List UInt8, intToStr x d = (text ++ [0], text.length) ∧ d ≤ text.length ∧
      IsNumeral text x) ↔ 0 ≤ x) ∧
      (0 ≤ x → intToStr x d = (padded x.toNat d ++ [0], (padded x.toNat d).length)) := by
  constructor
  · constructor
    · rintro ⟨text, htext, -, digits, -, hdigits, ⟨-, rfl⟩ | ⟨rfl, rfl⟩⟩
      · exact Int.natCast_nonneg _
      -- behind the sign there are only zeros
      have hle := le_of_mem_intToStr (by omega) htext
      have hzero : digits = replicate digits.length (digitChar 0) :=
        eq_replicate_of_mem fun c hc => UInt8.le_antisymm
          (hle c (mem_cons_of_mem _ hc)) (hdigits c hc).1
      rw [hzero, value]
      simp [digitChar]
    · intro hx
      obtain ⟨n, rfl⟩ := Int.eq_ofNat_of_zero_le hx
      refine ⟨padded n d, intToStr_eq n d, ?_, isNumeral_padded n d⟩
      rw [padded, length_append, length_replicate]
      omega
  · intro hx
    obtain ⟨n, rfl⟩ := Int.eq_ofNat_of_zero_le hx
    exact intToStr_eq n d

/-- The only digit of -1 comes out as `/`, and there is no sign. -/
theorem intToStr_neg_one : intToStr (-1) 0 = ([47, 0], 1) ∧ ¬ ∃ text : List UInt8,
    intToStr (-1) 0 = (text ++ [0], text.length) ∧ ∀ c ∈ text, c = 45 ∨ 48 ≤ c ∧ c ≤ 57 := by
  have heq : intToStr (-1) 0 = ([47, 0], 1) := by
    simp [intToStr, writeDigits, writeZeros, reverse, reverseLoop, digitChar]
  refine ⟨heq, fun ⟨text, htext, hdigits⟩ => ?_⟩
  have hstr : [47] ++ [0] = text ++ [0] := congrArg Prod.fst (heq.symm.trans htext)
  obtain rfl := append_cancel_right hstr
  exact absurd (hdigits 47 (mem_singleton_self _)) (by decide)

end Xv6.Strings
