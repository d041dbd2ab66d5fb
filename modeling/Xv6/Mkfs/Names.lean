import Mathlib.Data.List.TakeWhile
import Xv6.Mkfs.Reader

/-!
# Names of directory entries

A name in a buffer of `DIRSIZ` bytes ends at the first zero, or at the end of
the buffer. `strncmp` compares what the buffers hold in this sense, and
`skipelem` and `strncpy` store the first `DIRSIZ` bytes of a name.
-/

namespace Xv6.Mkfs
open Fs List

/-- The C string in the first `n` bytes of a buffer. -/
def cstr (n : ℕ) (p : List UInt8) : List UInt8 := (p.take n).takeWhile (· ≠ 0)

lemma cstr_zero (p : List UInt8) : cstr 0 p = [] := by
  simp [cstr]

variable {n : ℕ} {p s elem : List UInt8}

lemma cstr_succ_of_head (h : p.headD 0 ≠ 0) : cstr (n + 1) p = p.headD 0 :: cstr n p.tail := by
  rcases p with _ | ⟨a, p⟩
  · exact absurd rfl h
  have ha : a ≠ 0 := h
  simp [cstr, ha]

lemma cstr_succ_of_zero (h : p.headD 0 = 0) : cstr (n + 1) p = [] := by
  rcases p with _ | ⟨a, p⟩
  · simp [cstr]
  obtain rfl : a = 0 := h
  simp [cstr]

lemma strncmp_eq_zero {q : List UInt8} : strncmp n p q = 0 ↔ cstr n p = cstr n q := by
  induction n generalizing p q with
  | zero => simp [strncmp, cstr_zero]
  | succ n ih =>
    rw [strncmp]
    split_ifs with h
    · rw [ih, cstr_succ_of_head h.1, cstr_succ_of_head (h.2 ▸ h.1), h.2]
      simp
    have hsub : ((p.headD 0).toNat : ℤ) - (q.headD 0).toNat = 0 ↔ p.headD 0 = q.headD 0 := by
      rw [← UInt8.toNat_inj]
      omega
    rw [hsub]
    obtain hp | hp := eq_or_ne (p.headD 0) 0
    · obtain hq | hq := eq_or_ne (q.headD 0) 0
      · rw [cstr_succ_of_zero hp, cstr_succ_of_zero hq, hp, hq]
        exact iff_of_true rfl rfl
      · rw [cstr_succ_of_zero hp, cstr_succ_of_head hq, hp]
        exact iff_of_false hq.symm (cons_ne_nil _ _).symm
    have hne : p.headD 0 ≠ q.headD 0 := fun heq => h ⟨hp, heq⟩
    obtain hq | hq := eq_or_ne (q.headD 0) 0
    · rw [cstr_succ_of_zero hq, cstr_succ_of_head hp]
      exact iff_of_false hne (cons_ne_nil _ _)
    · rw [cstr_succ_of_head hp, cstr_succ_of_head hq]
      exact iff_of_false hne fun heq => hne (List.cons.inj heq).1

/-- A string without zeroes in a buffer with room for it. -/
lemma cstr_append_zero {rest : List UInt8} (hs : 0 ∉ s) (hn : s.length < n) :
    cstr n (s ++ 0 :: rest) = s := by
  obtain ⟨m, rfl⟩ : ∃ m, n = s.length + (m + 1) := ⟨n - s.length - 1, by omega⟩
  rw [cstr, take_length_add_append, take_succ_cons, takeWhile_append_of_pos]
  · simp
  intro a ha
  have hne : a ≠ 0 := fun h => hs (h ▸ ha)
  simpa using hne

lemma cstr_of_notMem (hs : 0 ∉ s) : cstr n s = s.take n := by
  rw [cstr, takeWhile_eq_self_iff]
  intro a ha
  have hne : a ≠ 0 := fun h => hs (h ▸ mem_of_mem_take ha)
  simpa using hne

lemma ofFn_strncpy (s : List UInt8) :
    List.ofFn (strncpy s) = s.take DIRSIZ ++ List.replicate (DIRSIZ - s.length) 0 := by
  apply ext_getElem
  · rw [length_ofFn, length_append, length_take, length_replicate]
    omega
  intro k hk _
  rw [length_ofFn] at hk
  rw [List.getElem_ofFn, List.getElem_append]
  simp only [strncpy, getD_eq_getElem?_getD]
  split_ifs with hlt
  · rw [length_take] at hlt
    rw [getElem_take, getElem?_eq_getElem (by omega), Option.getD_some]
  · rw [length_take] at hlt
    rw [getElem_replicate, getElem?_eq_none (by omega), Option.getD_none]

lemma cstr_strncpy (hs : 0 ∉ s) : cstr DIRSIZ (List.ofFn (strncpy s)) = s.take DIRSIZ := by
  rw [ofFn_strncpy]
  obtain hshort | hlong := Nat.lt_or_ge s.length DIRSIZ
  · obtain ⟨m, hm⟩ : ∃ m, DIRSIZ - s.length = m + 1 := ⟨DIRSIZ - s.length - 1, by omega⟩
    rw [hm, replicate_succ, take_of_length_le (Nat.le_of_lt hshort), cstr_append_zero hs hshort]
  · rw [Nat.sub_eq_zero_of_le hlong, replicate_zero, append_nil,
      cstr_of_notMem fun h => hs (mem_of_mem_take h), take_take, Nat.min_self]

/-- The buffer `name` behind `skipelem`. -/
def elemBuffer (elem name : List UInt8) : List UInt8 :=
  if DIRSIZ ≤ elem.length then elem.take DIRSIZ else elem ++ 0 :: name.drop (elem.length + 1)

lemma cstr_elemBuffer (h : 0 ∉ elem) (name : List UInt8) :
    cstr DIRSIZ (elemBuffer elem name) = elem.take DIRSIZ := by
  unfold elemBuffer
  split_ifs with hlong
  · rw [cstr_of_notMem fun h' => h (mem_of_mem_take h'), take_take, Nat.min_self]
  · have hshort := Nat.lt_of_not_le hlong
    rw [cstr_append_zero h hshort, take_of_length_le (Nat.le_of_lt hshort)]

lemma skipelem_single (hne : elem ≠ []) (hslash : slash ∉ elem) (k : ℕ) (name : List UInt8) :
    skipelem (List.replicate k slash ++ elem) name = some ([], elemBuffer elem name) := by
  have hall : ∀ a ∈ elem, decide (a ≠ slash) = true := by
    intro a ha
    have : a ≠ slash := fun h => hslash (h ▸ ha)
    simpa using this
  have hdrop : (List.replicate k slash ++ elem).dropWhile (· = slash) = elem := by
    rw [dropWhile_append_of_pos (by simp)]
    cases elem with
    | nil => rfl
    | cons a elem => exact dropWhile_cons_of_neg (by simpa using hall a mem_cons_self)
  have htake : elem.takeWhile (· ≠ slash) = elem := takeWhile_eq_self_iff.mpr hall
  have hrest : elem.dropWhile (· ≠ slash) = [] := dropWhile_eq_nil_iff.mpr hall
  simp only [skipelem, hdrop, if_neg hne, htake, hrest, elemBuffer, dropWhile_nil]

lemma skipelem_nil (name : List UInt8) : skipelem [] name = none := rfl

end Xv6.Mkfs
