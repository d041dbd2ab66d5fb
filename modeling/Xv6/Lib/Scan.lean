import Mathlib.Order.Nat

/-!
# Scanning positions

`scan p e i` is where the loop `while (i < e && p(i)) i++` stops. The position
is characterised by three facts: it is not before `i`, every position passed
over satisfies `p`, and the loop stopped at the end `e` or because `p` fails.
-/

namespace Xv6.Lib

/-- At most `n` steps of the loop from position `i` on. -/
def scanFor (p : ℕ → Bool) : ℕ → ℕ → ℕ
  | 0, i => i
  | n + 1, i => if p i then scanFor p n (i + 1) else i

/-- The position at which `while (i < e && p(i)) i++` stops. -/
def scan (p : ℕ → Bool) (e i : ℕ) : ℕ := scanFor p (e - i) i

section
variable (p : ℕ → Bool)

lemma le_scanFor (n i : ℕ) : i ≤ scanFor p n i := by
  induction n generalizing i with
  | zero => exact le_rfl
  | succ n ih =>
    unfold scanFor
    split
    · exact (Nat.le_succ i).trans (ih (i + 1))
    · exact le_rfl

lemma scanFor_le (n i : ℕ) : scanFor p n i ≤ i + n := by
  induction n generalizing i with
  | zero => exact le_rfl
  | succ n ih =>
    unfold scanFor
    split
    · have := ih (i + 1)
      omega
    · omega

lemma of_lt_scanFor {n i j : ℕ} (hij : i ≤ j) (hj : j < scanFor p n i) : p j = true := by
  induction n generalizing i with
  | zero => exact absurd (hij.trans_lt hj) (lt_irrefl _)
  | succ n ih =>
    unfold scanFor at hj
    split at hj
    · obtain rfl | hlt := hij.eq_or_lt
      · assumption
      · exact ih hlt hj
    · omega

lemma scanFor_stops (n i : ℕ) : scanFor p n i = i + n ∨ p (scanFor p n i) = false := by
  induction n generalizing i with
  | zero => exact .inl rfl
  | succ n ih =>
    rcases hi : p i with _ | _
    · exact .inr (by simp [scanFor, hi])
    simp only [scanFor, hi, if_true]
    obtain h | h := ih (i + 1)
    · exact .inl (by omega)
    · exact .inr h

variable {p} {e i j : ℕ}

lemma le_scan : i ≤ scan p e i := le_scanFor p _ i

lemma scan_le (h : i ≤ e) : scan p e i ≤ e := by
  have := scanFor_le p (e - i) i
  unfold scan
  omega

lemma of_lt_scan (hij : i ≤ j) (hj : j < scan p e i) : p j = true := of_lt_scanFor p hij hj

lemma scan_stops (h : i ≤ e) : scan p e i = e ∨ p (scan p e i) = false := by
  obtain hs | hs := scanFor_stops p (e - i) i
  · exact .inl (by unfold scan; omega)
  · exact .inr hs

/-- A loop whose condition fails at once does not move. -/
lemma scan_of_not (h : p i = false) : scan p e i = i := by
  unfold scan
  cases e - i with
  | zero => rfl
  | succ n => simp [scanFor, h]

lemma scan_end : scan p e e = e := by simp [scan, scanFor]

lemma lt_scan (hi : i < e) (h : p i = true) : i < scan p e i := by
  obtain ⟨n, hn⟩ : ∃ n, e - i = n + 1 := ⟨e - i - 1, by omega⟩
  have := le_scanFor p n (i + 1)
  simp only [scan, hn, scanFor, h, if_true]
  omega

lemma scan_eq (hij : i ≤ j) (hje : j ≤ e) (h : ∀ k, i ≤ k → k < j → p k = true)
    (hj : p j = false) : scan p e i = j := by
  apply le_antisymm
  · by_contra hlt
    rw [of_lt_scan hij (not_le.mp hlt)] at hj
    cases hj
  by_contra hlt
  have hlt := not_le.mp hlt
  obtain hs | hs := scan_stops (p := p) (hij.trans hje)
  · exact absurd (hs ▸ hlt) (not_lt.mpr hje)
  rw [h _ le_scan hlt] at hs
  cases hs

/-- Scanning twice is scanning once. -/
lemma scan_scan (h : i ≤ e) : scan p e (scan p e i) = scan p e i := by
  obtain hs | hs := scan_stops (p := p) h
  · rw [hs, scan_end]
  · exact scan_of_not hs

end
end Xv6.Lib
