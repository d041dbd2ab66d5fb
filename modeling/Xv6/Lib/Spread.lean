import Mathlib.Algebra.Order.BigOperators.Group.Finset
import Mathlib.Data.Fintype.Prod

/-!
# Multisets that are spread over places

The elements of a multiset are those that are in some place. If the multiset has no
element twice, no element is in two places. The rules follow the ways to put
multisets together, so that the places come from the structure of a sum.
-/

namespace Xv6.Lib
open Multiset

variable {ι κ α : Type} {R : ι → α → Prop} {M : Multiset α}

/-- The elements of `M` are those in the places of `R`. -/
structure Spread (R : ι → α → Prop) (M : Multiset α) : Prop where
  mem_iff : ∀ a, a ∈ M ↔ ∃ i, R i a
  unique : M.Nodup → ∀ i j a, R i a → R j a → i = j

namespace Spread

lemma mem (h : Spread R M) {i : ι} {a : α} (hi : R i a) : a ∈ M := (h.mem_iff a).mpr ⟨i, hi⟩

/-- One place for all of them. -/
lemma all (M : Multiset α) : Spread (fun (_ : Unit) a => a ∈ M) M where
  mem_iff _ := ⟨fun ha => ⟨(), ha⟩, fun ⟨_, ha⟩ => ha⟩
  unique _ _ _ _ _ _ := rfl

lemma singleton (a : α) : Spread (fun (_ : Unit) b => b = a) {a} where
  mem_iff b := by simp
  unique _ _ _ _ _ _ := rfl

lemma list (l : List α) : Spread (fun (n : ℕ) a => l[n]? = some a) (l : Multiset α) where
  mem_iff a := by
    rw [mem_coe]
    exact List.mem_iff_getElem?
  unique hl i j a hi hj := by
    have hi' := (List.getElem?_eq_some_iff.mp hi).1
    exact (List.getElem?_inj hi' (coe_nodup.mp hl)).mp (hi.trans hj.symm)

lemma sum [Fintype ι] [DecidableEq ι] {R : ι → κ → α → Prop} {M : ι → Multiset α}
    (h : ∀ i, Spread (R i) (M i)) : Spread (fun x : ι × κ => R x.1 x.2) (∑ i, M i) where
  mem_iff a := by simp [mem_sum, (h _).mem_iff]
  unique hnodup := by
    rintro ⟨i, k⟩ ⟨i', k'⟩ a hk hk'
    by_cases hi : i = i'
    · subst hi
      have hM : (M i).Nodup := nodup_of_le
        (Finset.single_le_sum (fun _ _ => zero_le _) (Finset.mem_univ i)) hnodup
      exact congrArg (Prod.mk i) ((h i).unique hM k k' a hk hk')
    -- the two summands have no element in common
    rw [← Finset.add_sum_erase Finset.univ M (Finset.mem_univ i)] at hnodup
    obtain ⟨-, -, hdisjoint⟩ := nodup_add.mp hnodup
    refine (disjoint_left.mp hdisjoint ((h i).mem hk) ?_).elim
    exact mem_sum.mpr ⟨i', Finset.mem_erase.mpr ⟨Ne.symm hi, Finset.mem_univ i'⟩, (h i').mem hk'⟩

section
variable (h : Spread R M)
include h

lemma existsUnique (hM : M.Nodup) {a : α} (ha : a ∈ M) : ∃! i, R i a := by
  obtain ⟨i, hi⟩ := (h.mem_iff a).mp ha
  exact ⟨i, hi, fun j hj => h.unique hM j i a hj hi⟩

variable {S : κ → α → Prop}

lemma add {N : Multiset α} (h' : Spread S N) :
    Spread (Sum.elim R S) (M + N) where
  mem_iff a := by simp [h.mem_iff, h'.mem_iff]
  unique hnodup i j a hi hj := by
    obtain ⟨hM, hN, hdisjoint⟩ := nodup_add.mp hnodup
    rcases i with i | i
    · cases j with
      | inl j => exact congrArg Sum.inl (h.unique hM i j a hi hj)
      | inr j => exact (disjoint_left.mp hdisjoint (h.mem hi) (h'.mem hj)).elim
    cases j with
    | inl j => exact (disjoint_left.mp hdisjoint (h.mem hj) (h'.mem hi)).elim
    | inr j => exact congrArg Sum.inr (h'.unique hN i j a hi hj)

lemma ite {c : Prop} [Decidable c] : Spread (fun i a => c ∧ R i a) (if c then M else 0) := by
  by_cases hc : c
  · simpa [hc] using h
  simp only [hc, if_false, false_and]
  exact ⟨by simp, fun _ _ _ _ hi => hi.elim⟩

lemma rename (φ : κ → ι) (hinj : Function.Injective φ)
    (hsurj : Function.Surjective φ) (hS : ∀ k a, S k a ↔ R (φ k) a) : Spread S M where
  mem_iff a := by
    rw [h.mem_iff, hsurj.exists]
    exact exists_congr fun k => (hS k a).symm
  unique hnodup i j a hi hj :=
    hinj (h.unique hnodup (φ i) (φ j) a ((hS i a).mp hi) ((hS j a).mp hj))

end
end Spread

end Xv6.Lib
