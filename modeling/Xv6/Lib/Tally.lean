import Mathlib.Algebra.BigOperators.Ring.Finset
import Mathlib.Algebra.Order.BigOperators.Group.Finset

/-!
# Sums over a table

A tally adds up a weight of the rows of a table. When one row changes, the tally
changes by the difference of the weights of that row.
-/

namespace Xv6.Lib
open Function Finset

variable {ι α : Type}

/-- The weights of the rows in `S`. -/
def tally (S : Finset ι) (w : α → ℕ) (f : ι → α) : ℕ := ∑ a ∈ S, w (f a)

variable {S : Finset ι} {w : α → ℕ} {f : ι → α} {a b : ι} {x y : α}

lemma tally_update [DecidableEq ι] (ha : a ∈ S) :
    tally S w (update f a x) + w (f a) = tally S w f + w x := by
  have hpoint : ∀ c, w (update f a x c) = update (fun c => w (f c)) a (w x) c := by
    intro c
    by_cases hc : c = a
    · subst hc
      simp
    · simp [hc]
  unfold tally
  rw [sum_congr rfl fun c _ => hpoint c, sum_update_of_mem ha,
    ← add_sum_erase _ _ ha, sdiff_singleton_eq_erase]
  omega

lemma tally_update_two [DecidableEq ι] (ha : a ∈ S) (hb : b ∈ S) (hab : b ≠ a) :
    tally S w (update (update f a x) b y) + w (f a) + w (f b) = tally S w f + w x + w y := by
  have h1 := tally_update (f := update f a x) (w := w) (x := y) hb
  have h2 := tally_update (f := f) (w := w) (x := x) ha
  rw [update_of_ne hab] at h1
  omega

lemma le_tally (ha : a ∈ S) : w (f a) ≤ tally S w f :=
  single_le_sum (f := fun a => w (f a)) (fun _ _ => Nat.zero_le _) ha

lemma add_le_tally [DecidableEq ι] (ha : a ∈ S) (hb : b ∈ S) (hab : a ≠ b) :
    w (f a) + w (f b) ≤ tally S w f := by
  rw [← sum_pair (f := fun a => w (f a)) hab]
  refine sum_le_sum_of_subset ?_
  intro c hc
  rcases mem_insert.mp hc with rfl | hc
  · exact ha
  rw [mem_singleton.mp hc]
  exact hb

lemma tally_eq_zero_iff : tally S w f = 0 ↔ ∀ a ∈ S, w (f a) = 0 := sum_eq_zero_iff

lemma tally_pos_iff : 0 < tally S w f ↔ ∃ a ∈ S, 0 < w (f a) := by
  rw [Nat.pos_iff_ne_zero, Ne, tally_eq_zero_iff]
  simp [Nat.pos_iff_ne_zero]

lemma tally_ite_pos_iff {P : α → Prop} [DecidablePred P] :
    0 < tally S (fun x => if P x then 1 else 0) f ↔ ∃ a ∈ S, P (f a) := by
  rw [tally_pos_iff]
  refine exists_congr fun a => and_congr_right fun _ => ?_
  by_cases h : P (f a) <;> simp [h]

variable {w' : α → ℕ}

lemma tally_le_mul {c : ℕ} (h : ∀ x, w x ≤ c * w' x) :
    tally S w f ≤ c * tally S w' f := by
  unfold tally
  rw [mul_sum]
  exact sum_le_sum fun a _ => h (f a)

lemma tally_add : tally S (fun x => w x + w' x) f = tally S w f + tally S w' f :=
  sum_add_distrib

end Xv6.Lib
