import Mathlib.Data.List.Chain
import Mathlib.Data.List.Nodup

/-!
# Circular singly linked lists

`next` is the pointer of every node. A list of nodes is linked if each of them
points to the one behind it, and a circle is a linked list whose last node
points to the first one. A circle may be entered at any of its nodes
(`Circle.rotate`), a loop along the pointers finds a node of it
(`Circle.walkTo_eq`), and assignments to a few pointers replace a part of it
(`Circle.relink`).
-/

namespace Xv6.Lib
open List

variable {ν : Type}

/-- Every node points to the one behind it in the list. -/
def Linked (next : ν → ν) (l : List ν) : Prop := l.IsChain fun x y => next x = y

/-- The nodes `a` and `r` form a circle, in this order. -/
structure Circle (next : ν → ν) (a : ν) (r : List ν) : Prop where
  linked : Linked next (a :: (r ++ [a]))
  nodup : (a :: r).Nodup

variable {next next' : ν → ν} {a b x y z : ν} {l l' r r' : List ν}

lemma linked_append_cons :
    Linked next (l ++ x :: l') ↔ Linked next (l ++ [x]) ∧ Linked next (x :: l') :=
  isChain_split

lemma linked_cons_cons : Linked next (x :: y :: l) ↔ next x = y ∧ Linked next (y :: l) :=
  isChain_cons_cons

lemma linked_singleton : Linked next [x] := isChain_singleton x

lemma Linked.next_eq (h : Linked next (l ++ x :: y :: l')) : next x = y :=
  (linked_cons_cons.mp (linked_append_cons.mp h).2).1

/-- A linked list depends on the pointers of its nodes but the last. -/
lemma Linked.congr (h : Linked next (l ++ [z])) (hnext : ∀ x ∈ l, next' x = next x) :
    Linked next' (l ++ [z]) := by
  induction l with
  | nil => exact linked_singleton
  | cons x l ih =>
    have htail := ih (isChain_of_isChain_cons h) fun y hy => hnext y (by simp [hy])
    cases l with
    | nil | cons y l =>
      refine linked_cons_cons.mpr ⟨?_, htail⟩
      rw [hnext x (by simp)]
      exact (linked_cons_cons.mp h).1

/-- In an ascending linked list a node is the last one or points to the least node above it. -/
lemma Linked.next_cases [Preorder ν] (h : Linked next (l ++ [z])) (hl : l.Pairwise (· < ·))
    (hx : x ∈ l) : (next x = z ∧ ∀ y ∈ l, y ≤ x) ∨
      (next x ∈ l ∧ x < next x ∧ ∀ y ∈ l, y ≤ x ∨ next x ≤ y) := by
  induction l with
  | nil => cases hx
  | cons w l ih =>
    obtain ⟨hw, htail⟩ := pairwise_cons.mp hl
    obtain rfl | hmem := mem_cons.mp hx
    · rcases l with _ | ⟨y, l⟩
      · exact .inl ⟨(linked_cons_cons.mp h).1, by simp⟩
      have hnext : next x = y := (linked_cons_cons.mp h).1
      refine .inr ⟨by simp [hnext], hnext ▸ hw y (by simp), fun v hv => ?_⟩
      obtain rfl | hv := mem_cons.mp hv
      · exact .inl le_rfl
      obtain rfl | hv := mem_cons.mp hv
      · exact .inr hnext.le
      · exact .inr (hnext ▸ ((pairwise_cons.mp htail).1 v hv).le)
    have hlast : ∀ y ∈ w :: l, y = w ∨ y ∈ l := fun y hy => mem_cons.mp hy
    obtain ⟨hz, hall⟩ | ⟨hin, hlt, hgap⟩ := ih (isChain_of_isChain_cons h) htail hmem
    · refine .inl ⟨hz, fun y hy => ?_⟩
      obtain rfl | hy := hlast y hy
      · exact (hw x hmem).le
      · exact hall y hy
    refine .inr ⟨mem_cons_of_mem _ hin, hlt, fun y hy => ?_⟩
    obtain rfl | hy := hlast y hy
    · exact .inl (hw x hmem).le
    · exact hgap y hy

namespace Circle

lemma rotate (h : Circle next a (r ++ b :: r')) : Circle next b (r' ++ a :: r) := by
  have hlinked := h.linked
  rw [show a :: (r ++ b :: r' ++ [a]) = (a :: r) ++ b :: (r' ++ [a]) by simp] at hlinked
  obtain ⟨hfront, hback⟩ := linked_append_cons.mp hlinked
  refine ⟨?_, ?_⟩
  · rw [show b :: (r' ++ a :: r ++ [b]) = (b :: r') ++ a :: (r ++ [b]) by simp]
    exact linked_append_cons.mpr ⟨by simpa using hback, by simpa using hfront⟩
  have hperm : (b :: (r' ++ a :: r)).Perm (a :: (r ++ b :: r')) := by
    calc b :: (r' ++ a :: r) = (b :: r') ++ (a :: r) := by simp
      _ |>.Perm ((a :: r) ++ (b :: r')) := perm_append_comm
      _ = a :: (r ++ b :: r') := by simp
  exact hperm.nodup_iff.mpr h.nodup

lemma at_mem (h : Circle next a r) (hb : b ∈ a :: r) :
    ∃ r', Circle next b r' ∧ (∀ x, x ∈ b :: r' ↔ x ∈ a :: r) ∧ r'.length = r.length := by
  obtain rfl | hb := mem_cons.mp hb
  · exact ⟨r, h, fun _ => Iff.rfl, rfl⟩
  obtain ⟨r₁, r₂, rfl⟩ := append_of_mem hb
  refine ⟨r₂ ++ a :: r₁, h.rotate, fun x => ?_, ?_⟩
  · simp only [mem_cons, mem_append]
    tauto
  · simp only [length_append, length_cons]
    omega

lemma congr (h : Circle next a r) (hnext : ∀ x ∈ a :: r, next' x = next x) :
    Circle next' a r := ⟨Linked.congr h.linked hnext, h.nodup⟩

lemma relink {pre mid mid' post : List ν} {h : ν} (hcircle : Circle next a r)
    (hr : a :: r = pre ++ x :: (mid ++ post)) (hr' : a :: r' = pre ++ x :: (mid' ++ post))
    (hnext : ∀ y ∈ pre ++ post, next' y = next y) (hhead : (post ++ [a]).head? = some h)
    (hmid : Linked next' (x :: (mid' ++ [h]))) (hnodup : (a :: r').Nodup) : Circle next' a r' := by
  refine ⟨?_, hnodup⟩
  have hold := hcircle.linked
  rw [← cons_append, hr, append_assoc, cons_append, append_assoc] at hold
  obtain ⟨hpre, hrest⟩ := linked_append_cons.mp hold
  have hpost : Linked next (post ++ [a]) := by
    rw [← cons_append] at hrest
    exact List.IsChain.right_of_append hrest
  have hpre' : Linked next' (pre ++ [x]) := hpre.congr fun y hy => hnext y (mem_append_left _ hy)
  have hpost' : Linked next' (post ++ [a]) :=
    hpost.congr fun y hy => hnext y (mem_append_right _ hy)
  rw [← cons_append, hr', append_assoc, cons_append, append_assoc]
  refine linked_append_cons.mpr ⟨hpre', ?_⟩
  obtain ⟨tail, htail⟩ := head?_eq_some_iff.mp hhead
  rw [htail] at hpost' ⊢
  rw [← cons_append]
  exact linked_append_cons.mpr ⟨by simpa using hmid, hpost'⟩

end Circle

/-! ## Loops along the pointers -/

/-- Follow the pointers up to the first node where `stop` holds. -/
def walkTo (next : ν → ν) (stop : ν → Bool) : ℕ → ν → Option ν
  | 0, _ => none
  | n + 1, x => if stop x then some x else walkTo next stop n (next x)

variable {stop : ν → Bool}

lemma walkTo_eq_find {n : ℕ} (h : Linked next (x :: l))
    (hfind : (x :: l).find? stop = some y) (hn : (x :: l).length ≤ n) :
    walkTo next stop n x = some y := by
  induction n generalizing x l with
  | zero => simp at hn
  | succ n ih =>
    cases hx : stop x with
    | true =>
      rw [find?_cons, hx] at hfind
      simpa [walkTo, hx] using hfind
    | false =>
      rw [find?_cons, hx] at hfind
      rcases l with _ | ⟨z, l⟩
      · cases hfind
      obtain ⟨hnext, hl⟩ := linked_cons_cons.mp h
      simp only [walkTo, hx, hnext]
      exact ih hl hfind (by simpa using hn)

/-- A loop along a circle finds the only node at which it stops. -/
lemma Circle.walkTo_eq {n : ℕ} (h : Circle next a r) (hb : b ∈ a :: r)
    (hx : x ∈ a :: r) (hstop : stop x = true) (huniq : ∀ y ∈ a :: r, stop y = true → y = x)
    (hn : (a :: r).length ≤ n) : walkTo next stop n b = some x := by
  obtain ⟨r', hcircle, hmem, hlen⟩ := h.at_mem hb
  have hlinked : Linked next (b :: r') := List.IsChain.left_of_append
    (by simpa using hcircle.linked : Linked next (b :: r' ++ [b]))
  refine walkTo_eq_find hlinked ?_ (by simpa [hlen] using hn)
  cases hfind : (b :: r').find? stop with
  | none => exact absurd hstop (find?_eq_none.mp hfind x ((hmem x).mpr hx))
  | some y =>
    rw [huniq y ((hmem y).mp (mem_of_find?_eq_some hfind)) (find?_some hfind)]

end Xv6.Lib
