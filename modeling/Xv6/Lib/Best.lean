import Mathlib.Order.Defs.Unbundled

/-!
# Loops that keep the best entry seen so far

A loop of this shape starts with a key to beat and a default tag. Every eligible
entry whose key is better than the current one replaces key and tag.
-/

namespace Xv6.Lib

variable {α κ β : Type*}

/-- One iteration: `acc` holds the best key so far and the tag of its entry. -/
def bestStep (eligible : α → Prop) [DecidablePred eligible] (key : α → κ)
    (better : κ → κ → Prop) [DecidableRel better] (tag : α → β) (acc : κ × β) (a : α) : κ × β :=
  if eligible a then if better (key a) acc.1 then (key a, tag a) else acc else acc

variable (eligible : α → Prop) [DecidablePred eligible] (key : α → κ)
  (better : κ → κ → Prop) [DecidableRel better] (tag : α → β)

/-- The loop ends with its start value exactly when nothing beats that, and otherwise with
the first of the best eligible entries. -/
lemma foldl_bestStep_first [IsStrictTotalOrder κ better] (l : List α) (acc : κ × β) :
    (l.foldl (bestStep eligible key better tag) acc = acc ∧
      ∀ a ∈ l, eligible a → ¬ better (key a) acc.1) ∨
    ∃ l₁ a l₂, l = l₁ ++ a :: l₂ ∧ eligible a ∧ better (key a) acc.1 ∧
      l.foldl (bestStep eligible key better tag) acc = (key a, tag a) ∧
      (∀ b ∈ l₁, eligible b → better (key a) (key b)) ∧
      ∀ b ∈ l₂, eligible b → ¬ better (key b) (key a) := by
  induction l generalizing acc with
  | nil => exact Or.inl ⟨rfl, by simp⟩
  | cons a l ih =>
    rw [List.foldl_cons]
    by_cases ha : eligible a ∧ better (key a) acc.1
    · have hstep : bestStep eligible key better tag acc a = (key a, tag a) := by
        simp [bestStep, ha.1, ha.2]
      rw [hstep]
      right
      rcases ih (key a, tag a) with ⟨heq, hall⟩ | ⟨l₁, b, l₂, hl, hel, hbt, heq, hbefore, hafter⟩
      · exact ⟨[], a, l, rfl, ha.1, ha.2, heq, by simp, hall⟩
      refine ⟨a :: l₁, b, l₂, by rw [hl]; rfl, hel, IsTrans.trans _ _ _ hbt ha.2, heq, ?_, hafter⟩
      intro c hc hcel
      rcases List.mem_cons.mp hc with rfl | hc
      · exact hbt
      · exact hbefore c hc hcel
    have hstep : bestStep eligible key better tag acc a = acc := by
      unfold bestStep
      split
      · rename_i hel
        exact if_neg fun hbt => ha ⟨hel, hbt⟩
      · rfl
    rw [hstep]
    rcases ih acc with ⟨heq, hall⟩ | ⟨l₁, b, l₂, hl, hel, hbt, heq, hbefore, hafter⟩
    · refine Or.inl ⟨heq, fun b hb hel hbt => ?_⟩
      rcases List.mem_cons.mp hb with rfl | hb
      · exact ha ⟨hel, hbt⟩
      · exact hall b hb hel hbt
    refine Or.inr ⟨a :: l₁, b, l₂, by rw [hl]; rfl, hel, hbt, heq, ?_, hafter⟩
    intro c hc hcel
    rcases List.mem_cons.mp hc with rfl | hc
    · -- an entry that does not beat the start value is beaten by one that does
      apply Decidable.byContradiction
      intro hnot
      have hle : ¬ better (key c) (key b) := fun h => ha ⟨hcel, IsTrans.trans _ _ _ h hbt⟩
      have hkey : key b = key c := Std.Trichotomous.trichotomous _ _ hnot hle
      exact ha ⟨hcel, hkey ▸ hbt⟩
    · exact hbefore c hc hcel

end Xv6.Lib
