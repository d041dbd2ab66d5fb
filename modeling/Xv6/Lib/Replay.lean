import Mathlib.Data.List.Infix

/-!
# Traces of single writes

A store is a function, and a trace is a list of single writes to it. A crash
keeps the store that some first part of the trace has made, so a property that
has to survive a crash is one of all first parts. In a trace with reads, every
read of a plain store sees what the writes before it have made.
-/

namespace Xv6.Lib

variable {κ β : Type} [DecidableEq κ]

/-- The store after the writes of a trace. -/
def replay (ws : List (κ × β)) (d : κ → β) : κ → β :=
  ws.foldl (fun d w => Function.update d w.1 w.2) d

lemma replay_concat (ws : List (κ × β)) (d : κ → β) (k : κ) (x : β) :
    replay (ws ++ [(k, x)]) d = Function.update (replay ws d) k x := by
  simp [replay]

/-- The property holds of every first part of the trace. -/
def Throughout {ω : Type} (P : List ω → Prop) (ws : List ω) : Prop := ∀ vs, vs <+: ws → P vs

lemma throughout_nil {ω : Type} {P : List ω → Prop} (h : P []) : Throughout P [] := by
  intro vs hvs
  rw [List.prefix_nil.mp hvs]
  exact h

lemma Throughout.concat {ω : Type} {P : List ω → Prop} {ws : List ω} {w : ω}
    (h : Throughout P ws) (hw : P (ws ++ [w])) : Throughout P (ws ++ [w]) := by
  intro vs hvs
  rcases List.prefix_concat_iff.mp hvs with rfl | hvs
  · exact hw
  · exact h vs hvs

/-- A use of a store. -/
inductive Access (κ β : Type) where
  | read (k : κ) (x : β)
  | write (k : κ) (x : β)

/-- The writes of a trace. -/
def writes (es : List (Access κ β)) : List (κ × β) :=
  es.filterMap fun
    | .write k x => some (k, x)
    | .read _ _ => none

/-- The store after the writes of a trace of uses. -/
def stored (es : List (Access κ β)) (d : κ → β) : κ → β := replay (writes es) d

lemma stored_concat_read (es : List (Access κ β)) (d : κ → β) (k : κ) (x : β) :
    stored (es ++ [.read k x]) d = stored es d := by
  simp [stored, writes]

lemma stored_concat_write (es : List (Access κ β)) (d : κ → β) (k : κ) (x : β) :
    stored (es ++ [.write k x]) d = Function.update (stored es d) k x := by
  rw [stored, stored, ← replay_concat]
  simp [writes]

/-- The store is a plain one: every read sees what was last written there. -/
def ReadsLast (d : κ → β) (es : List (Access κ β)) : Prop :=
  ∀ vs k x, vs ++ [.read k x] <+: es → x = stored vs d k

lemma readsLast_nil (d : κ → β) : ReadsLast d [] := by
  intro vs k x h
  simp at h

variable {es : List (Access κ β)}

lemma ReadsLast.read {d : κ → β} {k : κ} {x : β}
    (h : ReadsLast d es) (hx : x = stored es d k) : ReadsLast d (es ++ [.read k x]) := by
  intro vs k' x' hvs
  rcases List.prefix_concat_iff.mp hvs with heq | hvs
  · obtain ⟨rfl, hlast⟩ := List.append_inj' heq rfl
    obtain ⟨rfl, rfl⟩ := Access.read.inj (List.singleton_inj.mp hlast)
    exact hx
  · exact h vs k' x' hvs

lemma ReadsLast.write {d : κ → β} (h : ReadsLast d es) (k : κ)
    (x : β) : ReadsLast d (es ++ [.write k x]) := by
  intro vs k' x' hvs
  rcases List.prefix_concat_iff.mp hvs with heq | hvs
  · obtain ⟨-, hlast⟩ := List.append_inj' heq rfl
    cases List.singleton_inj.mp hlast
  · exact h vs k' x' hvs

end Xv6.Lib
