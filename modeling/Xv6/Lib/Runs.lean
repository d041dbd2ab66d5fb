import Mathlib.Logic.Relation

/-!
# Runs of a machine

A machine has a partial step function; the second argument says who moves and
how. A run may be restricted to steps that meet a condition on the state before
the step and on the choice made there.
-/

namespace Xv6.Lib

variable {σ κ : Type}

lemma of_guard {c : Prop} [Decidable c] {s s' : σ} (h : (if c then some s else none) = some s') :
    c ∧ s = s' := by
  simpa using h

/-- One step that meets `ok`. -/
def Steps (step : σ → κ → Option σ) (ok : σ → κ → Prop) (s s' : σ) : Prop :=
  ∃ c, ok s c ∧ step s c = some s'

/-- The states that are reached by steps that meet `ok`. -/
def Reaches (step : σ → κ → Option σ) (ok : σ → κ → Prop) : σ → σ → Prop :=
  Relation.ReflTransGen (Steps step ok)

variable {step : σ → κ → Option σ} {ok : σ → κ → Prop} {s s' : σ}

lemma Reaches.mono {ok' : σ → κ → Prop} (hok : ∀ s c, ok s c → ok' s c)
    (h : Reaches step ok s s') : Reaches step ok' s s' := by
  induction h with
  | refl => exact Relation.ReflTransGen.refl
  | tail _ hlast ih =>
    obtain ⟨c, hc, hstep⟩ := hlast
    exact ih.tail ⟨c, hok _ c hc, hstep⟩

/-- What the steps preserve holds in every state that is reached. -/
lemma Reaches.invariant {I : σ → Prop}
    (hstep : ∀ s s' c, I s → ok s c → step s c = some s' → I s') (h : Reaches step ok s s')
    (hs : I s) : I s' := by
  induction h with
  | refl => exact hs
  | tail _ hlast ih =>
    obtain ⟨c, hok, hrun⟩ := hlast
    exact hstep _ _ c ih hok hrun

/-- The runs with what their steps show. -/
inductive Emits {ε : Type} (step : σ → κ → Option σ) (ok : σ → κ → Prop)
    (out : σ → κ → List ε) (s : σ) : List ε → σ → Prop
  | refl : Emits step ok out s [] s
  | tail {es : List ε} {s' s'' : σ} {c : κ} (h : Emits step ok out s es s') (hok : ok s' c)
      (hstep : step s' c = some s'') : Emits step ok out s (es ++ out s' c) s''

/-- Run a list of steps, each of which must meet `ok`. -/
def execAll (step : σ → κ → Option σ) (ok : σ → κ → Prop) [∀ s c, Decidable (ok s c)] (s : σ) :
    List κ → Option σ
  | [] => some s
  | c :: cs => if ok s c then (step s c).bind fun s' => execAll step ok s' cs else none

lemma reaches_of_execAll [∀ s c, Decidable (ok s c)] {cs : List κ}
    (h : execAll step ok s cs = some s') : Reaches step ok s s' := by
  induction cs generalizing s with
  | nil =>
    cases h
    exact Relation.ReflTransGen.refl
  | cons c cs ih =>
    unfold execAll at h
    split at h
    · rename_i hok
      obtain ⟨s₁, hstep, hrest⟩ := Option.bind_eq_some_iff.mp h
      exact (ih hrest).head ⟨c, hok, hstep⟩
    · cases h

lemma exists_of_execAll (step : σ → κ → Option σ) (ok : σ → κ → Prop)
    [∀ s c, Decidable (ok s c)] (s : σ) (cs : List κ) (P : σ → Prop) [DecidablePred P]
    (h : (execAll step ok s cs).any (fun s' => decide (P s')) = true) :
    ∃ s', Reaches step ok s s' ∧ P s' := by
  rcases hrun : execAll step ok s cs with _ | s'
  · rw [hrun] at h
    exact absurd h (by simp)
  rw [hrun] at h
  exact ⟨s', reaches_of_execAll hrun, of_decide_eq_true h⟩

/-- Run a list of steps and collect what they show. -/
def emitAll {ε : Type} (step : σ → κ → Option σ) (out : σ → κ → List ε) (s : σ) (es : List ε) :
    List κ → Option (List ε × σ)
  | [] => some (es, s)
  | c :: cs => (step s c).bind fun s' => emitAll step out s' (es ++ out s c) cs

lemma Emits.of_emitAll {ε : Type} {out : σ → κ → List ε} {s₀ : σ} {es es' : List ε}
    {cs : List κ} (hs : Emits step (fun _ _ => True) out s₀ es s)
    (h : emitAll step out s es cs = some (es', s')) :
    Emits step (fun _ _ => True) out s₀ es' s' := by
  induction cs generalizing s es with
  | nil =>
    obtain ⟨rfl, rfl⟩ := Prod.mk.inj (Option.some.inj h)
    exact hs
  | cons c cs ih =>
    obtain ⟨s₁, hstep, hrest⟩ := Option.bind_eq_some_iff.mp h
    exact ih (hs.tail trivial hstep) hrest

lemma exists_of_emitAll {ε : Type} (step : σ → κ → Option σ) (out : σ → κ → List ε) (s : σ)
    (cs : List κ) (P : List ε → Prop) [DecidablePred P]
    (h : (emitAll step out s [] cs).any (fun r => decide (P r.1)) = true) :
    ∃ es s', Emits step (fun _ _ => True) out s es s' ∧ P es := by
  rcases hrun : emitAll step out s [] cs with _ | r
  · rw [hrun] at h
    exact absurd h (by simp)
  rw [hrun] at h
  exact ⟨r.1, r.2, Emits.of_emitAll .refl hrun, of_decide_eq_true h⟩

end Xv6.Lib
