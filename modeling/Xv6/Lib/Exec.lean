import Mathlib.Data.List.Basic

/-!
# Stateful computations that may stop

A computation reads and changes a state and either returns a value or stops for
a reason. Unlike an exception, stopping keeps the state that was reached: what
a machine leaves behind when it stops is part of its behaviour.

The weakest precondition `wp x Q S` asks for `Q` when the computation returns
and for `S` when it stops. The rules below take a program apart statement by
statement; `wp_each` is the rule for a loop over a list.
-/

namespace Xv6.Lib

/-- The end of a computation. -/
inductive Outcome (ε σ α : Type) : Type
  | ok (a : α) (s : σ)
  | stop (e : ε) (s : σ)

/-- The state that a computation leaves, whether it returned or stopped. -/
def Outcome.state {ε σ α : Type} : Outcome ε σ α → σ
  | ok _ s => s
  | stop _ s => s

/-- The reason for which a computation stopped, if it did. -/
def Outcome.reason {ε σ α : Type} : Outcome ε σ α → Option ε
  | ok _ _ => none
  | stop e _ => some e

/-- A computation on states `σ` that returns an `α` or stops with an `ε`. -/
def Exec (ε σ α : Type) : Type := σ → Outcome ε σ α

namespace Exec

variable {ε σ α β : Type}

instance : Monad (Exec ε σ) where
  pure a := fun s => .ok a s
  bind x f := fun s =>
    match x s with
    | .ok a s' => f a s'
    | .stop e s' => .stop e s'

/-- The current state. -/
def get : Exec ε σ σ := fun s => .ok s s

/-- Change the state. -/
def modify (f : σ → σ) : Exec ε σ Unit := fun s => .ok () (f s)

/-- Stop. -/
def stop (e : ε) : Exec ε σ α := fun s => .stop e s

/-- Stop if the condition holds. -/
def stopIf (p : Prop) [Decidable p] (e : ε) : Exec ε σ Unit := if p then stop e else pure ()

/-- Run `f` on every element of a list in turn. -/
def each (f : β → Exec ε σ Unit) : List β → Exec ε σ Unit
  | [] => pure ()
  | x :: xs => do
    f x
    each f xs

/-- Run a computation on a part of the state. -/
def zoom {τ : Type} (part : σ → τ) (put : σ → τ → σ) (x : Exec ε τ α) : Exec ε σ α := fun s =>
  match x (part s) with
  | .ok a t => .ok a (put s t)
  | .stop e t => .stop e (put s t)

/-- The weakest precondition of `x` for `Q` on return and `S` on stopping. -/
def wp (x : Exec ε σ α) (Q : α → σ → Prop) (S : ε → σ → Prop) (s : σ) : Prop :=
  match x s with
  | .ok a s' => Q a s'
  | .stop e s' => S e s'

instance (x : Exec ε σ α) (Q : α → σ → Prop) (S : ε → σ → Prop) [∀ a s, Decidable (Q a s)]
    [∀ e s, Decidable (S e s)] (s : σ) : Decidable (wp x Q S s) :=
  show Decidable (match x s with | .ok a s' => Q a s' | .stop e s' => S e s') from
    match x s with
    | .ok a s' => inferInstanceAs (Decidable (Q a s'))
    | .stop e s' => inferInstanceAs (Decidable (S e s'))

variable {x : Exec ε σ α} {Q Q' : α → σ → Prop} {S S' : ε → σ → Prop} {s : σ}

lemma wp_pure (a : α) : wp (pure a : Exec ε σ α) Q S s ↔ Q a s := Iff.rfl

variable {f : α → Exec ε σ β}

lemma wp_bind {R : β → σ → Prop} : wp (x >>= f) R S s ↔ wp x (fun a => wp (f a) R S) S s := by
  simp only [wp, bind]
  cases x s <;> rfl

lemma wp_get {R : σ → σ → Prop} : wp (get : Exec ε σ σ) R S s ↔ R s s := Iff.rfl

variable {R : Unit → σ → Prop} {s' : σ}

lemma wp_modify {f : σ → σ} : wp (modify f : Exec ε σ Unit) R S s ↔ R () (f s) := Iff.rfl

lemma wp_stop (e : ε) : wp (stop e : Exec ε σ α) Q S s ↔ S e s := Iff.rfl

lemma wp_stopIf {p : Prop} [Decidable p] {e : ε} :
    wp (stopIf p e) R S s ↔ (p → S e s) ∧ (¬ p → R () s) := by
  unfold stopIf
  split
  · simp [wp_stop, *]
  · simp [wp_pure, *]

lemma wp_zoom {τ : Type} {part : σ → τ} {put : σ → τ → σ} {y : Exec ε τ α} :
    wp (zoom part put y) Q S s ↔
      wp y (fun a t => Q a (put s t)) (fun e t => S e (put s t)) (part s) := by
  simp only [wp, zoom]
  cases y (part s) <;> rfl

lemma wp_iff : wp x Q S s ↔
    (∀ a s', x s = .ok a s' → Q a s') ∧ ∀ e s', x s = .stop e s' → S e s' := by
  unfold wp
  cases x s <;> simp

lemma wp_run (hQ : ∀ a s', x s = .ok a s' → Q a s') (hS : ∀ e s', x s = .stop e s' → S e s') :
    wp x Q S s := wp_iff.mpr ⟨hQ, hS⟩

section
variable (h : wp x Q S s)
include h

lemma wp_mono (hQ : ∀ a s', Q a s' → Q' a s') (hS : ∀ e s', S e s' → S' e s') : wp x Q' S' s :=
  wp_run (fun a s' hx => hQ a s' ((wp_iff.mp h).1 a s' hx))
    fun e s' hx => hS e s' ((wp_iff.mp h).2 e s' hx)

lemma wp_post (hQ : ∀ a s', Q a s' → Q' a s') : wp x Q' S s := wp_mono h hQ fun _ _ hstop => hstop

lemma wp_ok {a : α} (hx : x s = .ok a s') : Q a s' := (wp_iff.mp h).1 a s' hx

/-- No computation ends in two ways that exclude each other. -/
lemma wp_absurd (h' : wp x Q' S' s) (hQ : ∀ a s', Q a s' → ¬ Q' a s')
    (hS : ∀ e s', S e s' → ¬ S' e s') : False := by
  cases hx : x s with
  | ok a s' => exact hQ a s' (wp_ok h hx) (wp_ok h' hx)
  | stop e s' => exact hS e s' ((wp_iff.mp h).2 e s' hx) ((wp_iff.mp h').2 e s' hx)

end

lemma wp_seq {f : α → Exec ε σ β} {R : β → σ → Prop} (h : wp x Q S s)
    (hf : ∀ a s', Q a s' → wp (f a) R S s') : wp (x >>= f) R S s := wp_bind.mpr (wp_post h hf)

/-- A computation that cannot stop returns. -/
lemma wp_exists (h : wp x Q (fun _ _ => False) s) : ∃ a s', x s = .ok a s' ∧ Q a s' := by
  cases hx : x s with
  | ok a s' => exact ⟨a, s', rfl, wp_ok h hx⟩
  | stop e s' => exact ((wp_iff.mp h).2 e s' hx).elim

lemma wp_of_ok {a : α} (hx : x s = .ok a s') (hQ : Q a s') : wp x Q S s := by
  rwa [wp, hx]

lemma bind_ok {a : α} (hx : x s = .ok a s') : (x >>= f) s = f a s' := by
  simp only [bind, hx]

/-- `y` returns whatever `x` returns. -/
def Refines (x y : Exec ε σ α) : Prop := ∀ s a s', x s = .ok a s' → y s = .ok a s'

lemma Refines.refl : Refines x x := fun _ _ _ => id

lemma Refines.bind {y : Exec ε σ α} {f g : α → Exec ε σ β} (hx : Refines x y)
    (hf : ∀ a, Refines (f a) (g a)) : Refines (x >>= f) (y >>= g) := by
  intro s b s' h
  simp only [Bind.bind] at h ⊢
  cases hxs : x s with
  | ok a s₁ =>
    rw [hxs] at h
    rw [hx s a s₁ hxs]
    exact hf a s₁ b s' h
  | stop e s₁ =>
    rw [hxs] at h
    cases h

lemma wp_state {I : σ → Prop} (h : wp x (fun _ => I) (fun _ => I) s) : I (x s).state := by
  unfold wp at h
  cases hx : x s with
  | ok a s' | stop e s' => rwa [hx] at h

lemma wp_each_append (f : β → Exec ε σ Unit) (xs ys : List β) :
    wp (each f (xs ++ ys)) R S s ↔ wp (each f xs) (fun _ => wp (each f ys) R S) S s := by
  induction xs generalizing s with
  | nil => rfl
  | cons x xs ih =>
    simp only [List.cons_append, each, wp_bind]
    constructor
    · exact fun h => wp_mono h (fun _ _ h' => ih.mp h') fun _ _ h' => h'
    · exact fun h => wp_mono h (fun _ _ h' => ih.mpr h') fun _ _ h' => h'

lemma wp_each (f : β → Exec ε σ Unit) (I : List β → σ → Prop) (xs : List β)
    (hstep : ∀ done x rest, xs = done ++ x :: rest → ∀ s, I done s →
      wp (f x) (fun _ => I (done ++ [x])) S s) (hs : I [] s) :
    wp (each f xs) (fun _ => I xs) S s := by
  have hfrom : ∀ rest done s, xs = done ++ rest → I done s →
      wp (each f rest) (fun _ => I xs) S s := by
    intro rest
    induction rest with
    | nil =>
      intro done s hxs hI
      rw [hxs, List.append_nil]
      exact (wp_pure ()).mpr hI
    | cons x rest ih =>
      intro done s hxs hI
      refine wp_bind.mpr (wp_mono (hstep done x rest hxs s hI) ?_ fun _ _ h => h)
      intro _ s' hI'
      exact ih (done ++ [x]) s' (by rw [hxs, List.append_assoc]; rfl) hI'
  exact hfrom xs [] s rfl hs

end Exec
end Xv6.Lib
