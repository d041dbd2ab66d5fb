import Xv6.Lib.Exec

/-!
# Programs over a signature of operations

A program is a tree of operations: each node performs one operation and goes on
with its result. The same program can be run by different interpretations of its
operations, to its end or interleaved with others.
-/

namespace Xv6.Lib

/-- Operations and the types of their results. -/
structure Signature where
  Op : Type
  Res : Op → Type

/-- A program that performs operations of `S` and returns an `α`. -/
inductive Prog (S : Signature) (α : Type) : Type
  | ret (a : α)
  | op (o : S.Op) (k : S.Res o → Prog S α)

namespace Prog

variable {S : Signature} {α β γ ε σ : Type}

/-- Go on with the result of a program. -/
def andThen : Prog S α → (α → Prog S β) → Prog S β
  | ret a, f => f a
  | op o k, f => op o fun r => (k r).andThen f

instance : Monad (Prog S) where
  pure := ret
  bind := andThen

/-- Perform one operation. -/
def perform (o : S.Op) : Prog S (S.Res o) := op o ret

lemma op_bind (o : S.Op) (k : S.Res o → Prog S α) (f : α → Prog S β) :
    (op o k >>= f) = op o fun r => k r >>= f := rfl

/-- Run a program to its end, given what its operations do. -/
def run (h : ∀ o, Exec ε σ (S.Res o)) : Prog S α → Exec ε σ α
  | ret a => pure a
  | op o k => h o >>= fun r => (k r).run h

lemma run_op (h : ∀ o, Exec ε σ (S.Res o)) (o : S.Op) (k : S.Res o → Prog S α) :
    (op o k).run h = h o >>= fun r => (k r).run h := rfl

variable {h : ∀ o, Exec ε σ (S.Res o)} {Q : α → σ → Prop} {E : ε → σ → Prop} {s : σ}

lemma wp_ret (a : α) : Exec.wp ((pure a : Prog S α).run h) Q E s ↔ Q a s := Iff.rfl

lemma wp_perform (o : S.Op) {R : S.Res o → σ → Prop} :
    Exec.wp ((perform o).run h) R E s ↔ Exec.wp (h o) R E s := by
  unfold perform
  rw [run_op, Exec.wp_bind]
  exact Iff.rfl

lemma wp_bind (x : Prog S α) (f : α → Prog S β) {R : β → σ → Prop} :
    Exec.wp ((x >>= f).run h) R E s ↔
      Exec.wp (x.run h) (fun a => Exec.wp ((f a).run h) R E) E s := by
  induction x generalizing s with
  | ret a => exact Iff.rfl
  | op o k ih =>
    rw [op_bind, run_op, run_op, Exec.wp_bind, Exec.wp_bind]
    constructor
    · exact fun hop => Exec.wp_mono hop (fun r s' hr => (ih r).mp hr) fun _ _ he => he
    · exact fun hop => Exec.wp_mono hop (fun r s' hr => (ih r).mpr hr) fun _ _ he => he

section Obeys
variable {η : Type} {w : ∀ o, η → (S.Res o → η → Prop) → Prop}

/-- The program keeps to a contract. The contract `w` says for each operation what has to hold
before it of the record `η` that is kept, so that the rest may go on with its results. -/
def Obeys (w : ∀ o, η → (S.Res o → η → Prop) → Prop) (Q : α → η → Prop) :
    Prog S α → η → Prop
  | ret a, e => Q a e
  | op o k, e => w o e fun r => (k r).Obeys w Q

lemma obeys_bind (x : Prog S α) (f : α → Prog S β) {R : β → η → Prop} :
    (x >>= f).Obeys w R = x.Obeys w fun a => (f a).Obeys w R := by
  induction x with
  | ret a => rfl
  | op o k ih =>
    ext e
    rw [op_bind, Obeys, Obeys]
    simp only [ih]

/-- The first `n` operations of a program. -/
def cut : ℕ → Prog S α → Prog S Unit
  | 0, _ => ret ()
  | _ + 1, ret _ => ret ()
  | n + 1, op o k => op o fun r => (k r).cut n

section Contract
variable {I : η → σ → Prop} {Q Q' : α → η → Prop} {x : Prog S α} {e : η}

lemma Obeys.cut (hmono : ∀ o e (R R' : S.Res o → η → Prop), (∀ r e, R r e → R' r e) →
    w o e R → w o e R') (hx : x.Obeys w Q e) (n : ℕ) : (x.cut n).Obeys w (fun _ _ => True) e := by
  induction x generalizing e n with
  | ret a =>
    cases n with
    | zero => trivial
    | succ n => trivial
  | op o k ih =>
    cases n with
    | zero => trivial
    | succ n => exact hmono o e _ _ (fun r e' hr => ih r hr n) hx

/-- A program that keeps to a contract keeps what each operation keeps under the contract. -/
lemma Obeys.run (hstep : ∀ o e s (R : S.Res o → η → Prop), I e s → w o e R →
    Exec.wp (h o) (fun r s' => ∃ e', R r e' ∧ I e' s') (fun _ s' => ∃ e', I e' s') s)
    (hx : x.Obeys w Q e) (hs : I e s) :
    Exec.wp (x.run h) (fun a s' => ∃ e', Q a e' ∧ I e' s') (fun _ s' => ∃ e', I e' s') s := by
  induction x generalizing e s with
  | ret a => exact ⟨e, hx, hs⟩
  | op o k ih =>
    refine Exec.wp_bind.mpr (Exec.wp_mono (hstep o e s _ hs hx) ?_ fun _ _ hstop => hstop)
    rintro r s' ⟨e', hk, hs'⟩
    exact ih r hk hs'

end Contract
end Obeys

end Prog
end Xv6.Lib
