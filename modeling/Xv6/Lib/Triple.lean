import Xv6.Lib.Prog

/-!
# Specifications through a description of the state

A description `b` of type `β` stands for the states that `R b` relates to it. A
triple says what a program does to the description: whatever state it starts in,
it ends in a state with a description that meets the postcondition, or it stops
for a reason that is allowed.
-/

namespace Xv6.Lib

namespace Prog

variable {S : Signature} {α γ ε σ β : Type}

/-- From states described by `b`, the program `x` returns with `Q` or stops within `E`. -/
def Triple (h : ∀ o, Exec ε σ (S.Res o)) (R : β → σ → Prop) (E : ε → Prop) (b : β)
    (x : Prog S α) (Q : α → β → Prop) : Prop :=
  ∀ s, R b s → Exec.wp (x.run h) (fun a s' => ∃ b', R b' s' ∧ Q a b') (fun e _ => E e) s

/-- From states described by `b`, the program returns `a` and leaves states described by
`b'`, or it stops within `E`. -/
def Does (h : ∀ o, Exec ε σ (S.Res o)) (R : β → σ → Prop) (E : ε → Prop) (b : β)
    (x : Prog S α) (a : α) (b' : β) : Prop :=
  Triple h R E b x fun a' b'' => a' = a ∧ b'' = b'

variable {h : ∀ o, Exec ε σ (S.Res o)} {R : β → σ → Prop} {E : ε → Prop} {b b' : β}
  {x : Prog S α} {f : α → Prog S γ} {a : α} {Q : γ → β → Prop} {P P' : α → β → Prop}

lemma Triple.ret (hP : P a b) : Triple h R E b (pure a) P :=
  fun _ hs => (wp_ret a).mpr ⟨b, hs, hP⟩

lemma Triple.mono (hx : Triple h R E b x P) (hP : ∀ a b', P a b' → P' a b') :
    Triple h R E b x P' := by
  intro s hs
  refine Exec.wp_mono (hx s hs) ?_ fun _ _ he => he
  rintro a s' ⟨b', hs', hQ'⟩
  exact ⟨b', hs', hP a b' hQ'⟩

lemma Triple.bind (hx : Triple h R E b x P) (hf : ∀ a b', P a b' → Triple h R E b' (f a) Q) :
    Triple h R E b (x >>= f) Q := by
  intro s hs
  refine (wp_bind x f).mpr (Exec.wp_mono (hx s hs) ?_ fun _ _ he => he)
  rintro a s' ⟨b', hs', hP'⟩
  exact hf a b' hP' s' hs'

lemma Triple.stop {o : S.Op} {e : ε} {k : S.Res o → Prog S α} (ho : h o = Exec.stop e)
    (he : E e) : Triple h R E b (op o k) P := by
  intro s _
  rw [run_op, Exec.wp_bind, ho]
  exact he

lemma Does.ret : Does h R E b (pure a) a b := Triple.ret ⟨rfl, rfl⟩

lemma Does.triple (hx : Does h R E b x a b') (hP : P a b') : Triple h R E b x P := by
  refine hx.mono ?_
  intro a' b'' heq
  rw [heq.1, heq.2]
  exact hP

lemma Does.seq (hx : Does h R E b x a b') (hf : Triple h R E b' (f a) Q) :
    Triple h R E b (x >>= f) Q := by
  refine hx.bind ?_
  intro a' b'' heq
  rw [heq.1, heq.2]
  exact hf

lemma Does.op {o : S.Op} {r : S.Res o} (ho : ∀ s, R b s → ∃ s', h o s = .ok r s' ∧ R b' s') :
    Does h R E b (perform o) r b' := by
  intro s hs
  obtain ⟨s', hok, hs'⟩ := ho s hs
  exact (wp_perform o).mpr (Exec.wp_of_ok hok ⟨b', hs', rfl, rfl⟩)

end Prog
end Xv6.Lib
