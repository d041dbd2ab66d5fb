import Mathlib.Algebra.BigOperators.Fin
import Xv6.Vm.Space

/-!
# Loops over ranges of addresses

What the loops of `vm.c` do to an address space. Each of them works on the pages of
a range from the bottom up, and changes the entries of that range only. The entries
in the range then have a property that the loop gives them: the page is not present,
or it is present and the user's, or it is the kernel's.
-/

namespace Xv6.Vm
open Lib Exec

/-- `S'` is `S` but for the entries from `lo` up to `hi`, and these have the property `R`. -/
structure Space.Sets (S : Space) (lo hi : ℕ) (R : Word → Prop) (S' : Space) : Prop
    extends S.Changes (fun b => lo ≤ b ∧ b < hi) S' where
  sets : ∀ b, lo ≤ b → b < hi → R (S'.pte b)

namespace Space

variable {S S₁ S₂ : Space} {R : Word → Prop} {A : ℕ → Prop} {a a' hi : ℕ}

lemma Sets.append (h₁ : S.Sets a (min a' hi) R S₁) (h₂ : S₁.Sets a' hi R S₂) (ha : a ≤ a')
    (hhi : hi ≤ 2 ^ 32) : S.Sets a hi R S₂ where
  toChanges := h₁.toChanges.trans h₂.toChanges (fun b hb => by omega) fun b hb => by omega
  sets b hlo hb := by
    by_cases hb' : a' ≤ b
    · exact h₂.sets b hb' hb
    rw [h₂.pte b (by omega) (by omega)]
    exact h₁.sets b hlo (by omega)

/-- What was there before in the range does not matter. -/
lemma Sets.of_changes (h₁ : S.Changes A S₁) (h₂ : S₁.Sets a hi R S₂)
    (hA : ∀ b, A b → a ≤ b ∧ b < hi) : S.Sets a hi R S₂ where
  toChanges := h₁.trans h₂.toChanges hA fun _ => id
  sets := h₂.sets

lemma Sets.empty (h : hi ≤ a) : S.Sets a hi R S where
  toChanges := Changes.refl
  sets b hlo hb := by omega

/-- A range where nothing has to be done. -/
lemma Sets.keep (h : ∀ b, a ≤ b → b < hi → R (S.pte b)) : S.Sets a hi R S where
  toChanges := Changes.refl
  sets := h

lemma Sets.page (h : S.Changes (fun b => b / PGSIZE = a / PGSIZE) S₁) (ha : a % PGSIZE = 0)
    (hhi : hi % PGSIZE = 0) (hlt : a < hi) (hR : ∀ b, b / PGSIZE = a / PGSIZE → R (S₁.pte b)) :
    S.Sets a (min (a + PGSIZE) hi) R S₁ where
  toChanges := h.mono fun b hb => by
    unfold PGSIZE at *
    omega
  sets b hlo hb := hR b (by unfold PGSIZE at *; omega)

end Space

lemma pgRoundUp_spec {x : ℕ} (h : x ≤ KERNBASE) :
    pgRoundUp x % PGSIZE = 0 ∧ x ≤ pgRoundUp x ∧ pgRoundUp x < x + PGSIZE ∧
      pgRoundUp x ≤ KERNBASE := by
  unfold pgRoundUp PGSIZE KERNBASE at *
  omega

section User
variable {P : Pool} {m : Memory} {cs : Cells} {S : Space} {pgdir a n oldsz newsz : ℕ}
  {E : Stop → Memory → Prop}

/-- `S'` is `S` without the pages of a range. -/
abbrev Space.Clears (S : Space) (lo hi : ℕ) (S' : Space) : Prop := S.Sets lo hi (·.p = false) S'

variable {Q : Unit → Memory → Prop}

lemma wp_unmap {k : Unit → Code Unit} (h : m.Owns P (S.cells + cs))
    (ha : a < KERNBASE) (hp : (S.pte a).p = true)
    (hk : ∀ S' m', S.Changes (fun b => b / PGSIZE = a / PGSIZE) S' →
      (∀ b < 2 ^ 32, b / PGSIZE = a / PGSIZE → S'.pte b = {}) → m'.Owns P (S'.cells + cs) →
      wp (k ()) Q E m') : wp (do
      stopIf ((S.pte a).addr = 0) .kfree
      kfree P.layout (S.pte a).addr
      let r ← store (S.dir (pdx a)).addr (ptx a) {}
      k r) Q E m := by
  have ha' : a < 2 ^ 32 := ha.trans (by decide)
  have hdir := Space.dir_of_present hp
  rw [Space.cells_user ha hp] at h
  refine wp_bind.mpr (wp_stopIf.mpr
    ⟨fun hzero => absurd hzero (Pool.ne_zero h.owned.mem), fun _ => ?_⟩)
  refine wp_bind.mpr (wp_kfree h fun m' h' => ?_)
  have hleaf : leafAt (pdx a) {} = 0 := by simp [leafAt, leaf]
  rw [← zero_add (S.frame (pdx a) (ptx a)), ← hleaf] at h'
  have hext : S.Extends (pdx a) S := ⟨rfl, fun _ _ => rfl, fun _ => .inl⟩
  exact wp_bind.mpr (wp_storeEntry h' hdir fun m'' h'' =>
    hk _ m'' (hext.changes hdir ha' _) (fun b hb => Space.pte_set hdir ha' hb) h'')

lemma Space.pte_congr {b : ℕ} (ha : a < 2 ^ 32) (hb : b < 2 ^ 32)
    (h : b / PGSIZE = a / PGSIZE) : S.pte b = S.pte a := by
  obtain ⟨hi, hj⟩ := (Space.pdx_ptx_eq_iff ha hb).mpr h
  rw [Space.pte, hi, hj]
  rfl

/-- Without a table no page is present up to the next table. -/
lemma Space.gone_of_no_table {b : ℕ} (hdir : (S.dir (pdx a)).p = false) (ha : a < KERNBASE)
    (hlo : a ≤ b) (hb : b < ((pdx a).val + 1) * 2 ^ 22) : (S.pte b).p = false := by
  have hpdx : pdx b = pdx a := by
    ext
    simp only [pdx, KERNBASE] at *
    omega
  rw [Space.pte, hpdx, Space.entry, hdir]
  rfl

lemma wp_deallocLoop (h : m.Owns P (S.cells + cs))
    (hroot : S.root = pgdir) (ha : a % PGSIZE = 0) (hold : oldsz ≤ KERNBASE)
    (hn : oldsz - a + PGSIZE - 1 < n * PGSIZE)
    (hQ : ∀ S' m', S.Clears a (pgRoundUp oldsz) S' → m'.Owns P (S'.cells + cs) → Q () m') :
    wp (deallocLoop P.layout pgdir oldsz n a) Q E m := by
  obtain ⟨hmod, hle, hup, htop⟩ := pgRoundUp_spec hold
  have hhi : pgRoundUp oldsz ≤ 2 ^ 32 := htop.trans (by decide)
  induction n generalizing m S a with
  | zero =>
    simp only [Nat.zero_mul, Nat.not_lt_zero] at hn
  | succ n ih =>
    rw [deallocLoop]
    by_cases hlt : a < oldsz
    · rw [if_pos hlt]
      have hlt' : a < KERNBASE := by omega
      have hbound : a < 2 ^ 32 := hlt'.trans (by decide)
      refine wp_bind.mpr (wp_walk h hroot (fun hdir => ?_) fun hdir => ?_)
      · -- the table is not there: on to the next
        have hnext : a < ((pdx a).val + 1) * 2 ^ 22 := by
          simp only [pdx, KERNBASE] at *
          omega
        refine ih h hroot ?_ ?_ fun S' m' hS h' => hQ S' m' ?_ h'
        · unfold PGSIZE at *
          omega
        · unfold PGSIZE at *
          omega
        · exact .append (.keep fun b hlo hb =>
            Space.gone_of_no_table hdir hlt' hlo (lt_min_iff.mp hb).1) hS hnext.le hhi
      refine wp_bind.mpr (wp_loadEntry h hdir ?_)
      have hstep : ∀ S₁ m₁, S.Changes (fun b => b / PGSIZE = a / PGSIZE) S₁ →
          (∀ b < 2 ^ 32, b / PGSIZE = a / PGSIZE → (S₁.pte b).p = false) →
          m₁.Owns P (S₁.cells + cs) →
          wp (deallocLoop P.layout pgdir oldsz n (a + PGSIZE)) Q E m₁ := by
        intro S₁ m₁ hS₁ hgone h₁
        refine ih h₁ (hS₁.root.trans hroot) ?_ ?_ fun S' m' hS h' => hQ S' m' ?_ h'
        · unfold PGSIZE at *
          omega
        · unfold PGSIZE at *
          omega
        refine .append (.page hS₁ ha hmod (by omega) fun b hb => hgone b ?_ hb) hS
          (Nat.le_add_right ..) hhi
        unfold PGSIZE at *
        omega
      by_cases hp : (S.pte a).p = true
      · simp only [show (S.entry (pdx a) (ptx a)).p = true from hp, if_true]
        exact wp_unmap h hlt' hp fun S₁ m₁ hS₁ hgone h₁ =>
          hstep S₁ m₁ hS₁ (fun b hb heq => by rw [hgone b hb heq]) h₁
      simp only [show ¬ (S.entry (pdx a) (ptx a)).p = true from hp]
      refine hstep S m .refl (fun b hb heq => ?_) h
      rw [Space.pte_congr hbound hb heq]
      simpa using hp
    · rw [if_neg hlt]
      exact hQ S m (.empty (by unfold PGSIZE at *; omega)) h

variable {Q : ℕ → Memory → Prop}

lemma wp_deallocuvm (h : m.Owns P (S.cells + cs))
    (hroot : S.root = pgdir) (hold : oldsz ≤ KERNBASE) (hkeep : oldsz ≤ newsz → Q oldsz m)
    (hQ : newsz < oldsz → ∀ S' m', S.Clears (pgRoundUp newsz) (pgRoundUp oldsz) S' →
      m'.Owns P (S'.cells + cs) → Q newsz m') :
    wp (deallocuvm P.layout pgdir oldsz newsz) Q E m := by
  unfold deallocuvm
  by_cases hle : oldsz ≤ newsz
  · rw [if_pos hle]
    exact hkeep hle
  rw [if_neg hle]
  obtain ⟨hmod, -⟩ := pgRoundUp_spec (x := newsz) (by omega)
  refine wp_bind.mpr (wp_deallocLoop h hroot hmod hold ?_ fun S' m' hS h' => ?_)
  · unfold TURNS NPDENTRIES NPTENTRIES PGSIZE KERNBASE at *
    omega
  · exact hQ (by omega) S' m' hS h'

/-- `S'` is `S` with pages of the user in all of a range. -/
abbrev Space.Fills (S : Space) (lo hi : ℕ) (S' : Space) : Prop :=
  S.Sets lo hi (fun w => w.p = true ∧ w.u = true) S'

lemma wp_allocLoop {Q : Bool → Memory → Prop} (h : m.Owns P (S.cells + cs))
    (hroot : S.root = pgdir) (ha : a % PGSIZE = 0) (hnew : newsz < KERNBASE)
    (hold : pgRoundUp oldsz ≤ a) (hle : oldsz ≤ newsz)
    (hfree : ∀ b, a ≤ b → b < pgRoundUp newsz → (S.pte b).p = false)
    (hn : newsz - a + PGSIZE - 1 < n * PGSIZE)
    (hfail : ∀ S' m', S.Clears (pgRoundUp oldsz) (pgRoundUp newsz) S' →
      m'.Owns P (S'.cells + cs) → Q false m')
    (hok : ∀ S' m', S.Fills a (pgRoundUp newsz) S' → m'.Owns P (S'.cells + cs) → Q true m') :
    wp (allocLoop P.layout pgdir oldsz newsz n a) Q E m := by
  obtain ⟨hmod, hup, hup', htop⟩ := pgRoundUp_spec hnew.le
  obtain ⟨-, hold', -⟩ := pgRoundUp_spec (hle.trans hnew.le)
  have hhi : pgRoundUp newsz ≤ 2 ^ 32 := htop.trans (by decide)
  induction n generalizing m S a with
  | zero =>
    simp only [Nat.zero_mul, Nat.not_lt_zero] at hn
  | succ n ih =>
    rw [allocLoop]
    by_cases hlt : a < newsz
    · rw [if_pos hlt]
      have hlt' : a < KERNBASE := by omega
      have habs : (S.pte a).p = false := hfree a le_rfl (by omega)
      refine wp_bind.mpr (wp_kalloc h (fun m₁ h₁ _ => ?_) fun f m₁ h₁ => ?_)
      · exact wp_bind.mpr (wp_deallocuvm h₁ hroot hnew.le (fun hle' => by omega) fun _ => hfail)
      refine wp_bind.mpr ?_
      have h₂ := (h₁.write zeroed).forget
      refine wp_bind.mpr (wp_mapPage h₂ hroot ha hlt' habs (fun m₃ h₃ _ => ?_)
        fun S₁ m₃ hS₁ hpte h₃ => ?_)
      · rw [← Multiset.add_cons] at h₃
        refine wp_bind.mpr (wp_deallocuvm h₃ hroot hnew.le (fun hle' => by omega)
          fun _ S' m₄ hS' h₄ => ?_)
        rw [Multiset.add_cons] at h₄
        exact wp_bind.mpr (wp_kfree h₄ fun m₅ h₅ => hfail S' m₅ hS' h₅)
      rw [if_pos rfl]
      have hin : ∀ b, b / PGSIZE = a / PGSIZE → pgRoundUp oldsz ≤ b ∧ b < pgRoundUp newsz := by
        unfold PGSIZE at *
        omega
      refine ih h₃ (hS₁.root.trans hroot) ?_ ?_ ?_ ?_ (fun S' m' hS' => ?_) fun S' m' hS' => ?_
      · unfold PGSIZE at *
        omega
      · omega
      · intro b hlo hb
        rw [hS₁.pte b (by omega) (by unfold PGSIZE at *; omega)]
        exact hfree b (by omega) hb
      · unfold PGSIZE at *
        omega
      · exact hfail S' m' (.of_changes hS₁ hS' hin)
      refine hok S' m' (.append (.page hS₁ ha hmod (by omega) fun b hb => ?_) hS'
        (Nat.le_add_right ..) hhi)
      rw [hpte b (by have := hin b hb; omega) hb]
      exact ⟨rfl, rfl⟩
    · rw [if_neg hlt]
      exact hok S m (.empty (by unfold PGSIZE at *; omega)) h

lemma wp_allocuvm (h : m.Owns P (S.cells + cs)) (hroot : S.root = pgdir)
    (hfree : newsz < KERNBASE → ∀ b, pgRoundUp oldsz ≤ b → b < pgRoundUp newsz →
      (S.pte b).p = false)
    (hbig : KERNBASE ≤ newsz → Q 0 m) (hless : newsz < KERNBASE → newsz < oldsz → Q oldsz m)
    (hfail : newsz < KERNBASE → oldsz ≤ newsz → ∀ S' m',
      S.Clears (pgRoundUp oldsz) (pgRoundUp newsz) S' → m'.Owns P (S'.cells + cs) → Q 0 m')
    (hok : newsz < KERNBASE → oldsz ≤ newsz → ∀ S' m',
      S.Fills (pgRoundUp oldsz) (pgRoundUp newsz) S' → m'.Owns P (S'.cells + cs) → Q newsz m') :
    wp (allocuvm P.layout pgdir oldsz newsz) Q E m := by
  unfold allocuvm
  by_cases hbig' : KERNBASE ≤ newsz
  · rw [if_pos hbig']
    exact hbig hbig'
  rw [if_neg hbig']
  by_cases hless' : newsz < oldsz
  · rw [if_pos hless']
    exact hless (by omega) hless'
  rw [if_neg hless']
  have hlt : newsz < KERNBASE := by omega
  have hle : oldsz ≤ newsz := by omega
  obtain ⟨hmod, -⟩ := pgRoundUp_spec (hle.trans hlt.le)
  refine wp_bind.mpr (wp_allocLoop h hroot hmod hlt le_rfl hle (hfree hlt) ?_
    (hfail hlt hle) (hok hlt hle))
  unfold TURNS NPDENTRIES NPTENTRIES PGSIZE KERNBASE at *
  omega

end User

/-! ### The size of an address space -/

section Covers
variable {S S' : Space} {sz sz' : ℕ}

/-- The pages that are present are those below a size. -/
def Space.Covers (S : Space) (sz : ℕ) : Prop :=
  ∀ va < KERNBASE, (S.pte va).p = true ↔ va < pgRoundUp sz

lemma pgRoundUp_mono (h : sz ≤ sz') (h' : sz' ≤ KERNBASE) : pgRoundUp sz ≤ pgRoundUp sz' := by
  unfold pgRoundUp PGSIZE KERNBASE at *
  omega

section
variable (h : S.Covers sz)
include h

lemma Space.Covers.sets {lo hi : ℕ} {b : Bool} (hS : S.Sets lo hi (·.p = b) S')
    (hlt : ∀ va, lo ≤ va → va < hi → (b = true ↔ va < pgRoundUp sz'))
    (hother : ∀ va, ¬ (lo ≤ va ∧ va < hi) → (va < pgRoundUp sz ↔ va < pgRoundUp sz')) :
    S'.Covers sz' := by
  intro va hva
  by_cases hin : lo ≤ va ∧ va < hi
  · rw [hS.sets va hin.1 hin.2]
    exact hlt va hin.1 hin.2
  · rw [hS.pte va (hva.trans (by decide)) hin]
    exact (h va hva).trans (hother va hin)

lemma Space.Covers.grow (hle : sz ≤ sz')
    (hlt : sz' < KERNBASE) (hS : S.Fills (pgRoundUp sz) (pgRoundUp sz') S') : S'.Covers sz' := by
  have hmono := pgRoundUp_mono hle hlt.le
  have hpresent : S.Sets (pgRoundUp sz) (pgRoundUp sz') (·.p = true) S' :=
    ⟨hS.toChanges, fun va hlo hhi => (hS.sets va hlo hhi).1⟩
  refine h.sets hpresent ?_ ?_
  · simp
  · omega

lemma Space.Covers.shrink (hle : sz' ≤ sz)
    (hlt : sz < KERNBASE) (hS : S.Clears (pgRoundUp sz') (pgRoundUp sz) S') : S'.Covers sz' := by
  have hmono := pgRoundUp_mono hle hlt.le
  refine h.sets hS ?_ ?_
  · intro va hlo _
    simpa using hlo
  · omega

lemma Space.Covers.fail (hS : S.Clears (pgRoundUp sz) (pgRoundUp sz') S') : S'.Covers sz := by
  refine h.sets hS ?_ fun _ _ => Iff.rfl
  intro va hlo _
  simpa using hlo

lemma Space.Covers.absent {va : ℕ} (hlo : pgRoundUp sz ≤ va)
    (hva : va < KERNBASE) : (S.pte va).p = false := by
  simpa using (h va hva).not.mpr (by omega)

end
end Covers

end Xv6.Vm
