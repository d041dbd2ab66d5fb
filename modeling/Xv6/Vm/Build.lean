import Xv6.Vm.Kernel
import Xv6.Vm.Ranges

/-!
# Building, copying and freeing address spaces

What the functions of `vm.c` for whole address spaces do: `freevm`, `setupkvm` and
`copyuvm`, and the functions that `exec` fills a new address space with.
-/

namespace Xv6.Vm
open Lib Exec Multiset

variable {P : Pool} {m : Memory} {cs : Cells} {S : Space} {pgdir : ℕ} {E : Stop → Memory → Prop}

/-! ### Freeing -/

/-- What is left of a branch when its user pages are gone. -/
def table (pde : Word) (pg : Page) : Cells := if pde.p then {⟨pde.addr, some pg⟩} else 0

/-- Without user pages there are the directory and the tables. -/
lemma Space.cells_of_empty (h : ∀ b < KERNBASE, (S.pte b).p = false) :
    S.cells = ⟨S.root, some S.dir⟩ ::ₘ ∑ i, table (S.dir i) (S.row i) := by
  have hbranch : ∀ i, branch i (S.dir i) (S.row i) = table (S.dir i) (S.row i) := by
    intro i
    unfold branch table
    split
    case isFalse => rfl
    case isTrue hp =>
      have hleaf : ∀ j, leafAt i (S.row i j) = 0 := by
        intro j
        unfold leafAt
        split
        case isFalse => rfl
        case isTrue hi =>
          have hentry := h ((i.val * 1024 + j.val) * PGSIZE) (by
            unfold PGSIZE KERNBASE
            omega)
          rw [← Space.entry_eq_pte, Space.entry, if_pos hp] at hentry
          simp [leaf, hentry]
      simp [hleaf]
  rw [Space.cells]
  simp only [hbranch]

variable {Q : Unit → Memory → Prop}

lemma wp_freeTables {dir : Page} {row : Fin 1024 → Page} (l : List (Fin 1024))
    (h : m.Owns P (⟨pgdir, some dir⟩ ::ₘ ((l.map fun i => table (dir i) (row i)).sum + cs)))
    (hQ : ∀ m', m'.Owns P (⟨pgdir, some dir⟩ ::ₘ cs) → Q () m') : wp (Exec.each (fun i => do
      let pde ← load pgdir i
      if pde.p then kfree P.layout pde.addr) l) Q E m := by
  induction l generalizing m with
  | nil =>
    refine hQ m ?_
    simpa using h
  | cons i l ih =>
    refine wp_bind.mpr (wp_bind.mpr ?_)
    change wp (if (m.page pgdir i).p then _ else _) _ E m
    rw [h.read]
    rw [List.map_cons, List.sum_cons, add_assoc, table] at h
    split
    case isTrue hp =>
      rw [if_pos hp, singleton_add, cons_swap] at h
      exact wp_kfree h fun m' h' => ih h'
    case isFalse hp =>
      rw [if_neg hp, zero_add] at h
      exact ih h

lemma wp_freevm (h : m.Owns P (S.cells + cs))
    (hroot : S.root = pgdir) (hQ : ∀ m', m'.Owns P cs → Q () m') :
    wp (freevm P.layout (some pgdir)) Q E m := by
  refine wp_bind.mpr (wp_deallocuvm h hroot le_rfl (fun hbad => by cases hbad)
    fun _ S' m' hS h' => ?_)
  have hempty : ∀ b < KERNBASE, (S'.pte b).p = false := fun b hb =>
    hS.sets b (Nat.zero_le b) (hb.trans_le (pgRoundUp_spec le_rfl).2.1)
  rw [Space.cells_of_empty hempty, Fin.sum_univ_def, cons_add, hS.root, hroot] at h'
  refine wp_bind.mpr ?_
  -- keep the list from being computed
  generalize List.finRange 1024 = l at h' ⊢
  exact wp_freeTables l h' fun m'' h'' => wp_kfree h'' hQ

/-! ### The kernel's part -/

/-- The user has no access to the upper half. -/
def Space.Shut (S : Space) : Prop := ∀ b, KERNBASE ≤ b → b < 2 ^ 32 → (S.pte b).u = false

variable {Q : Bool → Memory → Prop} {n i sz addr va : ℕ} {readi : ℕ → Option (Page → Page)}
variable {Q : Bool → Memory → Prop}

/-- The loop of `mappages` in the upper half, which owns no pages. -/
lemma wp_mapLoop {a pa last n : ℕ} {perm : Perm} (h : m.Owns P (S.cells + cs))
    (hroot : S.root = pgdir) (ha : a % PGSIZE = 0)
    (hlast : last % PGSIZE = 0) (hlo : KERNBASE ≤ a) (hle : a ≤ last) (hhi : last + PGSIZE ≤ 2 ^ 32)
    (hn : last - a < n * PGSIZE) (hfree : ∀ b, a ≤ b → b < last + PGSIZE → (S.pte b).p = false)
    (hfail : ∀ S' m', S.Changes (fun b => a ≤ b ∧ b < last + PGSIZE) S' →
      m'.Owns P (S'.cells + cs) →
      (P.lucky → Multiset.card (S'.cells + cs) = Multiset.card P.stock) → Q false m')
    (hok : ∀ S' m', S.Sets a (last + PGSIZE) (·.u = perm.u) S' → m'.Owns P (S'.cells + cs) →
      Q true m') : wp (mapLoop pgdir last perm n a pa) Q E m := by
  induction n generalizing m S a pa with
  | zero => simp only [Nat.zero_mul, Nat.not_lt_zero] at hn
  | succ n ih =>
    have hlt : a < 2 ^ 32 := by
      unfold PGSIZE at *
      omega
    have hleaf : ∀ w, leafAt (pdx a) w = 0 := fun w =>
      if_neg ((pdx_lt_iff hlt).not.mpr (by omega))
    have hpage : ∀ b, b / PGSIZE = a / PGSIZE → a ≤ b ∧ b < a + PGSIZE := by
      unfold PGSIZE at *
      omega
    rw [← zero_add (S.cells + cs), ← hleaf ⟨pa / PGSIZE, true, perm.w, perm.u⟩] at h
    refine wp_mapTurn h rfl hroot hlt (hfree a le_rfl (by unfold PGSIZE; omega))
      (fun m' h' hfull => ?_) fun S₁ m' hS₁ hpte h' => ?_
    · rw [hleaf, zero_add] at h' hfull
      exact hfail S m' .refl h' hfull
    by_cases heq : a = last
    · subst heq
      rw [if_pos rfl]
      refine hok S₁ m' ⟨hS₁.mono fun b => hpage b, fun b hb hb' => ?_⟩ h'
      rw [hpte b (by omega) (by unfold PGSIZE at *; omega)]
    rw [if_neg heq]
    have hnext : (a + PGSIZE) % 2 ^ 32 = a + PGSIZE := by
      unfold PGSIZE at *
      omega
    have hle' : a + PGSIZE ≤ last := by
      unfold PGSIZE at *
      omega
    rw [hnext]
    refine ih h' (hS₁.root.trans hroot) ?_ ?_ hle' ?_ ?_ (fun S' m'' hS' => ?_)
      fun S' m'' hS' => ?_
    · unfold PGSIZE at *
      omega
    · omega
    · unfold PGSIZE at *
      omega
    · intro b hb hb'
      rw [hS₁.pte b (by omega) fun hsame => by have := hpage b hsame; omega]
      exact hfree b (by omega) hb'
    · exact hfail S' m'' (hS₁.trans hS' (fun b hb => by have := hpage b hb; omega)
        fun b hb => by omega)
    refine hok S' m'' (.append (.page hS₁ ha ?_ (by omega) fun b hb => ?_) hS'
      (Nat.le_add_right ..) hhi)
    · unfold PGSIZE at *
      omega
    · rw [hpte b (by have := hpage b hb; omega) hb]

/-- Mappings of whole pages, one above the other from `lo` on, and not for the user. -/
def Stacked : ℕ → List Kmap → Prop
  | _, [] => True
  | lo, k :: ks => lo ≤ k.virt ∧ k.virt % PGSIZE = 0 ∧ k.size % PGSIZE = 0 ∧ 0 < k.size ∧
      k.virt + k.size ≤ 2 ^ 32 ∧ k.perm.u = false ∧ Stacked (k.virt + k.size) ks

/-- An address that one of the mappings maps. -/
def Mapped (ks : List Kmap) (b : ℕ) : Prop := ∃ k ∈ ks, k.virt ≤ b ∧ b < k.virt + k.size

lemma wp_mapRange {k : Kmap} (h : m.Owns P (S.cells + cs))
    (hroot : S.root = pgdir) (hbase : KERNBASE ≤ k.virt) (hvirt : k.virt % PGSIZE = 0)
    (hmod : k.size % PGSIZE = 0) (hpos : 0 < k.size) (htop : k.virt + k.size ≤ 2 ^ 32)
    (hfree : ∀ b, k.virt ≤ b → b < 2 ^ 32 → (S.pte b).p = false)
    (hfail : ∀ S' m', S.Changes (fun b => k.virt ≤ b ∧ b < k.virt + k.size) S' →
      m'.Owns P (S'.cells + cs) →
      (P.lucky → Multiset.card (S'.cells + cs) = Multiset.card P.stock) → Q false m')
    (hok : ∀ S' m', S.Sets k.virt (k.virt + k.size) (·.u = k.perm.u) S' →
      m'.Owns P (S'.cells + cs) → Q true m') :
    wp (mappages pgdir k.virt k.size k.physStart k.perm) Q E m := by
  obtain ⟨last, hlast⟩ : ∃ last, last + PGSIZE = k.virt + k.size :=
    ⟨k.virt + k.size - PGSIZE, by unfold PGSIZE at *; omega⟩
  have hround : pgRoundDown ((k.virt + k.size + 2 ^ 32 - 1) % 2 ^ 32) = last := by
    unfold pgRoundDown PGSIZE at *
    omega
  rw [← hlast] at hfail hok
  unfold mappages
  rw [hround, pgRoundDown_eq hvirt]
  refine wp_mapLoop h hroot hvirt ?_ hbase ?_ ?_ ?_ (fun b hlo hb => hfree b hlo ?_) hfail hok
  all_goals
    simp only [TURNS, NPDENTRIES, NPTENTRIES, PGSIZE, KERNBASE] at *
    omega

lemma wp_mapKernel {ks : List Kmap} {lo : ℕ} (h : m.Owns P (S.cells + cs))
    (hroot : S.root = pgdir) (hbase : KERNBASE ≤ lo) (hks : Stacked lo ks) (hshut : S.Shut)
    (hfree : ∀ b, lo ≤ b → b < 2 ^ 32 → (S.pte b).p = false)
    (hfail : ∀ S' m', S.Changes (Mapped ks) S' → m'.Owns P (S'.cells + cs) →
      (P.lucky → Multiset.card (S'.cells + cs) = Multiset.card P.stock) → Q false m')
    (hok : ∀ S' m', S.Changes (Mapped ks) S' → S'.Shut → m'.Owns P (S'.cells + cs) → Q true m') :
    wp (mapKernel pgdir ks) Q E m := by
  induction ks generalizing m S lo with
  | nil => exact hok S m .refl hshut h
  | cons k ks ih =>
    obtain ⟨hlo, hvirt, hmod, hpos, htop, hu, hrest⟩ := hks
    have hfirst : ∀ b, k.virt ≤ b ∧ b < k.virt + k.size → Mapped (k :: ks) b := fun b hb =>
      ⟨k, List.mem_cons_self, hb⟩
    have hothers : ∀ b, Mapped ks b → Mapped (k :: ks) b := fun b ⟨k', hk', hb⟩ =>
      ⟨k', List.mem_cons_of_mem k hk', hb⟩
    refine wp_bind.mpr (wp_mapRange h hroot (hbase.trans hlo) hvirt hmod hpos htop
      (fun b hb => hfree b (hlo.trans hb)) (fun S' m' hS h' hfull => ?_) fun S₁ m' hS₁ h' => ?_)
    · exact hfail S' m' (hS.mono hfirst) h' hfull
    rw [if_pos rfl]
    refine ih h' (hS₁.root.trans hroot) (by omega) hrest (fun b hb hb' => ?_)
      (fun b hb hb' => ?_) (fun S' m'' hS => hfail S' m'' ?_) fun S' m'' hS => hok S' m'' ?_
    · by_cases hin : k.virt ≤ b ∧ b < k.virt + k.size
      · rw [hS₁.sets b hin.1 hin.2, hu]
      · rw [hS₁.pte b hb' hin]
        exact hshut b hb hb'
    · rw [hS₁.pte b hb' (by omega)]
      exact hfree b (by omega) hb'
    · exact hS₁.toChanges.trans hS hfirst hothers
    · exact hS₁.toChanges.trans hS hfirst hothers

/-- An address space with the kernel's part only. -/
structure Space.Fresh (S : Space) : Prop where
  empty : ∀ b < KERNBASE, (S.pte b).p = false
  shut : S.Shut
  card : Multiset.card S.cells ≤ 65

/-- A directory without tables. -/
def Space.blank (root : ℕ) : Space := ⟨root, zeroed, fun _ => zeroed⟩

lemma Space.blank_cells (root : ℕ) : (Space.blank root).cells = {⟨root, some zeroed⟩} := by
  simp [Space.cells, Space.blank, branch, zeroed]

lemma Space.blank_pte (root b : ℕ) : (Space.blank root).pte b = {} := by
  simp [Space.pte, Space.entry, Space.blank, zeroed]

lemma kmap_stacked (L : Layout) : Stacked KERNBASE (kmap L) := by
  have := L.data_aligned
  have := L.text_lt
  have := L.data_le
  have := L.end_le
  simp only [kmap, Stacked, Kmap.size, KERNLINK, KERNBASE, EXTMEM, PHYSTOP, DEVSPACE, PGSIZE,
    true_and, and_true] at *
  omega

lemma Mapped.pdx {L : Layout} {b : ℕ} (h : Mapped (kmap L) b) (hb : b < 2 ^ 32) :
    512 ≤ (pdx b).val ∧ (pdx b).val < 568 ∨ 1016 ≤ (pdx b).val := by
  have := L.text_lt
  have := L.data_le
  have := L.end_le
  obtain ⟨k, hk, hlo, hhi⟩ := h
  simp only [kmap, List.mem_cons, List.not_mem_nil, or_false] at hk
  rcases hk with rfl | rfl | rfl | rfl <;>
    simp only [Vm.pdx, Kmap.size, KERNLINK, KERNBASE, EXTMEM, PHYSTOP, DEVSPACE, PGSIZE] at * <;>
    omega

/-- An address space that has mapped nothing but the kernel's part, or some of it. -/
lemma Space.Changes.fresh {L : Layout} {root : ℕ}
    (h : (Space.blank root).Changes (Mapped (kmap L)) S) :
    (∀ b < KERNBASE, (S.pte b).p = false) ∧ Multiset.card S.cells ≤ 65 := by
  have hempty : ∀ b < KERNBASE, (S.pte b).p = false := by
    intro b hb
    have hlt : b < 2 ^ 32 := hb.trans (by decide)
    rw [h.pte b hlt fun hmapped => ?_, Space.blank_pte]
    have hpdx := hmapped.pdx hlt
    have := (pdx_lt_iff hlt).mpr hb
    omega
  refine ⟨hempty, ?_⟩
  have htable : ∀ i, Multiset.card (table (S.dir i) (S.row i)) ≤
      if 512 ≤ i.val ∧ i.val < 568 ∨ 1016 ≤ i.val then 1 else 0 := by
    intro i
    unfold table
    split
    case isTrue hp =>
      rcases h.dir i hp with hp | ⟨b, hlt, hb, rfl⟩
      · cases hp
      rw [if_pos (hb.pdx hlt)]
      simp
    case isFalse => simp
  rw [Space.cells_of_empty hempty, card_cons, card_sum]
  refine Nat.succ_le_succ ((Finset.sum_le_sum fun i _ => htable i).trans ?_)
  rw [Finset.sum_boole]
  decide +kernel

lemma wp_setupkvm {Q : Option ℕ → Memory → Prop} (h : m.Owns P cs)
    (hnone : ∀ m', m'.Owns P cs → (P.lucky → Multiset.card P.stock ≤ Multiset.card cs + 65) →
      Q none m')
    (hsome : ∀ (S' : Space) m', S'.Fresh → m'.Owns P (S'.cells + cs) → Q (some S'.root) m') :
    wp (setupkvm P.layout) Q E m := by
  refine wp_bind.mpr (wp_kalloc h (fun m' h' hfull => ?_) fun f m' h' => ?_)
  · exact hnone m' h' fun hl => by rw [← hfull hl]; omega
  have hblank := h'.write zeroed
  rw [← singleton_add, ← Space.blank_cells] at hblank
  refine wp_bind.mpr (wp_modify.mpr ?_)
  refine wp_bind.mpr (wp_stopIf.mpr ⟨fun hbad => absurd hbad (by decide), fun _ => ?_⟩)
  refine wp_bind.mpr (wp_mapKernel hblank rfl le_rfl (kmap_stacked P.layout) ?_ ?_ ?_ ?_)
  · intro b _ _
    rw [Space.blank_pte]
  · intro b _ _
    rw [Space.blank_pte]
  · intro S' m'' hS h'' hfull
    have hcard := hS.fresh.2
    refine wp_bind.mpr (wp_freevm h'' hS.root fun m₃ h₃ => hnone m₃ h₃ fun hl => ?_)
    rw [← hfull hl, card_add]
    omega
  intro S' m'' hS hshut h''
  have hfresh : S'.Fresh := ⟨hS.fresh.1, hshut, hS.fresh.2⟩
  have hroot : S'.root = f := hS.root
  rw [if_pos rfl, ← hroot]
  exact hsome S' m'' hfresh h''

/-! ### The user's part -/

/-- The pages are below a size, and the user has no others. -/
structure Space.Fits (S : Space) (sz : ℕ) : Prop where
  sz_lt : sz < KERNBASE
  above : ∀ b, pgRoundUp sz ≤ b → b < KERNBASE → (S.pte b).p = false
  shut : S.Shut

lemma Space.Changes.shut {S' : Space} {A : ℕ → Prop} (h : S.Changes A S') (hS : S.Shut)
    (hA : ∀ b, A b → b < KERNBASE) : S'.Shut := fun b hb hb' => by
  rw [h.pte b hb' fun hAb => by have := hA b hAb; omega]
  exact hS b hb hb'

lemma wp_copyLoop {D : Space} {d i n sz : ℕ} (h : m.Owns P (D.cells + (S.cells + cs)))
    (hd : D.root = d) (hroot : S.root = pgdir) (hi : i % PGSIZE = 0) (hsz : sz < KERNBASE)
    (hfree : ∀ b, i ≤ b → b < KERNBASE → (D.pte b).p = false)
    (hn : sz - i + PGSIZE - 1 < n * PGSIZE) (hpte : ∀ m', E .copyuvmPte m')
    (hpresent : ∀ m', E .copyuvmPresent m')
    (hfail : ∀ (D' : Space) m', D'.root = D.root → m'.Owns P (D'.cells + (S.cells + cs)) →
      Q false m') (hok : ∀ D' m', D.Changes (fun b => i ≤ b ∧ b < pgRoundUp sz) D' →
      m'.Owns P (D'.cells + (S.cells + cs)) → Q true m') :
    wp (copyLoop P.layout d pgdir sz n i) Q E m := by
  obtain ⟨hmod, hup, -, htop⟩ := pgRoundUp_spec hsz.le
  induction n generalizing m D i with
  | zero => simp only [Nat.zero_mul, Nat.not_lt_zero] at hn
  | succ n ih =>
    rw [copyLoop]
    by_cases hlt : i < sz
    · rw [if_pos hlt]
      have hlt' : i < KERNBASE := hlt.trans hsz
      have hread : m.Owns P (S.cells + (D.cells + cs)) := by
        rw [add_left_comm]
        exact h
      refine wp_bind.mpr (wp_walk hread hroot (fun _ => hpte m) fun hdir => ?_)
      refine wp_bind.mpr (wp_loadEntry hread hdir ?_)
      refine wp_bind.mpr (wp_stopIf.mpr ⟨fun _ => hpresent m, fun _ => ?_⟩)
      refine wp_bind.mpr (wp_kalloc h (fun m₁ h₁ _ => ?_) fun f m₁ h₁ => ?_)
      · exact hfail D m₁ rfl h₁
      refine wp_bind.mpr (wp_bind.mpr (wp_modify.mpr ?_))
      have h₂ := (h₁.write (m₁.page (S.entry (pdx i) (ptx i)).addr)).forget
      refine wp_bind.mpr (wp_mapPage h₂ hd hi hlt' (hfree i le_rfl hlt')
        (fun m₃ h₃ _ => ?_) fun D₁ m₃ hD₁ _ h₃ => ?_)
      · exact wp_bind.mpr (wp_kfree h₃ fun m₄ h₄ => hfail D m₄ rfl h₄)
      rw [if_pos rfl]
      have hpage : ∀ b, b / PGSIZE = i / PGSIZE → i ≤ b ∧ b < i + PGSIZE ∧ b < pgRoundUp sz := by
        unfold PGSIZE at *
        omega
      refine ih h₃ (hD₁.root.trans hd) ?_ ?_ ?_ (fun D' m' hD' => ?_) fun D' m' hD' => ?_
      · unfold PGSIZE at *
        omega
      · intro b hb hb'
        have hbound : b < 2 ^ 32 := hb'.trans (by decide)
        rw [hD₁.pte b hbound fun hsame => by have := hpage b hsame; omega]
        exact hfree b (by omega) hb'
      · unfold PGSIZE at *
        omega
      · exact hfail D' m' (hD'.trans hD₁.root)
      · exact hok D' m' (hD₁.trans hD' (fun b hb => by have := hpage b hb; omega)
          fun b hb => by omega)
    · rw [if_neg hlt]
      exact hok D m .refl h

section
variable (h : m.Owns P (S.cells + cs))
include h

section
variable (hroot : S.root = pgdir)
include hroot

lemma wp_copyuvm {sz : ℕ} {Q : Option ℕ → Memory → Prop} (hsz : sz < KERNBASE)
    (hpte : ∀ m', E .copyuvmPte m')
    (hpresent : ∀ m', E .copyuvmPresent m') (hnone : ∀ m', m'.Owns P (S.cells + cs) → Q none m')
    (hsome : ∀ (D : Space) m', D.Fits sz → m'.Owns P (D.cells + (S.cells + cs)) →
      Q (some D.root) m') : wp (copyuvm P.layout pgdir sz) Q E m := by
  obtain ⟨-, -, -, htop⟩ := pgRoundUp_spec hsz.le
  refine wp_bind.mpr (wp_setupkvm h (fun m' h' _ => hnone m' h') fun D m' hD h' => ?_)
  refine wp_bind.mpr (wp_copyLoop h' rfl hroot (by decide) hsz
    (fun b _ => hD.empty b) ?_ hpte hpresent (fun D' m'' hD' h'' => ?_) fun D' m'' hD' h'' => ?_)
  · unfold TURNS NPDENTRIES NPTENTRIES PGSIZE KERNBASE at *
    omega
  · exact wp_bind.mpr (wp_freevm h'' hD' hnone)
  rw [if_pos rfl, ← hD'.root]
  refine hsome D' m'' ⟨hsz, fun b hb hb' => ?_, hD'.shut hD.shut fun b hb => by omega⟩ h''
  rw [hD'.pte b (hb'.trans (by decide)) (by omega)]
  exact hD.empty b hb'

lemma wp_loadLoop (htop : addr + sz ≤ KERNBASE) (hn : sz - i + PGSIZE - 1 < n * PGSIZE)
    (hpresent : ∀ b, addr ≤ b → b < addr + sz → (S.pte b).p = true)
    (hQ : ∀ b m', m'.Owns P (S.cells + cs) → Q b m') :
    wp (loadLoop pgdir addr sz readi n i) Q E m := by
  induction n generalizing m i with
  | zero => simp only [Nat.zero_mul, Nat.not_lt_zero] at hn
  | succ n ih =>
    rw [loadLoop]
    by_cases hlt : i < sz
    · rw [if_pos hlt]
      have hp := hpresent (addr + i) (by omega) (by omega)
      have hdir' := Space.dir_of_present hp
      refine wp_bind.mpr (wp_walk h hroot (fun hdir => ?_) fun hdir => ?_)
      · rw [hdir'] at hdir
        cases hdir
      refine wp_bind.mpr (wp_loadEntry h hdir ?_)
      rcases readi i with _ | f
      · exact hQ false m h
      refine wp_bind.mpr (wp_bind.mpr ?_)
      refine wp_fillUser h (by omega) hp _ fun m' h' => ih h' ?_
      unfold PGSIZE at *
      omega
    · rw [if_neg hlt]
      exact hQ true m h

lemma wp_loaduvm (haddr : addr % PGSIZE = 0) (htop : addr + sz ≤ KERNBASE)
    (hpresent : ∀ b, addr ≤ b → b < addr + sz → (S.pte b).p = true)
    (hQ : ∀ b m', m'.Owns P (S.cells + cs) → Q b m') : wp (loaduvm pgdir addr sz readi) Q E m := by
  refine wp_bind.mpr (wp_stopIf.mpr ⟨fun hbad => absurd haddr hbad, fun _ => ?_⟩)
  refine wp_loadLoop h hroot htop ?_ hpresent hQ
  unfold TURNS NPDENTRIES NPTENTRIES PGSIZE KERNBASE at *
  omega

lemma wp_clearpteu {va : ℕ} {Q : Unit → Memory → Prop} (hva : va < KERNBASE)
    (hp : (S.pte va).p = true) (hQ : ∀ S' m', S.Changes (fun b => b / PGSIZE = va / PGSIZE) S' →
      m'.Owns P (S'.cells + cs) → Q () m') : wp (clearpteu pgdir va) Q E m := by
  have hdir' := Space.dir_of_present hp
  have hext : S.Extends (pdx va) S := ⟨rfl, fun _ _ => rfl, fun _ => .inl⟩
  refine wp_bind.mpr (wp_walk h hroot (fun hdir => ?_) fun hdir => ?_)
  · rw [hdir'] at hdir
    cases hdir
  refine wp_bind.mpr (wp_loadEntry h hdir ?_)
  rw [Space.cells_entry (ptx va) hdir, cons_add] at h
  exact wp_storeEntry h hdir fun m' h' => hQ _ m' (hext.changes hdir (hva.trans (by decide)) _) h'

lemma wp_uva2ka {Q : Option ℕ → Memory → Prop} (hnull : ∀ m', E .null m') (hnone : Q none m)
    (hsome : (S.pte va).p = true → (S.pte va).u = true → Q (some (S.pte va).addr) m) :
    wp (uva2ka pgdir va) Q E m := by
  refine wp_bind.mpr (wp_walk h hroot (fun _ => hnull m) fun hdir => ?_)
  refine wp_bind.mpr (wp_loadEntry h hdir ?_)
  change wp (if (S.pte va).p = false then _ else if (S.pte va).u = false then _ else _) Q E m
  split
  case isTrue => exact hnone
  case isFalse hp =>
    split
    case isTrue => exact hnone
    case isFalse hu => exact hsome (by simpa using hp) (by simpa using hu)

lemma wp_copyout {put : ℕ → Page → Page} {len : ℕ} (hshut : S.Shut) (hva : va < 2 ^ 32)
    (hn : va % PGSIZE + len + PGSIZE - 1 < n * PGSIZE) (hnull : ∀ m', E .null m')
    (hQ : ∀ b m', m'.Owns P (S.cells + cs) → Q b m') : wp (copyout pgdir put n va len) Q E m := by
  induction n generalizing m va len with
  | zero => simp only [Nat.zero_mul, Nat.not_lt_zero] at hn
  | succ n ih =>
    rw [copyout]
    by_cases hlen : 0 < len
    · rw [if_pos hlen]
      refine wp_bind.mpr (wp_uva2ka h hroot hnull (hQ false m h) fun hp hu => ?_)
      have hdown : pgRoundDown va ≤ va := Nat.div_mul_le_self va PGSIZE
      have huser : pgRoundDown va < KERNBASE := by
        by_contra hkernel
        rw [hshut (pgRoundDown va) (by omega) (by omega)] at hu
        cases hu
      refine wp_bind.mpr (wp_bind.mpr ?_)
      refine wp_fillUser h huser hp _ fun m' h' => ih h' (Nat.mod_lt _ (by decide)) ?_
      unfold pgRoundDown PGSIZE KERNBASE at *
      omega
    · rw [if_neg hlen]
      exact hQ true m h

end
end

end Xv6.Vm
