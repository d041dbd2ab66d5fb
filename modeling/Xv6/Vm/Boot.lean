import Xv6.Vm.Calls

/-!
# The start of the kernel

`main` gives the allocator its pages in two steps, with the kernel's page table built
in between, and makes the first process. None of this can fail, and after it the books
are in order. They stay so in every state that system calls lead to.
-/

namespace Xv6.Vm
open Lib Exec Multiset
open Fs (NPROC NFILE NOFILE)

/-! ### The pages of the allocator -/

/-- The end of the memory that `entrypgdir` maps. -/
def entryEnd : ℕ := 0x80400000

lemma entryEnd_eq : KERNBASE + 4 * 1024 * 1024 = entryEnd := by decide

/-- The pages that `kinit1` and `kinit2` give to the allocator. -/
def givenPages (L : Layout) : List ℕ :=
  rangePages L.kernelEnd entryEnd ++ rangePages entryEnd (KERNBASE + PHYSTOP)

section Given
variable {L : Layout} {f : ℕ}

lemma mem_rangePages {vstart vend : ℕ} : f ∈ rangePages vstart vend ↔
      (pgRoundUp vstart - KERNBASE) / PGSIZE ≤ f ∧ f < (vend - KERNBASE) / PGSIZE := by
  simp only [rangePages, List.mem_range'_1]
  omega

lemma kernelEnd_spec (L : Layout) : KERNBASE ≤ L.kernelEnd ∧ L.kernelEnd ≤ pgRoundUp L.kernelEnd ∧
      pgRoundUp L.kernelEnd % PGSIZE = 0 ∧ pgRoundUp L.kernelEnd < L.kernelEnd + PGSIZE := by
  have := L.text_lt
  have := L.data_le
  have := L.end_le
  simp only [KERNLINK, KERNBASE, EXTMEM, PGSIZE, pgRoundUp] at *
  omega

lemma mem_givenPages :
    f ∈ givenPages L ↔ L.kernelEnd ≤ KERNBASE + PGSIZE * f ∧ PGSIZE * f < PHYSTOP := by
  obtain ⟨hbase, hle, hmod, hlt⟩ := kernelEnd_spec L
  have hend := L.end_le
  have hround : pgRoundUp entryEnd = entryEnd := by decide
  rw [givenPages, List.mem_append, mem_rangePages, mem_rangePages, hround]
  simp only [entryEnd, KERNBASE, PGSIZE, PHYSTOP] at *
  omega

lemma givenPages_nodup (L : Layout) : (givenPages L).Nodup := by
  have hround : pgRoundUp entryEnd = entryEnd := by decide
  rw [givenPages]
  refine List.Nodup.append (List.nodup_range' ..) (List.nodup_range' ..) fun f hf hf' => ?_
  obtain ⟨-, hhi⟩ := mem_rangePages.mp hf
  obtain ⟨hlo, -⟩ := mem_rangePages.mp hf'
  rw [hround] at hlo
  omega

/-- The pool of these pages. -/
@[simps]
def givenPool (L : Layout) (lucky : Prop) : Pool where
  layout := L
  stock := givenPages L
  valid := fun _ hf => mem_givenPages.mp (mem_coe.mp hf)
  lucky := lucky

lemma length_kinit1 (L : Layout) : 66 ≤ (rangePages L.kernelEnd entryEnd).length := by
  obtain ⟨hbase, hle, hmod, hlt⟩ := kernelEnd_spec L
  have hend := L.end_le
  simp only [rangePages, List.length_range', entryEnd, KERNBASE, PGSIZE] at *
  omega

lemma length_kinit2 : 131 ≤ (rangePages entryEnd (KERNBASE + PHYSTOP)).length := by
  have hround : pgRoundUp entryEnd = entryEnd := by decide
  rw [rangePages, List.length_range', hround]
  decide

end Given

/-- Pages with no known contents. -/
def raw (l : List ℕ) : Cells := (l : Multiset ℕ).map fun f => ⟨f, none⟩

@[simp]
lemma card_raw (l : List ℕ) : Multiset.card (raw l) = l.length := by simp [raw]

variable {l l' : List ℕ}

lemma card_raw_lt (h : 66 ≤ l.length) :
    Multiset.card (raw l' + 0) + 65 < Multiset.card ((l ++ l' : List ℕ) : Multiset ℕ) := by
  rw [add_zero, card_raw, coe_card, List.length_append]
  omega

lemma le_card_append {n n' : ℕ} (h : n ≤ l.length) (h' : n' ≤ l'.length) :
    n' + n ≤ Multiset.card ((l ++ l' : List ℕ) : Multiset ℕ) := by
  rw [coe_card, List.length_append]
  omega

lemma map_key_raw (l : List ℕ) : (raw l).map Cell.key = l := by
  rw [raw, map_map]
  exact map_id' _

section Start
variable {P : Pool} {V : View} {cs : Cells} {m : Memory} {k : Kernel} {S : Space} {L : Layout}
  {E : Stop → Memory → Prop}

variable {Q : Unit → Memory → Prop}

lemma wp_freerange {vstart vend : ℕ}
    (h : m.Owns P (raw (rangePages vstart vend) + cs)) (hQ : ∀ m', m'.Owns P cs → Q () m') :
    wp (freerange P.layout vstart vend) Q E m := by
  unfold freerange
  generalize rangePages vstart vend = l at h ⊢
  induction l generalizing m with
  | nil =>
    refine hQ m ?_
    simpa [raw] using h
  | cons f l ih =>
    have hcells : raw (f :: l) + cs = ⟨f, none⟩ ::ₘ (raw l + cs) := by
      simp [raw, ← cons_coe]
    rw [hcells] at h
    exact wp_bind.mpr (wp_kfree h fun m' h' => ih h')

/-- Before `kinit1` nothing is on the list. -/
lemma blank_owns (L : Layout) (page : ℕ → Page) :
    (blank page).mem.Owns (givenPool L True) (raw (rangePages L.kernelEnd entryEnd) +
      (raw (rangePages entryEnd (KERNBASE + PHYSTOP)) + 0)) where
  owned := by
    refine ⟨coe_nodup.mpr (givenPages_nodup L), ⟨[], rfl, ?_⟩, fun c hc => ?_⟩
    · simp only [map_add, map_key_raw, givenPool, givenPages, add_zero, coe_nil, zero_add, coe_add]
    intro b hb
    simp only [raw, add_zero, mem_add, mem_map] at hc
    obtain ⟨f, -, rfl⟩ | ⟨f, -, rfl⟩ := hc
    · cases hb
    · cases hb
  luck := fun _ _ => rfl

lemma wp_inituvm {init : Page} (h : m.Owns P (S.cells + cs)) (hlucky : P.lucky) (hfresh : S.Fresh)
    (hcard : Multiset.card (S.cells + cs) + 2 ≤ Multiset.card P.stock)
    (hQ : ∀ (S' : Space) m', S'.root = S.root → S'.Fits PGSIZE → m'.Owns P (S'.cells + cs) →
      Q () m') : wp (inituvm S.root init) Q E m := by
  refine wp_bind.mpr (wp_kalloc h (fun m₁ _ hfull => ?_) fun f m₁ h₁ => ?_)
  · have := hfull hlucky
    omega
  refine wp_bind.mpr (wp_modify.mpr ?_)
  have h₂ := (h₁.write zeroed).forget
  refine wp_bind.mpr (wp_mapPage h₂ rfl (by decide) (by decide)
    (hfresh.empty 0 (by decide)) (fun m₃ _ hfull => ?_) fun S' m₃ hS hpte h₃ => ?_)
  · have := hfull hlucky
    omega
  have hzero := hpte 0 (by decide) rfl
  have hfill := wp_fillUser (a := 0) (E := E) h₃ (by decide) (by rw [hzero]) init
    fun m' h' => hQ S' m' hS.root ?_ h'
  · rwa [hzero] at hfill
  refine ⟨by decide, fun b hb hb' => ?_, hS.shut hfresh.shut fun b hb => ?_⟩
  · have hround : pgRoundUp PGSIZE = PGSIZE := by decide
    rw [hround] at hb
    have hother : ¬ b / PGSIZE = 0 / PGSIZE := by
      unfold PGSIZE at *
      omega
    rw [hS.pte b (hb'.trans (by decide)) hother]
    exact hfresh.empty b hb'
  · unfold PGSIZE KERNBASE at *
    omega

/-- No slot of the process table and no file is used. -/
structure Kernel.Unused (k : Kernel) : Prop where
  state : ∀ p, (k.proc p).state = .unused
  ofile : ∀ p fd, (k.proc p).ofile fd = none
  ref : ∀ i, (k.file i).ref = 0

lemma Kernel.Unused.sound (h : k.Unused) (hV : k.Ledger P V 0) : k.Sound P where
  ledger := ⟨V, hV⟩
  counted i := by
    have hholds : ∀ q, (k.proc q).holds i = 0 := fun q => by simp [Proc.holds, tally, h.ofile]
    simp [h.ref, refs, tally, hholds]
  idle q _ fd := h.ofile q fd

/-- The first process. -/
@[simps]
def Proc.first (x : Proc) (pgdir : ℕ) : Proc :=
  { x with pgdir := some pgdir, sz := PGSIZE, state := .runnable }

lemma wp_userinit {initcode : Page} (h : k.Unused) (hV : k.Ledger P V 0) (hlucky : P.lucky)
    (hcard : Multiset.card (V.cells k.proc) + 68 ≤ Multiset.card P.stock) :
    wp (userinit P.layout initcode) (fun _ k' => k'.Sound P) (fun _ _ => False) k := by
  have hcard' : Multiset.card (V.cells k.proc + 0) + 68 ≤ Multiset.card P.stock := by
    simpa using hcard
  refine wp_bind.mpr (wp_allocproc hV.owns (fun hfull => ?_)
    (fun np x k' _ _ _ _ _ hfull => ?_) fun np x f k₁ hnp hx hkstack hofile hslot₁ h₁ => ?_)
  · exact absurd (h.state 0) (hfull 0)
  · have := hfull hlucky
    omega
  refine wp_bind.mpr (wp_bind.mpr (wp_modify.mpr ?_))
  have hslot : (k.setInitproc np).Slot np x (k₁.setInitproc np) :=
    ⟨hslot₁.proc, hslot₁.file, hslot₁.kpgdir, rfl, hslot₁.events⟩
  refine wp_bind.mpr (wp_onSlot hslot (wp_setupkvm h₁ (fun m₂ h₂ hfull => ?_)
    fun S m₂ hfresh h₂ k₂ hslot₂ hmem₂ => ?_))
  · have := hfull hlucky
    rw [card_cons] at this
    omega
  refine wp_bind.mpr (wp_modifySlot hslot₂ fun k₃ hslot₃ hmem₃ => ?_)
  rw [← hmem₂, ← hmem₃] at h₂
  refine wp_bind.mpr (wp_onSlot hslot₃ (wp_inituvm h₂ hlucky hfresh ?_
    fun S' m₄ hroot hfits h₄ k₄ hslot₄ hmem₄ => ?_))
  · have := hfresh.card
    rw [card_add, card_cons]
    omega
  refine wp_modifySlot hslot₄ fun k₅ hslot₅ hmem₅ => ?_
  rw [← hmem₄, ← hmem₅] at h₄
  have hfirst : (k.setInitproc np).Slot np (x.first S.root) k₅ := hslot₅
  have hbase : (k.setInitproc np).Ledger P V 0 := ⟨hV.owns, hV.kpgdir, hV.bare, hV.live, hV.plumbed⟩
  have hunused : (k.setInitproc np).Unused := ⟨h.state, h.ofile, h.ref⟩
  refine (hunused.sound hbase).slot hfirst
    ⟨_, hbase.replace (S := S') hfirst ?_ fun _ => ?_⟩ hofile ?_
  · have hcells : (x.first S.root).cells S' = {⟨f, none⟩} + S'.cells := by
      simp [Proc.cells, Proc.stack, hkstack]
    rw [hcells, Kernel.setInitproc_proc, ← View.cells_unused hnp, add_assoc, add_left_comm,
      singleton_add]
    exact h₄
  · exact ⟨by simp [hkstack], by simp [hroot], hfits⟩
  · intro hstate
    simp at hstate

/-- The books of a kernel without processes. -/
def kernelView (S : Space) : View := ⟨S, fun _ => S, 0, fun _ => zeroed⟩

lemma kernelView_cells (h : ∀ p, (k.proc p).state = .unused) :
    (kernelView S).cells k.proc = S.cells := by
  simp [View.cells, kernelView, Proc.cells, View.pipeCells, h]

lemma plumbed_blank : Plumbed (fun _ => {}) 0 (fun _ => zeroed) [] := by
  have hnone : ∀ f b, ¬ ({} : OpenFile).End f b := fun f b hend => hend.1 rfl
  refine ⟨fun _ _ => rfl, fun i f b hend => absurd hend (hnone f b),
    fun i j f b hend => absurd hend (hnone f b), fun i f b hend => absurd hend (hnone f b),
    fun f hf => ?_, fun f hf => ?_, fun f => ⟨.gone, rfl, fun b _ => hnone f b⟩⟩
  · simp at hf
  · simp at hf

lemma boot_sound (L : Layout) (initcode : Page) (page : ℕ → Page) :
    wp (boot L initcode) (fun _ k => k.Sound (givenPool L True)) (fun _ _ => False)
      (blank page) := by
  have hkinit1 : Multiset.card (raw (rangePages entryEnd (KERNBASE + PHYSTOP)) + 0) + 65 <
      Multiset.card (givenPool L True).stock := card_raw_lt (length_kinit1 L)
  have hkinit2 : 131 + 66 ≤ Multiset.card (givenPool L True).stock :=
    le_card_append (length_kinit1 L) length_kinit2
  unfold boot
  rw [entryEnd_eq]
  refine wp_bind.mpr (wp_onMem.mpr (wp_freerange (blank_owns L page) fun m₁ h₁ => ?_))
  refine wp_bind.mpr (wp_onMem.mpr (wp_setupkvm (P := givenPool L True) h₁
    (fun m₂ _ hfull => ?_) fun S m₂ hfresh h₂ => ?_))
  · exact absurd (hfull trivial) (Nat.not_le.mpr hkinit1)
  refine wp_bind.mpr (wp_modify.mpr ?_)
  refine wp_bind.mpr (wp_stopIf.mpr ⟨fun hnone => ?_, fun _ => ?_⟩)
  · exact absurd hnone (Option.some_ne_none _)
  rw [add_left_comm] at h₂
  refine wp_bind.mpr (wp_onMem.mpr (wp_freerange h₂ fun m₃ h₃ => ?_))
  have hcells : (kernelView S).cells (fun _ => {}) = S.cells :=
    kernelView_cells (k := blank page) fun _ => rfl
  refine wp_userinit (P := givenPool L True) (V := kernelView S)
    ⟨fun _ => rfl, fun _ _ => rfl, fun _ => rfl⟩
    ⟨?_, rfl, hfresh.empty, fun q hq => absurd rfl hq, plumbed_blank⟩ trivial ?_
  · change m₃.Owns _ ((kernelView S).cells (fun _ => {}) + 0)
    rwa [hcells]
  change Multiset.card ((kernelView S).cells fun _ => {}) + 68 ≤ _
  have := hfresh.card
  rw [hcells]
  omega

end Start

/-! ### Sequences of system calls -/

section Runs
variable {P : Pool} {k : Kernel}

lemma syscalls_sound (h : k.Sound P) (hlucky : ¬ P.lucky) (ops : List Request) :
    wp (Exec.each (syscall P.layout) ops) (fun _ k' => k'.Sound P) (fun e _ => e.Possible) k :=
  wp_each _ (fun _ k' => k'.Sound P) ops
    (fun _ r _ _ k' h' => syscall_sound (k := k') h' hlucky r) h

/-- The books do not depend on luck. -/
lemma Kernel.Sound.unlucky {L : Layout} {lucky : Prop} (h : k.Sound (givenPool L lucky)) :
    k.Sound (givenPool L False) := by
  obtain ⟨V, hV⟩ := h.ledger
  exact ⟨⟨V, ⟨hV.owns.owned, False.elim⟩, hV.kpgdir, hV.bare, hV.live, hV.plumbed⟩, h.counted,
    h.idle⟩

/-- What holds of every sound state holds after `main` and any system calls. -/
lemma run_sound {I : Kernel → Prop} {L : Layout}
    (hI : ∀ k : Kernel, k.Sound (givenPool L False) → I k) (initcode : Page) (page : ℕ → Page)
    (ops : List Request) : wp (boot L initcode)
      (fun _ => wp (Exec.each (syscall L) ops) (fun _ k => I k) (fun e _ => e.Possible))
      (fun _ _ => False) (blank page) := by
  refine wp_mono (boot_sound L initcode page) (fun _ k hk => ?_) fun _ _ => id
  exact wp_mono (syscalls_sound hk.unlucky id ops) (fun _ k' hk' => hI k' hk') fun _ _ => id

end Runs
end Xv6.Vm
