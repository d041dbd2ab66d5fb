import Xv6.Vm.Kernel
import Xv6.Vm.Ranges

/-!
# `sbrk`

What `sys_sbrk` does to the size and to the pages of a process.
-/

namespace Xv6.Vm
open Lib Exec
open Fs (NPROC NFILE NOFILE)

section Sbrk
variable {P : Pool} {k : Kernel} {p : Fin NPROC} {cs : Cells} {S : Space} {n : Int32}
  {E : Stop → Kernel → Prop} {α : Type}

variable {Q : α → Kernel → Prop}

lemma wp_onMem {x : Code α} :
    wp (onMem x) Q E k ↔ wp x (fun a m => Q a (k.setMem m)) (fun e m => E e (k.setMem m)) k.mem :=
  wp_zoom

/-- The process with another size. -/
@[simps]
def Proc.resize (x : Proc) (sz : ℕ) : Proc := { x with sz := sz }

lemma wp_switchuvm {Q : Unit → Kernel → Prop} (hkstack : (k.proc p).kstack ≠ none)
    (hpgdir : (k.proc p).pgdir ≠ none) (hQ : Q () k) : wp (switchuvm p) Q E k :=
  wp_bind.mpr (wp_stopIf.mpr ⟨fun h => (h.elim hkstack hpgdir).elim, fun _ => hQ⟩)

lemma wp_getProc {Q : Proc → Kernel → Prop} : wp (getProc p) Q E k ↔ Q (k.proc p) k := Iff.rfl

lemma wp_deref {a : α} {o : Option α} (ho : o = some a) (hQ : Q a k) : wp (deref o) Q E k := by
  subst ho
  exact hQ

lemma wp_growproc {Q : Bool → Kernel → Prop} (h : k.mem.Owns P (S.cells + cs))
    (hpgdir : (k.proc p).pgdir = some S.root) (hkstack : (k.proc p).kstack ≠ none)
    (hsz : (k.proc p).sz < KERNBASE)
    (hfree : ∀ b, pgRoundUp (k.proc p).sz ≤ b → b < KERNBASE → (S.pte b).p = false)
    (hgrow : ∀ (sz' : ℕ) S' m', 0 < n.toInt → (sz' : ℤ) = (k.proc p).sz + n.toInt → sz' < KERNBASE →
      S.Fills (pgRoundUp (k.proc p).sz) (pgRoundUp sz') S' → m'.Owns P (S'.cells + cs) →
      Q true ((k.setMem m').setProc p ((k.proc p).resize sz')))
    (hfail : ∀ sz' S' m', 0 < n.toInt → sz' < KERNBASE →
      S.Clears (pgRoundUp (k.proc p).sz) (pgRoundUp sz') S' → m'.Owns P (S'.cells + cs) →
      Q false (k.setMem m'))
    (hshrink : ∀ (sz' : ℕ) S' m', n.toInt < 0 → (sz' : ℤ) = (k.proc p).sz + n.toInt → 0 < sz' →
      S.Clears (pgRoundUp sz') (pgRoundUp (k.proc p).sz) S' → m'.Owns P (S'.cells + cs) →
      Q true ((k.setMem m').setProc p ((k.proc p).resize sz')))
    (hgone : ∀ S' m', 0 < (k.proc p).sz → (k.proc p).sz + n.toInt = 0 →
      S.Clears 0 (pgRoundUp (k.proc p).sz) S' → m'.Owns P (S'.cells + cs) → Q false (k.setMem m'))
    (hsame : n.toInt = 0 ∨ 0 < (k.proc p).sz ∧ (k.proc p).sz + n.toInt < 0 →
      Q true (k.setProc p ((k.proc p).resize (k.proc p).sz)))
    (hzero : n.toInt < 0 → (k.proc p).sz = 0 → Q false k) : wp (growproc P.layout p n) Q E k := by
  have hlo := n.le_toInt
  have hhi := n.toInt_lt
  have hpgdir' : (k.proc p).pgdir ≠ none := by simp [hpgdir]
  have hbase : KERNBASE = 2 ^ 31 := rfl
  refine wp_bind.mpr (wp_getProc.mpr ?_)
  refine wp_bind.mpr (wp_deref hpgdir ?_)
  -- the size that is found is stored
  have hstore : ∀ sz' m', 0 < sz' ∨ n.toInt = 0 →
      Q true ((k.setMem m').setProc p ((k.proc p).resize sz')) →
      wp (if n ≠ 0 ∧ sz' = 0 then return false else do
          modifyProc p fun x => { x with sz := sz' }
          switchuvm p
          return true) Q E (k.setMem m') := by
    intro sz' m' hpos hQ
    rw [if_neg]
    · refine wp_bind.mpr (wp_modify.mpr ?_)
      exact wp_bind.mpr (wp_switchuvm (by simpa using hkstack) (by simpa using hpgdir') hQ)
    · rintro ⟨hn, rfl⟩
      exact hn (Int32.toInt_inj.mp (by simpa using hpos))
  have hnone : ∀ m', Q false (k.setMem m') → n.toInt ≠ 0 → wp (if n ≠ 0 ∧ 0 = 0 then return false
        else do
          modifyProc p fun x => { x with sz := 0 }
          switchuvm p
          return true) Q E (k.setMem m') := by
    intro m' hQ hn
    rw [if_pos ⟨fun h0 => hn (by rw [h0]; rfl), rfl⟩]
    exact hQ
  have hpos : 0 < n ↔ 0 < n.toInt := Int32.lt_iff_toInt_lt
  have hneg : n < 0 ↔ n.toInt < 0 := Int32.lt_iff_toInt_lt
  rcases lt_trichotomy 0 n.toInt with hn | hn | hn
  · -- growth
    obtain ⟨sz', hsz', hplus⟩ : ∃ sz' : ℕ, (sz' : ℤ) = (k.proc p).sz + n.toInt ∧
        plus (k.proc p).sz n = sz' := by
      refine ⟨plus (k.proc p).sz n, ?_, rfl⟩
      unfold plus
      omega
    rw [if_pos (hpos.mpr hn), hplus]
    refine wp_bind.mpr (wp_onMem.mpr (wp_allocuvm h rfl ?_ ?_ ?_ ?_ ?_))
    · intro hlt b hlo hb
      exact hfree b hlo (hb.trans_le (pgRoundUp_spec hlt.le).2.2.2)
    · intro _
      exact hnone k.mem (hfail _ S k.mem hn hsz (.empty le_rfl) h) hn.ne'
    · omega
    · intro hlt hle S' m' hS h'
      exact hnone m' (hfail sz' S' m' hn hlt hS h') hn.ne'
    · intro hlt hle S' m' hS h'
      exact hstore sz' m' (by omega) (hgrow sz' S' m' hn hsz' hlt hS h')
  · -- nothing to do
    rw [if_neg (hpos.not.mpr (by omega)), if_neg (hneg.not.mpr (by omega))]
    exact wp_bind.mpr (hstore _ k.mem (.inr hn.symm) (hsame (.inl hn.symm)))
  -- shrinking
  rw [if_neg (hpos.not.mpr (by omega)), if_pos (hneg.mpr hn)]
  refine wp_bind.mpr (wp_onMem.mpr (wp_deallocuvm h rfl hsz.le ?_ ?_))
  · intro hle
    unfold plus at hle
    rcases Nat.eq_zero_or_pos (k.proc p).sz with h0 | h0
    · rw [h0]
      exact hnone k.mem (hzero hn h0) hn.ne
    · exact hstore _ k.mem (.inl h0) (hsame (.inr ⟨h0, by omega⟩))
  intro hlt S' m' hS h'
  have hplus : (plus (k.proc p).sz n : ℤ) = (k.proc p).sz + n.toInt := by
    unfold plus at hlt ⊢
    omega
  rcases Nat.eq_zero_or_pos (plus (k.proc p).sz n) with h0 | h0
  · rw [h0] at hS hplus ⊢
    exact hnone m' (hgone S' m' (by omega) hplus.symm hS h') hn.ne
  · exact hstore _ m' (.inl h0) (hshrink _ S' m' hn hplus h0 hS h')

end Sbrk

/-! ### The contract of `sbrk` -/

/-- The entry for an address in a page directory. -/
def Memory.pte (m : Memory) (pgdir va : ℕ) : Word :=
  if (m.page pgdir (pdx va)).p then m.page (m.page pgdir (pdx va)).addr (ptx va) else {}

namespace Kernel

/-- A page of the process is present. -/
def Present (k : Kernel) (p : Fin NPROC) (va : ℕ) : Prop :=
  ∃ pgdir, (k.proc p).pgdir = some pgdir ∧ (k.mem.pte pgdir va).p = true

/-- The pages of the process are those below its size. -/
structure Paged (k : Kernel) (p : Fin NPROC) : Prop where
  sz_lt : (k.proc p).sz < KERNBASE
  present : ∀ va < KERNBASE, k.Present p va ↔ va < pgRoundUp (k.proc p).sz

/-- The process has a kernel stack, and an address space whose pages nobody else has. -/
def Intact (L : Layout) (k : Kernel) (p : Fin NPROC) : Prop :=
  ∃ (P : Pool) (S : Space) (cs : Cells), P.layout = L ∧ k.mem.Owns P (S.cells + cs) ∧
    (k.proc p).pgdir = some S.root ∧ (k.proc p).kstack ≠ none

end Kernel

/-- `sbrk` returns the old size and moves it by `n`, or it returns -1 and changes nothing. -/
def SbrkResult (k : Kernel) (p : Fin NPROC) (n r : Int32) (k' : Kernel) : Prop :=
  r.toInt = (k.proc p).sz ∧ ((k'.proc p).sz : ℤ) = (k.proc p).sz + n.toInt ∧
      (k'.proc p).sz < KERNBASE ∨
    r = -1 ∧ (k'.proc p).sz = (k.proc p).sz ∧ ∀ va < KERNBASE, k'.Present p va ↔ k.Present p va

/-- What `sbrk` promises. -/
def SbrkContract (L : Layout) (k : Kernel) (p : Fin NPROC) (n : Int32) : Prop :=
  wp (sysSbrk L p (some n)) (fun r k' => SbrkResult k p n r k' ∧ k'.Paged p) (fun _ _ => False) k

section Contract
variable {P : Pool} {m : Memory} {k : Kernel} {p : Fin NPROC} {cs : Cells} {S : Space} {n : Int32}
  {sz : ℕ} {L : Layout}

lemma Memory.Owns.pte (h : m.Owns P (S.cells + cs)) (va : ℕ) : m.pte S.root va = S.pte va := by
  unfold Memory.pte
  rw [h.dir, Space.pte, Space.entry]
  split
  · rw [h.row ‹_›]
  · rfl

lemma Kernel.present_iff (h : k.mem.Owns P (S.cells + cs))
    (hpgdir : (k.proc p).pgdir = some S.root) (va : ℕ) : k.Present p va ↔ (S.pte va).p = true := by
  simp [Present, hpgdir, h.pte]

lemma wp_sysSbrk {Q : Int32 → Kernel → Prop} {E : Stop → Kernel → Prop} (h : wp (growproc L p n)
      (fun b k' => if b then Q (Int32.ofNat (k.proc p).sz) k' else Q (-1) k') E k) :
    wp (sysSbrk L p (some n)) Q E k := by
  refine wp_bind.mpr (wp_getProc.mpr (wp_bind.mpr ?_))
  refine wp_mono h (fun b k' hQ => ?_) fun _ _ => id
  cases b with
  | false => exact hQ
  | true => exact hQ

lemma Kernel.paged_of (h : k.mem.Owns P (S.cells + cs))
    (hpgdir : (k.proc p).pgdir = some S.root) (hsz : (k.proc p).sz < KERNBASE)
    (hS : S.Covers (k.proc p).sz) : k.Paged p :=
  ⟨hsz, fun va hva => (Kernel.present_iff h hpgdir va).trans (hS va hva)⟩

lemma Kernel.Paged.covers (hp : k.Paged p) (h : k.mem.Owns P (S.cells + cs))
    (hpgdir : (k.proc p).pgdir = some S.root) : S.Covers (k.proc p).sz := fun va hva =>
  (Kernel.present_iff h hpgdir va).symm.trans (hp.present va hva)

lemma toInt_ofNat_size (h : sz < KERNBASE) : (Int32.ofNat sz).toInt = sz :=
  Int32.toInt_ofNat_of_lt (h.trans_le (by decide))

lemma sbrk_moved {m' : Memory} {S' : Space} {sz' : ℕ} (hsz : (k.proc p).sz < KERNBASE)
    (hpgdir : (k.proc p).pgdir = some S.root) (h' : m'.Owns P (S'.cells + cs))
    (hroot : S'.root = S.root) (hS' : S'.Covers sz') (hlt : sz' < KERNBASE)
    (hsz' : (sz' : ℤ) = (k.proc p).sz + n.toInt) :
    SbrkResult k p n (Int32.ofNat (k.proc p).sz) ((k.setMem m').setProc p ((k.proc p).resize sz')) ∧
      ((k.setMem m').setProc p ((k.proc p).resize sz')).Paged p := by
  refine ⟨.inl ⟨toInt_ofNat_size hsz, ?_, ?_⟩, Kernel.paged_of h' ?_ ?_ ?_⟩
  · simpa using hsz'
  · simpa using hlt
  · simpa [hroot] using hpgdir
  · simpa using hlt
  · simpa using hS'

/-- The contract when nothing happens in the end. -/
lemma sbrk_refused {m' : Memory} {S' : Space} (hp : k.Paged p)
    (hpgdir : (k.proc p).pgdir = some S.root) (h' : m'.Owns P (S'.cells + cs))
    (hroot : S'.root = S.root) (hS' : S'.Covers (k.proc p).sz) :
    SbrkResult k p n (-1) (k.setMem m') ∧ (k.setMem m').Paged p := by
  have hpaged : (k.setMem m').Paged p :=
    Kernel.paged_of h' (by simpa [hroot] using hpgdir) hp.sz_lt hS'
  exact ⟨.inr ⟨rfl, rfl, fun va hva => (hpaged.present va hva).trans (hp.present va hva).symm⟩,
    hpaged⟩

lemma sbrk_keeps (h : k.Intact L p) (hp : k.Paged p)
    (hn : 0 ≤ n.toInt ∨ 0 < (k.proc p).sz + n.toInt ∨ (k.proc p).sz = 0) :
    SbrkContract L k p n := by
  obtain ⟨P, S, cs, rfl, h, hpgdir, hkstack⟩ := h
  have hsz := hp.sz_lt
  have hS := hp.covers h hpgdir
  refine wp_sysSbrk (wp_growproc h hpgdir hkstack hsz (fun b => hS.absent) ?_ ?_ ?_ ?_ ?_ ?_)
  · intro sz' S' m' hpos hsz' hlt hfills h'
    exact sbrk_moved hsz hpgdir h' hfills.root (hS.grow (by omega) hlt hfills) hlt hsz'
  · intro sz' S' m' _ _ hclears h'
    exact sbrk_refused hp hpgdir h' hclears.root (hS.fail hclears)
  · intro sz' S' m' hneg hsz' _ hclears h'
    exact sbrk_moved hsz hpgdir h' hclears.root (hS.shrink (by omega) hsz hclears) (by omega) hsz'
  · intro S' m' hpos hzero
    omega
  · intro hzero
    exact sbrk_moved hsz hpgdir h rfl hS hsz (by omega)
  · intro _ _
    exact sbrk_refused hp hpgdir h rfl hS

/-- Everything is given back, or nothing although the size cannot be reached. -/
lemma sbrk_breaks (h : k.Intact L p) (hp : k.Paged p) (hpos : 0 < (k.proc p).sz)
    (hn : (k.proc p).sz + n.toInt ≤ 0) : ¬ SbrkContract L k p n := by
  obtain ⟨P, S, cs, rfl, h, hpgdir, hkstack⟩ := h
  have hsz := hp.sz_lt
  have hS := hp.covers h hpgdir
  have hr := toInt_ofNat_size hsz
  have hminus : (-1 : Int32).toInt = -1 := by decide
  have hbad : wp (sysSbrk P.layout p (some n)) (fun r k' => ¬ SbrkResult k p n r k')
      (fun _ _ => True) k := by
    refine wp_sysSbrk (wp_growproc h hpgdir hkstack hsz (fun b => hS.absent) ?_ ?_ ?_ ?_ ?_ ?_)
    · omega
    · omega
    · omega
    · rintro S' m' - hzero hclears h' (⟨hold, -⟩ | ⟨-, -, hsame⟩)
      · omega
      -- the first page was present
      have hup := (pgRoundUp_spec hsz.le).2.1
      have hfirst := (hsame 0 (by decide)).mpr ((hp.present 0 (by decide)).mpr (by omega))
      rw [Kernel.present_iff h' (by simpa [hclears.root] using hpgdir)] at hfirst
      have hgone := hclears.sets 0 le_rfl (by omega)
      rw [hgone] at hfirst
      cases hfirst
    · rintro hneg (⟨-, hmoved, -⟩ | ⟨hold, -⟩)
      · simp only [Kernel.setProc_proc, Function.update_self, Proc.resize_sz] at hmoved
        omega
      · rw [hold] at hr
        omega
    · omega
  intro hcontract
  exact wp_absurd hcontract hbad (fun r k' hresult => not_not_intro hresult.1) fun _ _ => False.elim

theorem sbrk_contract_iff (h : k.Intact L p) (hp : k.Paged p) :
    SbrkContract L k p n ↔ 0 ≤ n.toInt ∨ 0 < (k.proc p).sz + n.toInt ∨ (k.proc p).sz = 0 := by
  refine ⟨fun hcontract => ?_, sbrk_keeps h hp⟩
  by_contra hn
  exact sbrk_breaks h hp (by omega) (by omega) hcontract

end Contract

/-! ### A process with one page -/

/-- Where a kernel may lie. -/
def someLayout : Layout where
  data := 0x80108000
  kernelEnd := 0x80116000
  data_aligned := by decide
  text_lt := by decide
  data_le := by decide
  end_le := by decide

section
attribute [local instance] neZero_words

/-- An address space with one page, at address 0. -/
def onePage : Space where
  root := 512
  dir := Function.update zeroed 0 { addr := 513, p := true, w := true, u := true }
  row := fun _ => Function.update zeroed 0 { addr := 514, p := true, w := true, u := true }

/-- A kernel with one process, and no page to give away. -/
def oneProcess : Kernel where
  mem :=
    { page := fun f => if f = 512 then onePage.dir else onePage.row 0
      freelist := none
      fate := fun _ => true }
  kpgdir := none
  proc := Function.update (fun _ => {}) 0
    { sz := 4096, pgdir := some 512, kstack := some 515, state := .runnable }
  initproc := none
  nextpid := 2
  file := fun _ => {}
  events := []

end

def onePool : Pool where
  layout := someLayout
  stock := {512, 513, 514, 515}
  valid := by decide
  lucky := False

lemma onePage_cells :
    onePage.cells = {⟨512, some onePage.dir⟩, ⟨513, some (onePage.row 0)⟩, ⟨514, none⟩} := by
  have hrow : ∑ j, leafAt 0 (onePage.row 0 j) = {⟨514, none⟩} := by
    rw [Finset.sum_eq_single 0]
    · simp [onePage, leafAt, leaf]
    · intro j _ hj
      simp [onePage, hj, zeroed, leafAt, leaf]
    · simp
  have hdir : ∑ i, branch i (onePage.dir i) (onePage.row i) =
      {⟨513, some (onePage.row 0)⟩, ⟨514, none⟩} := by
    rw [Finset.sum_eq_single 0]
    · rw [branch, hrow]
      simp [onePage]
    · intro i _ hi
      simp [onePage, hi, zeroed, branch]
    · simp
  rw [Space.cells, hdir]
  rfl

lemma oneProcess_owns : oneProcess.mem.Owns onePool (onePage.cells + {⟨515, none⟩}) := by
  rw [onePage_cells]
  refine ⟨⟨by decide, ⟨[], rfl, by decide⟩, ?_⟩, False.elim⟩
  intro c hc
  simp only [Multiset.insert_eq_cons, Multiset.cons_add, Multiset.singleton_add, Multiset.mem_cons,
    Multiset.mem_singleton] at hc
  rcases hc with rfl | rfl | rfl | rfl
  · rintro _ ⟨⟩
    rfl
  · rintro _ ⟨⟩
    rfl
  · rintro _ ⟨⟩
  · rintro _ ⟨⟩

lemma oneProcess_intact : oneProcess.Intact someLayout 0 :=
  ⟨onePool, onePage, _, rfl, oneProcess_owns, rfl, by simp [oneProcess]⟩

lemma onePage_covers : onePage.Covers 4096 := by
  intro va hva
  have hpte : (onePage.pte va).p = true ↔ pdx va = 0 ∧ ptx va = 0 := by
    by_cases hi : pdx va = 0
    · by_cases hj : ptx va = 0
      · simp [Space.pte, Space.entry, onePage, hi, hj]
      · simp [Space.pte, Space.entry, onePage, hi, hj, zeroed]
    · simp [Space.pte, Space.entry, onePage, hi, zeroed]
  rw [hpte]
  simp only [pdx, ptx, pgRoundUp, PGSIZE, KERNBASE, Fin.ext_iff, Fin.val_zero] at *
  omega

lemma oneProcess_paged : oneProcess.Paged 0 :=
  Kernel.paged_of oneProcess_owns rfl (by decide) onePage_covers

theorem sbrk_contract_onePage : oneProcess.Intact someLayout 0 ∧ oneProcess.Paged 0 ∧
    SbrkContract someLayout oneProcess 0 4096 :=
  ⟨oneProcess_intact, oneProcess_paged,
    (sbrk_contract_iff oneProcess_intact oneProcess_paged).mpr (.inl (by decide))⟩

/-- `sbrk(-sz)` returns -1 and has freed every page. -/
theorem sbrk_minus_size_breaks : oneProcess.Intact someLayout 0 ∧ oneProcess.Paged 0 ∧
    ¬ SbrkContract someLayout oneProcess 0 (-4096) :=
  ⟨oneProcess_intact, oneProcess_paged,
    sbrk_breaks oneProcess_intact oneProcess_paged (by decide) (by decide)⟩

end Xv6.Vm
