import Xv6.Lib.Spread
import Xv6.Vm.Boot

/-!
# Every page in one place

Between system calls each page that the allocator was given is on the free list, in a
page table, a kernel stack or a user page of a process, in the kernel's page table, or
it is a pipe, and it is only one of these.

## Implementation notes

A place is looked up in the memory itself: the free list by its links, and a page table
by the entries that are present, from the pointer that the kernel has for its directory.
-/

namespace Xv6.Vm
open Lib
open Fs (NPROC NFILE NOFILE)

/-- The places for a page. -/
inductive Place
  /-- The free list. -/
  | free (n : ℕ)
  | kpgdir
  /-- A page table of `kpgdir`. -/
  | kpgtab (i : Fin 1024)
  | kstack (p : Fin NPROC)
  | pgdir (p : Fin NPROC)
  | pgtab (p : Fin NPROC) (i : Fin 1024)
  /-- A page of the user. -/
  | user (p : Fin NPROC) (i j : Fin 1024)
  | pipe

/-- The entry is present and leads to the page. -/
def Word.LeadsTo (w : Word) (f : ℕ) : Prop := w.p = true ∧ f = w.addr

/-- Page `f` is in a place. -/
def Kernel.At (k : Kernel) (f : ℕ) : Place → Prop
  | .free n => walk Page.next k.mem.page k.mem.freelist n = some f
  | .kpgdir => k.kpgdir = some f
  | .kpgtab i => ∃ d, k.kpgdir = some d ∧ (k.mem.page d i).LeadsTo f
  | .kstack p => (k.proc p).state ≠ .unused ∧ (k.proc p).kstack = some f
  | .pgdir p => (k.proc p).state ≠ .unused ∧ (k.proc p).pgdir = some f
  | .pgtab p i => (k.proc p).state ≠ .unused ∧ ∃ d, (k.proc p).pgdir = some d ∧
      (k.mem.page d i).LeadsTo f
  | .user p i j => (k.proc p).state ≠ .unused ∧ i.val < 512 ∧ ∃ d t, (k.proc p).pgdir = some d ∧
      (k.mem.page d i).LeadsTo t ∧ (k.mem.page t j).LeadsTo f
  | .pipe => ∃ i, (k.file i).ref ≠ 0 ∧ (k.file i).type = .pipe ∧ (k.file i).pipe = f

/-- Each page of the allocator is in one place, and no other page is in any. -/
structure Kernel.Conserved (L : Layout) (k : Kernel) : Prop where
  one : ∀ f ∈ givenPages L, ∃! a, k.At f a
  only : ∀ f a, k.At f a → f ∈ givenPages L

/-! ### Where the pages are -/

section Pages
variable {P : Pool} {V : View} {cs : Cells} {k : Kernel} {S : Space} {x : Proc}

/-- The pages themselves. -/
def keys : Cells →+ Multiset ℕ := Multiset.mapAddMonoidHom Cell.key

lemma keys_cons (c : Cell ℕ Page) (cs : Cells) : keys (c ::ₘ cs) = {c.key} + keys cs := by
  rw [← Multiset.singleton_add, map_add]
  rfl

lemma keys_ite (c : Prop) [Decidable c] (cs : Cells) :
    keys (if c then cs else 0) = if c then keys cs else 0 := by
  rw [apply_ite keys, map_zero]

lemma keys_singleton (f : ℕ) (v : Option Page) : keys {⟨f, v⟩} = {f} := rfl

lemma spread_leafAt (i : Fin 1024) (w : Word) :
    Spread (fun (_ : Unit) f => i.val < 512 ∧ w.LeadsTo f) (keys (leafAt i w)) := by
  rw [leafAt, leaf, keys_ite, keys_ite, keys_singleton]
  exact .ite (.ite (.singleton _))

lemma spread_branch (i : Fin 1024) (pde : Word) (pg : Page) :
    Spread (fun a f => pde.p = true ∧ Sum.elim (fun (_ : Unit) f => f = pde.addr)
      (fun (b : Fin 1024 × Unit) f => i.val < 512 ∧ (pg b.1).LeadsTo f) a f)
      (keys (branch i pde pg)) := by
  rw [branch, keys_ite, keys_cons, map_sum]
  exact .ite (.add (.singleton _) (.sum fun j => spread_leafAt i (pg j)))

lemma Space.spread_cells (S : Space) : Spread (Sum.elim (fun (_ : Unit) f => f = S.root)
      (fun (a : Fin 1024 × (Unit ⊕ Fin 1024 × Unit)) f => (S.dir a.1).p = true ∧
        Sum.elim (fun (_ : Unit) f => f = (S.dir a.1).addr)
          (fun (b : Fin 1024 × Unit) f => a.1.val < 512 ∧ (S.row a.1 b.1).LeadsTo f) a.2 f))
      (keys S.cells) := by
  rw [Space.cells, keys_cons, map_sum]
  exact .add (.singleton _) (.sum fun i => spread_branch i (S.dir i) (S.row i))

lemma Space.spread_bare (h : ∀ b < KERNBASE, (S.pte b).p = false) :
    Spread (Sum.elim (fun (_ : Unit) f => f = S.root)
      (fun (a : Fin 1024 × Unit) f => (S.dir a.1).LeadsTo f)) (keys S.cells) := by
  rw [Space.cells_of_empty h, keys_cons, map_sum]
  refine .add (.singleton _) (.sum (R := fun i (_ : Unit) f => (S.dir i).LeadsTo f) fun i => ?_)
  rw [table, keys_ite, keys_singleton]
  exact .ite (.singleton _)

lemma Proc.spread_stack (x : Proc) :
    Spread (fun (_ : Unit) f => x.kstack = some f) (keys x.stack) := by
  unfold Proc.stack
  cases x.kstack with
  | none => exact ⟨by simp, fun _ _ _ _ _ _ => rfl⟩
  | some f => exact ⟨by simp [keys_singleton, eq_comm], fun _ _ _ _ _ _ => rfl⟩

lemma Proc.spread_cells (x : Proc) (S : Space) :
    Spread (fun a f => x.state ≠ .unused ∧ Sum.elim (fun (_ : Unit) f => x.kstack = some f)
      (Sum.elim (fun (_ : Unit) f => f = S.root)
        (fun (a : Fin 1024 × (Unit ⊕ Fin 1024 × Unit)) f => (S.dir a.1).p = true ∧
          Sum.elim (fun (_ : Unit) f => f = (S.dir a.1).addr)
            (fun (b : Fin 1024 × Unit) f => a.1.val < 512 ∧ (S.row a.1 b.1).LeadsTo f) a.2 f)) a f)
      (keys (x.cells S)) := by
  rw [Proc.cells, ← ite_not, keys_ite, map_add]
  exact .ite (.add x.spread_stack S.spread_cells)

lemma View.keys_pipeCells (V : View) : keys V.pipeCells = V.pipes := by
  change (V.pipes.map _).map Cell.key = V.pipes
  rw [Multiset.map_map]
  exact Multiset.map_id' _

/-- The places in the order of the books. -/
def Place.toSum : Place → ℕ ⊕ (Unit ⊕ Fin 1024 × Unit) ⊕
    (Fin NPROC × (Unit ⊕ Unit ⊕ Fin 1024 × (Unit ⊕ Fin 1024 × Unit))) ⊕ Unit
  | free n => .inl n
  | kpgdir => .inr (.inl (.inl ()))
  | kpgtab i => .inr (.inl (.inr (i, ())))
  | kstack p => .inr (.inr (.inl (p, .inl ())))
  | pgdir p => .inr (.inr (.inl (p, .inr (.inl ()))))
  | pgtab p i => .inr (.inr (.inl (p, .inr (.inr (i, .inl ())))))
  | user p i j => .inr (.inr (.inl (p, .inr (.inr (i, .inr (j, ()))))))
  | pipe => .inr (.inr (.inr ()))

lemma Place.toSum_injective : Function.Injective Place.toSum := by
  intro a b h
  cases a <;> cases b <;> simp_all [toSum]

lemma Place.toSum_surjective : Function.Surjective Place.toSum := by
  rintro (n | (⟨⟩ | ⟨i, ⟨⟩⟩) | ⟨p, ⟨⟩ | ⟨⟩ | ⟨i, ⟨⟩ | ⟨j, ⟨⟩⟩⟩⟩ | ⟨⟩)
  · exact ⟨.free n, rfl⟩
  · exact ⟨.kpgdir, rfl⟩
  · exact ⟨.kpgtab i, rfl⟩
  · exact ⟨.kstack p, rfl⟩
  · exact ⟨.pgdir p, rfl⟩
  · exact ⟨.pgtab p i, rfl⟩
  · exact ⟨.user p i j, rfl⟩
  · exact ⟨.pipe, rfl⟩

lemma Kernel.Ledger.kernelDir (h : k.Ledger P V cs) :
    k.mem.page V.kernel.root = V.kernel.dir := by
  have howns := h.owns
  unfold View.cells at howns
  rw [add_assoc] at howns
  exact howns.dir

lemma Kernel.Ledger.leadsTo_iff {p : Fin NPROC} {i : Fin 1024} {R : ℕ → Prop}
    (h : k.Ledger P V cs) (hp : (k.proc p).state ≠ .unused) :
    (∃ d, (k.proc p).pgdir = some d ∧ ∃ t, (k.mem.page d i).LeadsTo t ∧ R t) ↔
      ((V.space p).dir i).p = true ∧ R ((V.space p).dir i).addr := by
  have hpgdir := (h.live p hp).2.1
  have hdir := (h.space hp).dir
  constructor
  · rintro ⟨d, hd, t, ⟨hpresent, rfl⟩, hR⟩
    obtain rfl := Option.some.inj (hpgdir.symm.trans hd)
    rw [hdir] at hpresent hR
    exact ⟨hpresent, hR⟩
  rintro ⟨hpresent, hR⟩
  refine ⟨_, hpgdir, _, ⟨?_, rfl⟩, ?_⟩
  · rwa [hdir]
  · rwa [hdir]

lemma Kernel.Ledger.spread (h : k.Ledger P V 0) : Spread (fun a f => k.At f a) P.stock := by
  obtain ⟨l, hchain, hl⟩ := h.owns.owned.split
  have hstock : (l : Multiset ℕ) + (keys V.kernel.cells +
      (∑ q, keys ((k.proc q).cells (V.space q)) + V.pipes)) = P.stock := by
    rw [← hl, ← V.keys_pipeCells, ← map_sum, ← map_add, ← map_add, add_zero]
    unfold View.cells
    rfl
  rw [← hstock]
  refine Spread.rename (.add (.list l) (.add (Space.spread_bare h.bare)
    (.add (.sum fun q => (k.proc q).spread_cells (V.space q)) (.all V.pipes)))) Place.toSum
    Place.toSum_injective Place.toSum_surjective fun a f => ?_
  cases a with
  | free n =>
    change _ ↔ l[n]? = some f
    rw [hchain.getElem?_eq]
    rfl
  | kpgdir =>
    change k.kpgdir = some f ↔ f = V.kernel.root
    rw [h.kpgdir, Option.some_inj, eq_comm]
  | kpgtab i =>
    change _ ↔ (V.kernel.dir i).LeadsTo f
    rw [← h.kernelDir]
    simp [At, h.kpgdir]
  | kstack p => exact Iff.rfl
  | pgdir p =>
    refine and_congr_right fun hp => ?_
    change (k.proc p).pgdir = some f ↔ f = (V.space p).root
    rw [(h.live p hp).2.1, Option.some_inj, eq_comm]
  | pgtab p i =>
    refine and_congr_right fun hp => ?_
    have hiff := h.leadsTo_iff (i := i) (R := (f = ·)) hp
    simpa [Word.LeadsTo] using hiff
  | user p i j =>
    refine and_congr_right fun hp => ?_
    have hiff := h.leadsTo_iff (i := i) (R := fun t => (k.mem.page t j).LeadsTo f) hp
    have hrow := (h.space hp).row (i := i)
    change _ ↔ _ ∧ i.val < 512 ∧ ((V.space p).row i j).LeadsTo f
    constructor
    · rintro ⟨hi, d, t, hd, ht, hf⟩
      obtain ⟨hpresent, hleaf⟩ := hiff.mp ⟨d, hd, t, ht, hf⟩
      rw [hrow hpresent] at hleaf
      exact ⟨hpresent, hi, hleaf⟩
    rintro ⟨hpresent, hi, hleaf⟩
    rw [← hrow hpresent] at hleaf
    obtain ⟨d, hd, t, ht, hf⟩ := hiff.mpr ⟨hpresent, hleaf⟩
    exact ⟨hi, d, t, hd, ht, hf⟩
  | pipe =>
    change _ ↔ f ∈ V.pipes
    constructor
    · rintro ⟨i, href, htype, hpipe⟩
      exact h.plumbed.mem i f _ ⟨href, htype, hpipe, rfl⟩
    intro hf
    obtain ⟨b, i, href, htype, hpipe, -⟩ := h.plumbed.used f hf
    exact ⟨i, href, htype, hpipe⟩

end Pages

lemma Kernel.Sound.conserved {L : Layout} {lucky : Prop} {k : Kernel}
    (h : k.Sound (givenPool L lucky)) : k.Conserved L := by
  obtain ⟨V, hV⟩ := h.ledger
  have hspread := hV.spread
  have hnodup := Multiset.coe_nodup.mpr (givenPages_nodup L)
  constructor
  · intro f hf
    exact hspread.existsUnique hnodup (Multiset.mem_coe.mpr hf)
  · intro f a ha
    exact Multiset.mem_coe.mp (hspread.mem ha)

/-- The pages after any sequence of system calls. -/
theorem pages_conserved (L : Layout) (initcode : Page) (page : ℕ → Page) (ops : List Request) :
    Exec.wp (boot L initcode)
      (fun _ => Exec.wp (Exec.each (syscall L) ops) (fun _ k => k.Conserved L)
        (fun e _ => e ≠ .kfree))
      (fun _ _ => False) (blank page) := by
  refine Exec.wp_mono (run_sound (fun _ hk => hk.conserved) initcode page ops)
    (fun _ k hk => Exec.wp_mono hk (fun _ _ hk' => hk') ?_) fun _ _ => id
  rintro e - he rfl
  simp [Stop.Possible] at he

end Xv6.Vm
