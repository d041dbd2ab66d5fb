import Xv6.Lib.Tally
import Xv6.Vm.Growth
import Xv6.Vm.Image

/-!
# Who has which page

Every page of the pool that is not on the free list belongs to the kernel's page
table, to a process or to a pipe. The rules below are for the changes that a system
call makes: to a slot of the process table, and to the files and pipes.

## Implementation notes

The reference count of a file is the number of descriptors for it, and the references
that a system call holds on its way. A side of a pipe is open as long as there is a
file for it, and then there is one.
-/

namespace Xv6.Vm
open Lib Function
open Fs (NPROC NFILE NOFILE)

/-- The address spaces, and the pipes with their pages. -/
structure View where
  kernel : Space
  space : Fin NPROC → Space
  pipes : Multiset ℕ
  page : ℕ → Page

/-- The kernel stack of a process. -/
def Proc.stack (x : Proc) : Cells :=
  match x.kstack with
  | none => 0
  | some f => {⟨f, none⟩}

/-- The pages of a process. -/
def Proc.cells (x : Proc) (S : Space) : Cells := if x.state = .unused then 0 else x.stack + S.cells

namespace View

variable (V : View) (proc : Fin NPROC → Proc) (p : Fin NPROC)

def pipeCells : Cells := V.pipes.map fun f => ⟨f, some (V.page f)⟩

/-- All pages that somebody has. -/
def cells : Cells := V.kernel.cells + (∑ q, (proc q).cells (V.space q) + V.pipeCells)

/-- All of them but those of one process. -/
def rest : Cells :=
  V.kernel.cells + (∑ q ∈ Finset.univ.erase p, (proc q).cells (V.space q) + V.pipeCells)

@[simps -fullyApplied]
def setSpace (S : Space) : View := { V with space := update V.space p S }

variable {V proc}

lemma cells_eq : V.cells proc = (proc p).cells (V.space p) + V.rest proc p := by
  rw [cells, rest, ← Finset.add_sum_erase Finset.univ _ (Finset.mem_univ p)]
  simp only [add_left_comm, add_assoc]

variable {p}

lemma rest_update (x : Proc) (S : Space) :
    (V.setSpace p S).rest (update proc p x) p = V.rest proc p := by
  have hsum : ∀ q ∈ Finset.univ.erase p,
      (update proc p x q).cells ((V.setSpace p S).space q) = (proc q).cells (V.space q) := by
    intro q hq
    have hne : q ≠ p := Finset.ne_of_mem_erase hq
    rw [setSpace_space, update_of_ne hne, update_of_ne hne]
  rw [rest, Finset.sum_congr rfl hsum]
  rfl

lemma cells_update (x : Proc) (S : Space) :
    (V.setSpace p S).cells (update proc p x) = x.cells S + V.rest proc p := by
  rw [cells_eq p, rest_update, setSpace_space, update_self, update_self]

/-- Changes of the table that do not touch pages. -/
lemma cells_congr {proc' : Fin NPROC → Proc}
    (h : ∀ q, (proc' q).cells (V.space q) = (proc q).cells (V.space q)) :
    V.cells proc' = V.cells proc := by
  rw [cells, cells, Finset.sum_congr rfl fun q _ => h q]

lemma cells_space {cs : Cells} (hp : (proc p).state ≠ .unused) :
    V.cells proc + cs = (V.space p).cells + ((proc p).stack + (V.rest proc p + cs)) := by
  rw [cells_eq p, Proc.cells, if_neg hp]
  simp only [add_left_comm, add_assoc]

/-- A slot that is not used has no pages. -/
lemma cells_unused (hp : (proc p).state = .unused) : V.cells proc = V.rest proc p := by
  rw [cells_eq p, Proc.cells, if_pos hp, zero_add]

end View

-- The sums are not to be computed.
attribute [irreducible] View.cells View.rest

/-! ### Files and pipes -/

/-- The file is the end of the pipe at page `f` for reading or for writing. -/
def OpenFile.End (x : OpenFile) (f : ℕ) (writable : Bool) : Prop :=
  x.ref ≠ 0 ∧ x.type = .pipe ∧ x.pipe = f ∧ x.writable = writable

/-- What has become of the pipe in a page: there is none, both of its sides are open, one of
them is, or both are closed and the page has not been freed yet. -/
inductive Life
  | gone
  | both
  | only (writable : Bool)
  | shut
  deriving DecidableEq, Repr

/-- The page that an event is about. -/
def PipeEvent.page : PipeEvent → ℕ
  | .open f => f
  | .close f _ => f
  | .free f => f

/-- The life of a pipe: a side that is closed was open, and the page is freed once both are
closed. Nothing else happens. -/
def Life.next : Life → PipeEvent → Option Life
  | .gone, .open _ => some .both
  | .both, .close _ b => some (.only (!b))
  | .only b, .close _ c => if c = b then some .shut else none
  | .shut, .free _ => some .gone
  | _, _ => none

/-- The life of the pipes in a page. There is no result if an event comes out of order. -/
def life (f : ℕ) : List PipeEvent → Option Life
  | [] => some .gone
  | e :: es => if e.page = f then (life f es).bind (·.next e) else life f es

/-- A side is open as long as there is a file for it. -/
def Life.Fits (file : Fin NFILE → OpenFile) (f : ℕ) : Life → Prop
  | .gone => ∀ b i, ¬ (file i).End f b
  | .both => ∀ b, ∃ i, (file i).End f b
  | .only b => (∃ i, (file i).End f b) ∧ ∀ i, ¬ (file i).End f (!b)
  | .shut => False

/-- The files and the pipes fit together. -/
structure Plumbed (file : Fin NFILE → OpenFile) (pipes : Multiset ℕ) (page : ℕ → Page)
    (events : List PipeEvent) : Prop where
  free : ∀ i, (file i).ref = 0 → (file i).type = .none
  mem : ∀ i f b, (file i).End f b → f ∈ pipes
  unique : ∀ i j f b, (file i).End f b → (file j).End f b → i = j
  isOpen : ∀ i f b, (file i).End f b → page f (openWord b) = one
  isShut : ∀ f ∈ pipes, ∀ b, (∀ i, ¬ (file i).End f b) → page f (openWord b) = {}
  used : ∀ f ∈ pipes, ∃ b i, (file i).End f b
  lives : ∀ f, ∃ l : Life, life f events = some l ∧ l.Fits file f

/-- The books are in order, and somebody has the pages `cs` on top of that. -/
structure Kernel.Ledger (P : Pool) (V : View) (cs : Cells) (k : Kernel) : Prop where
  owns : k.mem.Owns P (V.cells k.proc + cs)
  kpgdir : k.kpgdir = some V.kernel.root
  bare : ∀ b < KERNBASE, (V.kernel.pte b).p = false
  live : ∀ q, (k.proc q).state ≠ .unused → (k.proc q).kstack ≠ none ∧
    (k.proc q).pgdir = some (V.space q).root ∧ (V.space q).Fits (k.proc q).sz
  plumbed : Plumbed k.file V.pipes V.page k.events

/-- The descriptors of a process for a file. -/
def Proc.holds (x : Proc) (i : Fin NFILE) : ℕ :=
  tally Finset.univ (fun o => if o = some i then 1 else 0) x.ofile

/-- The descriptors for a file. -/
def refs (proc : Fin NPROC → Proc) (i : Fin NFILE) : ℕ :=
  tally Finset.univ (fun x => x.holds i) proc

/-- Processes that do not run have no descriptors. -/
def Idle (proc : Fin NPROC → Proc) : Prop :=
  ∀ q, (proc q).state = .unused ∨ (proc q).state = .zombie → ∀ fd, (proc q).ofile fd = none

/-- What holds between two system calls. -/
structure Kernel.Sound (P : Pool) (k : Kernel) : Prop where
  ledger : ∃ V, k.Ledger P V 0
  counted : ∀ i, (k.file i).ref = refs k.proc i
  idle : Idle k.proc

/-- `k'` is `k` but for one process, the memory and the counter of process numbers. -/
structure Kernel.Slot (k : Kernel) (p : Fin NPROC) (x : Proc) (k' : Kernel) : Prop where
  proc : k'.proc = update k.proc p x
  file : k'.file = k.file
  kpgdir : k'.kpgdir = k.kpgdir
  initproc : k'.initproc = k.initproc
  events : k'.events = k.events

section Slots
variable {P : Pool} {V : View} {cs cs' : Cells} {k k' : Kernel} {p : Fin NPROC} {x : Proc}
  {S : Space} {i : Fin NFILE}

namespace Kernel

lemma Slot.refl : k.Slot p (k.proc p) k := ⟨by simp, rfl, rfl, rfl, rfl⟩

section
variable (h : k.Slot p x k')
include h

lemma Slot.setMem (m : Memory) : k.Slot p x (k'.setMem m) :=
  ⟨h.proc, h.file, h.kpgdir, h.initproc, h.events⟩

lemma Slot.nextPid : k.Slot p x k'.nextPid :=
  ⟨h.proc, h.file, h.kpgdir, h.initproc, h.events⟩

lemma Slot.self : k'.proc p = x := by
  rw [h.proc, update_self]

lemma Slot.setProc (y : Proc) : k.Slot p y (k'.setProc p y) where
  proc := by rw [setProc_proc, h.proc, update_idem]
  file := h.file
  kpgdir := h.kpgdir
  initproc := h.initproc
  events := h.events

end
end Kernel

variable {F : Stop → Prop}

lemma wp_modifySlot {g : Proc → Proc} {Q : Unit → Kernel → Prop}
    (hslot : k.Slot p x k') (hQ : ∀ k'', k.Slot p (g x) k'' → k''.mem = k'.mem → Q () k'') :
    Exec.wp (modifyProc p g) Q (fun e _ => F e) k' := by
  refine Exec.wp_modify.mpr (hQ _ ?_ rfl)
  rw [hslot.self]
  exact hslot.setProc _

lemma wp_onSlot {α : Type} {c : Code α} {Q : α → Kernel → Prop}
    (hslot : k.Slot p x k')
    (h : Exec.wp c (fun a m => ∀ k'', k.Slot p x k'' → k''.mem = m → Q a k'') (fun e _ => F e)
      k'.mem) : Exec.wp (onMem c) Q (fun e _ => F e) k' :=
  wp_onMem.mpr (Exec.wp_mono h (fun _ m hQ => hQ _ (hslot.setMem m) rfl) fun _ _ => id)

namespace Kernel

section
variable (h : k.Ledger P V cs)
include h

lemma Ledger.space (hp : (k.proc p).state ≠ .unused) :
    k.mem.Owns P ((V.space p).cells + ((k.proc p).stack + (V.rest k.proc p + cs))) := by
  rw [← View.cells_space hp]
  exact h.owns

lemma Ledger.replace (hslot : k.Slot p x k')
    (howns : k'.mem.Owns P (x.cells S + (V.rest k.proc p + cs')))
    (hlive : x.state ≠ .unused → x.kstack ≠ none ∧ x.pgdir = some S.root ∧ S.Fits x.sz) :
    k'.Ledger P (V.setSpace p S) cs' where
  owns := by
    rwa [hslot.proc, View.cells_update, add_assoc]
  kpgdir := hslot.kpgdir.trans h.kpgdir
  bare := h.bare
  live q hq := by
    rw [hslot.proc] at hq ⊢
    by_cases hqp : q = p
    · subst hqp
      simp only [update_self, View.setSpace_space] at hq ⊢
      exact hlive hq
    · simp only [ne_eq, hqp, not_false_eq_true, update_of_ne, View.setSpace_space] at hq ⊢
      exact h.live q hq
  plumbed := by
    rw [hslot.file, hslot.events]
    exact h.plumbed

/-- A slot that is not used stays so. -/
lemma Ledger.unused (hslot : k.Slot p x k')
    (hp : (k.proc p).state = .unused) (hx : x.state = .unused)
    (howns : k'.mem.Owns P (V.cells k.proc + cs)) : k'.Ledger P (V.setSpace p (V.space p)) cs := by
  refine h.replace hslot ?_ fun hne => absurd hx hne
  rwa [Proc.cells, if_pos hx, zero_add, ← View.cells_unused hp]

lemma Ledger.respace (hp : (k.proc p).state ≠ .unused)
    (hslot : k.Slot p x k') (hstate : x.state ≠ .unused) (hkstack : x.kstack = (k.proc p).kstack)
    (hpgdir : x.pgdir = some S.root) (hfits : S.Fits x.sz)
    (howns : k'.mem.Owns P (S.cells + ((k.proc p).stack + (V.rest k.proc p + cs')))) :
    k'.Ledger P (V.setSpace p S) cs' := by
  have hstack : x.stack = (k.proc p).stack := by rw [Proc.stack, hkstack, Proc.stack]
  refine h.replace hslot ?_ fun _ => ⟨?_, hpgdir, hfits⟩
  · rwa [Proc.cells, if_neg hstate, hstack, add_comm (k.proc p).stack, add_assoc]
  · rw [hkstack]
    exact (h.live p hp).1

end
end Kernel

lemma refs_update (proc : Fin NPROC → Proc) (h : x.ofile = (proc p).ofile) :
    refs (update proc p x) i = refs proc i := by
  have hrow := tally_update (w := fun x : Proc => x.holds i) (f := proc) (x := x)
    (Finset.mem_univ p)
  have hsame : x.holds i = (proc p).holds i := by rw [Proc.holds, h, Proc.holds]
  unfold refs
  omega

/-- Nothing happens to the descriptors. -/
lemma Kernel.Sound.slot (h : k.Sound P) (hslot : k.Slot p x k')
    (hledger : ∃ V, k'.Ledger P V 0) (hofile : x.ofile = (k.proc p).ofile)
    (hidle : x.state = .unused ∨ x.state = .zombie → ∀ fd, x.ofile fd = none) : k'.Sound P where
  ledger := hledger
  counted i := by
    rw [hslot.file, hslot.proc, refs_update k.proc hofile]
    exact h.counted i
  idle q hq := by
    rw [hslot.proc] at hq ⊢
    by_cases hqp : q = p
    · subst hqp
      rw [update_self] at hq ⊢
      exact hidle hq
    · rw [update_of_ne hqp] at hq ⊢
      exact h.idle q hq

end Slots
end Xv6.Vm
