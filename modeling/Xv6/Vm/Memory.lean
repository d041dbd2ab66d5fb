import Mathlib.Algebra.GroupWithZero.Nat
import Xv6.Lib.Exec

/-!
# Physical memory and its allocator

`kalloc.c` over memory that is read and written in 32-bit words.

## Implementation notes

A page is named by its physical page number; its address in the kernel is
`P2V(PGSIZE * f)`, so a page is always aligned. Of a word, the model has the upper
20 bits and the three flags of a page table entry that the code reads. The free
list runs through the first words of the free pages. `fate` says which of the
next calls of `kalloc` may find a page; the others return 0 as if there were none.
-/

namespace Xv6.Vm
open Lib

def PGSIZE : ℕ := 4096

def NPDENTRIES : ℕ := 1024

def NPTENTRIES : ℕ := 1024

def EXTMEM : ℕ := 0x100000

def PHYSTOP : ℕ := 0xE000000

def DEVSPACE : ℕ := 0xFE000000

def KERNBASE : ℕ := 0x80000000

def KERNLINK : ℕ := KERNBASE + EXTMEM

/-- The symbols `data` and `end` of the kernel. The kernel lies below 4 MB, which is all that
`entrypgdir` maps, and leaves room there for the page tables of `kpgdir`. -/
structure Layout where
  data : ℕ
  kernelEnd : ℕ
  data_aligned : data % PGSIZE = 0
  text_lt : KERNLINK < data
  data_le : data ≤ kernelEnd
  end_le : kernelEnd + 66 * PGSIZE ≤ KERNBASE + 4 * 1024 * 1024

/-- A word of memory. -/
structure Word where
  addr : ℕ := 0
  /-- `PTE_P` -/
  p : Bool := false
  /-- `PTE_W` -/
  w : Bool := false
  /-- `PTE_U` -/
  u : Bool := false
  deriving DecidableEq, Repr

/-- A pointer to a page of the kernel, as a word. -/
def Word.ofPtr : Option ℕ → Word
  | none => {}
  | some f => { addr := KERNBASE / PGSIZE + f }

def Word.toPtr (w : Word) : Option ℕ :=
  if w.addr = 0 then none else some (w.addr - KERNBASE / PGSIZE)

@[simp]
lemma Word.toPtr_ofPtr (p : Option ℕ) : (Word.ofPtr p).toPtr = p := by
  cases p with
  | none => rfl
  | some f => simp [ofPtr, toPtr, KERNBASE, PGSIZE]

/-- The words of a page. -/
abbrev Page : Type := Fin 1024 → Word

/-- `r->next` -/
def Page.next (pg : Page) : Option ℕ := (pg 0).toPtr

/-- What `memset(v, 1, PGSIZE)` makes of a page. -/
def junk : Page := fun _ => { addr := 0x1010, p := true }

/-- `memset(v, 0, PGSIZE)` -/
def zeroed : Page := fun _ => {}

structure Memory where
  page : ℕ → Page
  freelist : Option ℕ
  fate : ℕ → Bool

/-- The panics of the memory code, and other ways for it to end. -/
inductive Stop where
  | kfree
  | remap
  | phystop
  | loaduvmAligned
  | loaduvmAddress
  | freevm
  | clearpteu
  | copyuvmPte
  | copyuvmPresent
  | userinit
  | initExiting
  | filedup
  | fileclose
  /-- A null pointer is used. -/
  | null
  /-- A loop that does not end. -/
  | loop
  /-- A page fault in the kernel. -/
  | fault
  /-- The text is `switchuvm: no kstack` or `switchuvm: no pgdir`. -/
  | switchuvm
  deriving DecidableEq, Repr

/-- Code of the kernel that works on memory. -/
abbrev Code (α : Type) : Type := Exec Stop Memory α

namespace Memory

@[simps]
def setPage (m : Memory) (f : ℕ) (pg : Page) : Memory :=
  { m with page := Function.update m.page f pg }

@[simps]
def setFreelist (m : Memory) (p : Option ℕ) : Memory := { m with freelist := p }

/-- One call of `kalloc` is over. -/
@[simps]
def spend (m : Memory) : Memory := { m with fate := fun n => m.fate (n + 1) }

end Memory

/-- Read a word. -/
def load (f : ℕ) (i : Fin 1024) : Code Word := do
  let m ← Exec.get
  return m.page f i

/-- Write a word. -/
def store (f : ℕ) (i : Fin 1024) (w : Word) : Code Unit :=
  Exec.modify fun m => m.setPage f (Function.update (m.page f) i w)

/-- Write a page. -/
def fill (f : ℕ) (pg : Page) : Code Unit := Exec.modify fun m => m.setPage f pg

/-- `kfree` -/
def kfree (L : Layout) (f : ℕ) : Code Unit := do
  Exec.stopIf (KERNBASE + PGSIZE * f < L.kernelEnd ∨ PHYSTOP ≤ PGSIZE * f) .kfree
  fill f junk
  let m ← Exec.get
  store f 0 (Word.ofPtr m.freelist)
  Exec.modify fun m => m.setFreelist (some f)

/-- `kalloc` -/
def kalloc : Code (Option ℕ) := do
  let m ← Exec.get
  Exec.modify Memory.spend
  if m.fate 0 then
    match m.freelist with
    | none => return none
    | some r =>
      Exec.modify fun m' => m'.setFreelist (m.page r).next
      return some r
  else return none

/-- `PGROUNDUP` -/
def pgRoundUp (x : ℕ) : ℕ := (x + PGSIZE - 1) % 2 ^ 32 / PGSIZE * PGSIZE

/-- `PGROUNDDOWN` -/
def pgRoundDown (x : ℕ) : ℕ := x / PGSIZE * PGSIZE

/-- The pages that `freerange` frees, for kernel addresses. -/
def rangePages (vstart vend : ℕ) : List ℕ :=
  let first := (pgRoundUp vstart - KERNBASE) / PGSIZE
  List.range' first ((vend - KERNBASE) / PGSIZE - first)

/-- `freerange` -/
def freerange (L : Layout) (vstart vend : ℕ) : Code Unit :=
  Exec.each (kfree L) (rangePages vstart vend)

end Xv6.Vm
