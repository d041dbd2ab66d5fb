import Xv6.Lib.Circle
import Xv6.Lib.Exec
import Xv6.Lib.Runs
import Xv6.Lib.Words

/-!
# The heap of a user program

The allocator of `umalloc.c` on a memory of bytes. A block starts with a header
of eight bytes, the pointer `s.ptr` and the size `s.size` in units of a header.
The free blocks form a circular list through `base`, a header in the data
segment of the program, and `freep` points into this list.

## Implementation notes

Pointers and `uint`s are natural numbers below `2 ^ 32`; what may wrap around is
reduced. `grant i` says whether the kernel has memory for call number `i` of
`sbrk`. The heap may also grow by calls of `sbrk` that the allocator does not
make, and the program writes to the bytes it was given and to memory outside of
the heap. Loops take a
bound on the number of their iterations and stop with `Fault.fuel` if it is too
small. `live` and `areas` record what `malloc` and `sbrk` returned.
-/

namespace Xv6.Umalloc
open Xv6.Lib

/-- `sizeof(Header)` -/
def HEADER : ℕ := 8

/-- What stops the model: too small a bound on the iterations, or a page fault. -/
inductive Fault
  | fuel
  | page
deriving DecidableEq, Repr

/-- `p->s.ptr` -/
def ptr (m : ℕ → UInt8) (p : ℕ) : ℕ := word m p

/-- `p->s.size` -/
def size (m : ℕ → UInt8) (p : ℕ) : ℕ := word m (p + 4)

def setPtr (m : ℕ → UInt8) (p v : ℕ) : ℕ → UInt8 := setWord m p v

def setSize (m : ℕ → UInt8) (p v : ℕ) : ℕ → UInt8 := setWord m (p + 4) v

/-- `p + k` for a `Header *p`. -/
def padd (p k : ℕ) : ℕ := (p + HEADER * k) % 2 ^ 32

/-- A stretch of memory: where it starts and how many units it has. -/
structure Block where
  addr : ℕ
  size : ℕ
deriving DecidableEq, Repr

/-- The end of a block. -/
def Block.fin (b : Block) : ℕ := b.addr + HEADER * b.size

/-- The memory, `freep`, the end of the heap, the number of calls of `sbrk` so far and the
stretches of memory that the allocator got from it. -/
structure Heap where
  mem : ℕ → UInt8
  freep : ℕ
  brk : ℕ
  calls : ℕ
  areas : List Block

/-- The end of the last page of the process. -/
def Heap.pageEnd (h : Heap) : ℕ := (h.brk + 4095) / 4096 * 4096

abbrev Code : Type → Type := Exec Fault Heap

/-- The condition under which the loop of `free` ends at `p`. -/
def between (m : ℕ → UInt8) (bp p : ℕ) : Bool :=
  decide (p < bp ∧ bp < ptr m p) || decide (ptr m p ≤ p ∧ (p < bp ∨ bp < ptr m p))

/-- Join the block at `bp` to the one behind `p`, or make it point there. -/
def joinUpper (m : ℕ → UInt8) (bp p : ℕ) : ℕ → UInt8 :=
  if padd bp (size m bp) = ptr m p then
    let m := setSize m bp (size m bp + size m (ptr m p))
    setPtr m bp (ptr m (ptr m p))
  else setPtr m bp (ptr m p)

/-- Join the block at `bp` to the one at `p`, or make `p` point to it. -/
def joinLower (m : ℕ → UInt8) (bp p : ℕ) : ℕ → UInt8 :=
  if padd p (size m p) = bp then
    let m := setSize m p (size m p + size m bp)
    setPtr m p (ptr m bp)
  else setPtr m p bp

def free (n ap : ℕ) : Code Unit := do
  let s ← Exec.get
  -- (Header*)ap - 1
  let bp := (ap + 2 ^ 32 - HEADER) % 2 ^ 32
  match walkTo (ptr s.mem) (between s.mem bp) n s.freep with
  | none => Exec.stop .fuel
  | some p => Exec.modify fun s =>
    { s with mem := joinLower (joinUpper s.mem bp p) bp p, freep := p }

section
variable (grant : ℕ → Bool)

/-- `sbrk(k)`: the old end of the heap, or `(char*)-1`. `growproc` takes the word for an `int`. -/
def sbrk (k : ℕ) : Code ℕ := do
  let s ← Exec.get
  Exec.modify fun s => { s with calls := s.calls + 1 }
  if k = 0 then pure s.brk
  else if k < 2 ^ 31 then
    -- `allocuvm`, which stays below `KERNBASE`
    if grant s.calls ∧ s.brk + k < 2 ^ 31 then
      Exec.modify fun s => { s with
        brk := s.brk + k
        areas := s.areas ++ [⟨s.brk, k / HEADER⟩] }
      pure s.brk
    else pure (2 ^ 32 - 1)
  else
    -- `deallocuvm`, which leaves the size alone if the new one is not smaller
    let newsz := (s.brk + k) % 2 ^ 32
    if s.brk ≤ newsz then pure s.brk
    else if newsz = 0 then pure (2 ^ 32 - 1)
    else
      Exec.modify fun s => { s with brk := newsz }
      pure s.brk

def morecore (n nu : ℕ) : Code ℕ := do
  let nu := if nu < 4096 then 4096 else nu
  let p ← sbrk grant (nu * HEADER % 2 ^ 32)
  if p = 2 ^ 32 - 1 then pure 0
  else
    let s ← Exec.get
    -- a process that writes behind its last page is killed
    Exec.stopIf (s.pageEnd < p + HEADER) .page
    Exec.modify fun s => { s with mem := setSize s.mem p nu }
    free n (padd p 1)
    let s ← Exec.get
    pure s.freep

/-- Take `nunits` units off the block at `p`, which is the one behind `prevp`. -/
def take (nunits prevp p : ℕ) : Code ℕ := do
  let s ← Exec.get
  if size s.mem p = nunits then
    Exec.modify fun s => { s with mem := setPtr s.mem prevp (ptr s.mem p), freep := prevp }
    pure (padd p 1)
  else
    let m := setSize s.mem p (size s.mem p - nunits)
    let q := padd p (size m p)
    Exec.modify fun s => { s with mem := setSize m q nunits, freep := prevp }
    pure (padd q 1)

/-- The loop of `malloc`. -/
def search (nunits : ℕ) : ℕ → ℕ → ℕ → Code ℕ
  | 0, _, _ => Exec.stop .fuel
  | n + 1, prevp, p => do
    let s ← Exec.get
    if nunits ≤ size s.mem p then take nunits prevp p
    else if p = s.freep then
      let q ← morecore grant n nunits
      if q = 0 then pure 0
      else
        let s ← Exec.get
        search nunits n q (ptr s.mem q)
    else search nunits n p (ptr s.mem p)

/-- The number of units for `nbytes` bytes and a header. -/
def units (nbytes : ℕ) : ℕ := (nbytes + HEADER - 1) % 2 ^ 32 / HEADER + 1

/-- The first call makes `base` the only element of the list. -/
def initialise (base : ℕ) : Code Unit := do
  let s ← Exec.get
  if s.freep = 0 then
    Exec.modify fun s => { s with mem := setSize (setPtr s.mem base base) base 0, freep := base }
  else pure ()

def malloc (base n nbytes : ℕ) : Code ℕ := do
  initialise base
  let s ← Exec.get
  search grant (units nbytes) n s.freep (ptr s.mem s.freep)

end

/-! ## Programs that use the heap -/

/-- Where the loader has put things: `base` is below the heap and not at address zero. -/
structure Layout where
  base : ℕ
  start : ℕ
  pos : 0 < base
  below : base + HEADER ≤ start
  inside : start < 2 ^ 32

/-- A pointer that `malloc` returned for `n` bytes and that has not been freed. -/
structure Live where
  ap : ℕ
  n : ℕ
deriving DecidableEq, Repr

/-- The block that such a pointer belongs to. -/
def Live.block (x : Live) : Block := ⟨x.ap - HEADER, units x.n⟩

structure Sys where
  heap : Heap
  live : List Live

/-- What a program does; calls come with a bound on the iterations of their loops. -/
inductive Event
  | malloc (fuel n : ℕ)
  | free (fuel ap : ℕ)
  | store (a : ℕ) (v : UInt8)
  | grow (k : ℕ)
deriving DecidableEq, Repr

/-- The heap before the first call. -/
def Layout.boot (lay : Layout) (mem : ℕ → UInt8) : Sys := ⟨⟨mem, 0, lay.start, 0, []⟩, []⟩

/-- Frees of live pointers, sizes up to `2 ^ 31 - 32`, and stores to bytes that are the
program's own. -/
def Sys.Admitted (lay : Layout) (s : Sys) : Event → Prop
  | .malloc _ n => n ≤ 2 ^ 31 - 32
  | .free _ ap => ∃ x ∈ s.live, x.ap = ap
  | .store a _ => (∃ x ∈ s.live, x.ap ≤ a ∧ a < x.ap + x.n) ∨
      (a < lay.start ∨ s.heap.brk ≤ a) ∧ (a < lay.base ∨ lay.base + HEADER ≤ a)
  | .grow k => s.heap.brk + k < 2 ^ 32

def Sys.step (grant : ℕ → Bool) (lay : Layout) (s : Sys) : Event → Option Sys
  | .malloc fuel n =>
    match malloc grant lay.base fuel n s.heap with
    | .ok ap h => some ⟨h, if ap = 0 then s.live else ⟨ap, n⟩ :: s.live⟩
    | .stop _ _ => none
  | .free fuel ap =>
    match free fuel ap s.heap with
    | .ok _ h => some ⟨h, s.live.filter fun x => x.ap ≠ ap⟩
    | .stop _ _ => none
  | .store a v => some { s with heap.mem := Function.update s.heap.mem a v }
  | .grow k => some { s with heap.brk := s.heap.brk + k }

end Xv6.Umalloc
