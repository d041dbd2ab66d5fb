import Xv6.Vm.Memory

/-!
# Page tables

`vm.c`: the two-level page tables, the kernel's part of them, and the functions
that build, grow, shrink, copy and free a user address space.

## Implementation notes

Addresses are natural numbers below `2 ^ 32`, and what can wrap is reduced.
`walkpgdir` returns the place of an entry: a page and an index. The loops of the
source have a bound on their turns that they do not reach: an address space has
`2 ^ 20` pages. `readi` and `memmove` from user memory are inputs: they say what
becomes of a page. The hardware's own bits of an entry are left out, and so is
what is in pages that are not page tables, except that code may write there.
-/

namespace Xv6.Vm
open Lib Exec

variable (L : Layout)

/-- `PDX` -/
def pdx (va : ℕ) : Fin 1024 := ⟨va / 2 ^ 22 % 1024, Nat.mod_lt _ (by decide)⟩

/-- `PTX` -/
def ptx (va : ℕ) : Fin 1024 := ⟨va / 2 ^ 12 % 1024, Nat.mod_lt _ (by decide)⟩

/-- The permission bits of an entry. -/
structure Perm where
  w : Bool
  u : Bool

/-- The pages of an address space: more turns than any loop takes. -/
def TURNS : ℕ := NPDENTRIES * NPTENTRIES + 1

/-- `walkpgdir` -/
def walkpgdir (pgdir va : ℕ) (alloc : Bool) : Code (Option (ℕ × Fin 1024)) := do
  let pde ← load pgdir (pdx va)
  if pde.p then return some (pde.addr, ptx va)
  else if alloc then
    match ← kalloc with
    | none => return none
    | some pgtab =>
      fill pgtab zeroed
      store pgdir (pdx va) { addr := pgtab, p := true, w := true, u := true }
      return some (pgtab, ptx va)
  else return none

/-- The loop of `mappages`, from address `a` on. The result is false if it returns -1. -/
def mapLoop (pgdir last : ℕ) (perm : Perm) : ℕ → ℕ → ℕ → Code Bool
  | 0, _, _ => Exec.stop .loop
  | n + 1, a, pa => do
    match ← walkpgdir pgdir a true with
    | none => return false
    | some (pgtab, j) =>
      let pte ← load pgtab j
      stopIf (pte.p = true) .remap
      store pgtab j { addr := pa / PGSIZE, p := true, w := perm.w, u := perm.u }
      if a = last then return true
      else mapLoop pgdir last perm n ((a + PGSIZE) % 2 ^ 32) ((pa + PGSIZE) % 2 ^ 32)

/-- `mappages` -/
def mappages (pgdir va size pa : ℕ) (perm : Perm) : Code Bool :=
  mapLoop pgdir (pgRoundDown ((va + size + 2 ^ 32 - 1) % 2 ^ 32)) perm TURNS (pgRoundDown va) pa

/-- `struct kmap` -/
structure Kmap where
  virt : ℕ
  physStart : ℕ
  physEnd : ℕ
  perm : Perm

def Kmap.size (k : Kmap) : ℕ := (k.physEnd + 2 ^ 32 - k.physStart) % 2 ^ 32

/-- The kernel's mappings. -/
def kmap : List Kmap :=
  [⟨KERNBASE, 0, EXTMEM, ⟨true, false⟩⟩,
    ⟨KERNLINK, EXTMEM, L.data - KERNBASE, ⟨false, false⟩⟩,
    ⟨L.data, L.data - KERNBASE, PHYSTOP, ⟨true, false⟩⟩,
    ⟨DEVSPACE, DEVSPACE, 0, ⟨true, false⟩⟩]

/-- The loop of `setupkvm`. -/
def mapKernel (pgdir : ℕ) : List Kmap → Code Bool
  | [] => return true
  | k :: ks => do
    if ← mappages pgdir k.virt k.size k.physStart k.perm then mapKernel pgdir ks
    else return false

/-- The loop of `deallocuvm`, from address `a` on. -/
def deallocLoop (pgdir oldsz : ℕ) : ℕ → ℕ → Code Unit
  | 0, _ => Exec.stop .loop
  | n + 1, a =>
    if a < oldsz then do
      match ← walkpgdir pgdir a false with
      | none => deallocLoop pgdir oldsz n (((pdx a).val + 1) * 2 ^ 22)
      | some (pgtab, j) =>
        let pte ← load pgtab j
        if pte.p then
          stopIf (pte.addr = 0) .kfree
          kfree L pte.addr
          store pgtab j {}
        deallocLoop pgdir oldsz n (a + PGSIZE)
    else return ()

/-- `deallocuvm` -/
def deallocuvm (pgdir oldsz newsz : ℕ) : Code ℕ :=
  if oldsz ≤ newsz then return oldsz
  else do
    deallocLoop L pgdir oldsz TURNS (pgRoundUp newsz)
    return newsz

/-- `freevm` -/
def freevm : Option ℕ → Code Unit
  | none => Exec.stop .freevm
  | some pgdir => do
    let _ ← deallocuvm L pgdir KERNBASE 0
    Exec.each (fun i => do
      let pde ← load pgdir i
      if pde.p then kfree L pde.addr) (List.finRange 1024)
    kfree L pgdir

/-- `setupkvm` -/
def setupkvm : Code (Option ℕ) := do
  match ← kalloc with
  | none => return none
  | some pgdir =>
    fill pgdir zeroed
    stopIf (DEVSPACE < KERNBASE + PHYSTOP) .phystop
    if ← mapKernel pgdir (kmap L) then return some pgdir
    else
      freevm L (some pgdir)
      return none

/-- The loop of `allocuvm`, from address `a` on. The result is false if it returns 0. -/
def allocLoop (pgdir oldsz newsz : ℕ) : ℕ → ℕ → Code Bool
  | 0, _ => Exec.stop .loop
  | n + 1, a =>
    if a < newsz then do
      match ← kalloc with
      | none =>
        let _ ← deallocuvm L pgdir newsz oldsz
        return false
      | some mem =>
        fill mem zeroed
        if ← mappages pgdir a PGSIZE (PGSIZE * mem) ⟨true, true⟩ then
          allocLoop pgdir oldsz newsz n (a + PGSIZE)
        else
          let _ ← deallocuvm L pgdir newsz oldsz
          kfree L mem
          return false
    else return true

/-- `allocuvm` -/
def allocuvm (pgdir oldsz newsz : ℕ) : Code ℕ :=
  if KERNBASE ≤ newsz then return 0
  else if newsz < oldsz then return oldsz
  else do
    if ← allocLoop L pgdir oldsz newsz TURNS (pgRoundUp oldsz) then return newsz
    else return 0

/-- `inituvm` -/
def inituvm (pgdir : ℕ) (init : Page) : Code Unit := do
  match ← kalloc with
  | none => Exec.stop .null
  | some mem =>
    fill mem zeroed
    let _ ← mappages pgdir 0 PGSIZE (PGSIZE * mem) ⟨true, true⟩
    fill mem init

/-- The loop of `loaduvm`, from offset `i` on. What `readi` makes of a page is `readi i`, unless
it comes short. -/
def loadLoop (pgdir addr sz : ℕ) (readi : ℕ → Option (Page → Page)) : ℕ → ℕ → Code Bool
  | 0, _ => Exec.stop .loop
  | n + 1, i =>
    if i < sz then do
      match ← walkpgdir pgdir (addr + i) false with
      | none => Exec.stop .loaduvmAddress
      | some (pgtab, j) =>
        let pte ← load pgtab j
        match readi i with
        | none => return false
        | some f =>
          let m ← Exec.get
          fill pte.addr (f (m.page pte.addr))
          loadLoop pgdir addr sz readi n (i + PGSIZE)
    else return true

/-- `loaduvm` -/
def loaduvm (pgdir addr sz : ℕ) (readi : ℕ → Option (Page → Page)) : Code Bool := do
  stopIf (addr % PGSIZE ≠ 0) .loaduvmAligned
  loadLoop pgdir addr sz readi TURNS 0

/-- `clearpteu` -/
def clearpteu (pgdir uva : ℕ) : Code Unit := do
  match ← walkpgdir pgdir uva false with
  | none => Exec.stop .clearpteu
  | some (pgtab, j) =>
    let pte ← load pgtab j
    store pgtab j { addr := pte.addr, p := pte.p, w := pte.w, u := false }

/-- The loop of `copyuvm`, from address `i` on. The result is false if it goes to `bad`. -/
def copyLoop (d pgdir sz : ℕ) : ℕ → ℕ → Code Bool
  | 0, _ => Exec.stop .loop
  | n + 1, i =>
    if i < sz then do
      match ← walkpgdir pgdir i false with
      | none => Exec.stop .copyuvmPte
      | some (pgtab, j) =>
        let pte ← load pgtab j
        stopIf (pte.p = false) .copyuvmPresent
        match ← kalloc with
        | none => return false
        | some mem =>
          let m ← Exec.get
          fill mem (m.page pte.addr)
          if ← mappages d i PGSIZE (PGSIZE * mem) ⟨pte.w, pte.u⟩ then
            copyLoop d pgdir sz n (i + PGSIZE)
          else
            kfree L mem
            return false
    else return true

/-- `copyuvm` -/
def copyuvm (pgdir sz : ℕ) : Code (Option ℕ) := do
  match ← setupkvm L with
  | none => return none
  | some d =>
    if ← copyLoop L d pgdir sz TURNS 0 then return some d
    else
      freevm L (some d)
      return none

/-- `uva2ka`. The source does not test the result of `walkpgdir`. -/
def uva2ka (pgdir uva : ℕ) : Code (Option ℕ) := do
  match ← walkpgdir pgdir uva false with
  | none => Exec.stop .null
  | some (pgtab, j) =>
    let pte ← load pgtab j
    if pte.p = false then return none
    else if pte.u = false then return none
    else return some pte.addr

/-- The loop of `copyout`. What it makes of the page at an address is `put`. -/
def copyout (pgdir : ℕ) (put : ℕ → Page → Page) : ℕ → ℕ → ℕ → Code Bool
  | 0, _, _ => Exec.stop .loop
  | n + 1, va, len =>
    if 0 < len then do
      let va0 := pgRoundDown va
      match ← uva2ka pgdir va0 with
      | none => return false
      | some pa0 =>
        let m ← Exec.get
        fill pa0 (put va0 (m.page pa0))
        copyout pgdir put n ((va0 + PGSIZE) % 2 ^ 32) (len - min (PGSIZE - (va - va0)) len)
    else return true

end Xv6.Vm
