import Mathlib.Algebra.Group.Int.Defs
import Xv6.File.Ops
import Xv6.Process.Table
import Xv6.Vm.PageTable

/-!
# The kernel's use of pages

The system calls that take and give back pages, with what they use of `proc.c`,
`exec.c`, `file.c`, `pipe.c` and `sysfile.c`, and the part of `main` that sets the
allocator up.

## Implementation notes

A system call runs from its start to its end. The scheduler is left out: a process
that may run is `RUNNABLE`, and one that sleeps in `wait` will scan again later.
Kernel stacks are pages whose contents are not looked at. Of a pipe the model has
the two words `readopen` and `writeopen`, in their place in the page. What a system
call reads from user memory or from a file is an input, and so is the inode that
`sys_open` finds: inodes take no pages. There is one processor, so `startothers` takes
no page.
-/

namespace Xv6.Vm
open Lib Exec
open Fs (NPROC NFILE NOFILE)
open Process (ProcState)
open File (FdType FileType O_RDONLY O_WRONLY O_RDWR O_CREATE)

variable (L : Layout)

def MAXARG : ℕ := 32

def ELF_MAGIC : UInt32 := 0x464C457F

/-- `struct proc`, as far as pages depend on it. -/
structure Proc where
  sz : ℕ := 0
  pgdir : Option ℕ := none
  kstack : Option ℕ := none
  state : ProcState := .unused
  pid : Int32 := 0
  parent : Option (Fin NPROC) := none
  killed : Bool := false
  ofile : Fin NOFILE → Option (Fin NFILE) := fun _ => none

/-- `ofile[fd] = f`, or `0` -/
@[simps]
def Proc.setFd (x : Proc) (fd : Fin NOFILE) (f : Option (Fin NFILE)) : Proc :=
  { x with ofile := Function.update x.ofile fd f }

/-- `struct file`, without the inode. -/
structure OpenFile where
  type : FdType := .none
  ref : ℕ := 0
  readable : Bool := false
  writable : Bool := false
  pipe : ℕ := 0

/-- What happens to the pipe in a page. -/
inductive PipeEvent
  | open (f : ℕ)
  /-- `pipeclose` is called for one of its sides. -/
  | close (f : ℕ) (writable : Bool)
  /-- `pipeclose` frees the page. -/
  | free (f : ℕ)
  deriving DecidableEq, Repr

/-- The state of the kernel. The list `events`, the last one first, is not part of the program;
it is there to be talked about. -/
structure Kernel where
  mem : Memory
  kpgdir : Option ℕ
  proc : Fin NPROC → Proc
  initproc : Option (Fin NPROC)
  nextpid : Int32
  file : Fin NFILE → OpenFile
  events : List PipeEvent

namespace Kernel

@[simps -fullyApplied]
def setMem (k : Kernel) (m : Memory) : Kernel := { k with mem := m }

@[simps -fullyApplied]
def setKpgdir (k : Kernel) (pgdir : Option ℕ) : Kernel := { k with kpgdir := pgdir }

@[simps -fullyApplied]
def setInitproc (k : Kernel) (p : Fin NPROC) : Kernel := { k with initproc := some p }

@[simps -fullyApplied]
def nextPid (k : Kernel) : Kernel := { k with nextpid := k.nextpid + 1 }

@[simps -fullyApplied]
def setProc (k : Kernel) (p : Fin NPROC) (x : Proc) : Kernel :=
  { k with proc := Function.update k.proc p x }

@[simps -fullyApplied]
def setFile (k : Kernel) (i : Fin NFILE) (x : OpenFile) : Kernel :=
  { k with file := Function.update k.file i x }

@[simps -fullyApplied]
def record (k : Kernel) (e : PipeEvent) : Kernel := { k with events := e :: k.events }

end Kernel

/-- Code of the kernel. -/
abbrev Sys (α : Type) : Type := Exec Stop Kernel α

def onMem {α : Type} (x : Code α) : Sys α := Exec.zoom Kernel.mem Kernel.setMem x

def modifyProc (p : Fin NPROC) (g : Proc → Proc) : Sys Unit :=
  Exec.modify fun k => k.setProc p (g (k.proc p))

def modifyFile (i : Fin NFILE) (g : OpenFile → OpenFile) : Sys Unit :=
  Exec.modify fun k => k.setFile i (g (k.file i))

def getProc (p : Fin NPROC) : Sys Proc := do
  let k ← Exec.get
  return k.proc p

/-- A pointer that the code uses without a test. -/
def deref {α : Type} : Option α → Sys α
  | none => Exec.stop .null
  | some a => return a

/-- `kfree` of a pointer; null is below `end`. -/
def kfreePtr : Option ℕ → Code Unit
  | none => Exec.stop .kfree
  | some f => kfree L f

/-! ### Pipes and files -/

section
local instance neZero_words : NeZero 1024 := ⟨by decide⟩

/-- The words `readopen` and `writeopen` of `struct pipe`. -/
def openWord : Bool → Fin 1024
  | false => 143
  | true => 144

end

/-- The word of the number one. -/
def one : Word := { p := true }

/-- The part of `pipealloc` that sets up a new pipe. -/
def pipeinit (p : ℕ) : Code Unit := do
  store p (openWord false) one
  store p (openWord true) one

/-- `pipeclose`. The result tells whether the page has been freed. -/
def pipeclose (p : ℕ) (writable : Bool) : Code Bool := do
  store p (openWord writable) {}
  let readopen ← load p (openWord false)
  let writeopen ← load p (openWord true)
  if readopen = {} ∧ writeopen = {} then
    kfree L p
    return true
  else return false

def record (e : PipeEvent) : Sys Unit := Exec.modify fun k => k.record e

/-- `filealloc` -/
def filealloc : Sys (Option (Fin NFILE)) := do
  let k ← Exec.get
  match (List.finRange NFILE).find? fun i => (k.file i).ref = 0 with
  | none => return none
  | some i =>
    modifyFile i fun x => { x with ref := 1 }
    return some i

/-- `filedup` -/
def filedup (i : Fin NFILE) : Sys Unit := do
  let k ← Exec.get
  stopIf ((k.file i).ref < 1) .filedup
  modifyFile i fun x => { x with ref := x.ref + 1 }

/-- `fileclose` -/
def fileclose (i : Fin NFILE) : Sys Unit := do
  let k ← Exec.get
  let ff := k.file i
  stopIf (ff.ref < 1) .fileclose
  if 0 < ff.ref - 1 then modifyFile i fun x => { x with ref := x.ref - 1 }
  else
    modifyFile i fun x => { x with ref := 0, type := .none }
    if ff.type = .pipe then
      record (.close ff.pipe ff.writable)
      if ← onMem (pipeclose L ff.pipe ff.writable) then record (.free ff.pipe)

/-- `pipealloc` -/
def pipealloc : Sys (Option (Fin NFILE × Fin NFILE)) := do
  match ← filealloc with
  | none => return none
  | some f0 =>
    match ← filealloc with
    | none =>
      fileclose L f0
      return none
    | some f1 =>
      match ← onMem kalloc with
      | none =>
        fileclose L f0
        fileclose L f1
        return none
      | some p =>
        onMem (pipeinit p)
        modifyFile f0 fun x =>
          { x with type := .pipe, readable := true, writable := false, pipe := p }
        modifyFile f1 fun x =>
          { x with type := .pipe, readable := false, writable := true, pipe := p }
        record (.open p)
        return some (f0, f1)

/-- `fdalloc` -/
def fdalloc (p : Fin NPROC) (f : Fin NFILE) : Sys (Option (Fin NOFILE)) := do
  let x ← getProc p
  match (List.finRange NOFILE).find? fun fd => x.ofile fd = none with
  | none => return none
  | some fd =>
    modifyProc p fun x => x.setFd fd (some f)
    return some fd

/-- `curproc->ofile[fd] = 0` -/
def fdclear (p : Fin NPROC) (fd : Fin NOFILE) : Sys Unit := modifyProc p fun x => x.setFd fd none

/-- The kernel writes to the user's memory at an address. -/
def putUser (pgdir : ℕ) (put : ℕ → Page → Page) (va : ℕ) : Code Unit := do
  match ← walkpgdir pgdir va false with
  | none => Exec.stop .fault
  | some (pgtab, j) =>
    let pte ← load pgtab j
    stopIf (pte.p = false) .fault
    let m ← Exec.get
    fill pte.addr (put va (m.page pte.addr))

/-- `sys_pipe`, with the argument if `argint` can read it. -/
def sysPipe (p : Fin NPROC) (arg : Option UInt32) (put : ℕ → Page → Page) : Sys Int32 := do
  let x ← getProc p
  match arg with
  | none => return -1
  | some fd =>
    if x.sz ≤ fd.toNat ∨ x.sz < fd.toNat + 8 then return -1
    else
      match ← pipealloc L with
      | none => return -1
      | some (rf, wf) =>
        match ← fdalloc p rf with
        | none =>
          fileclose L rf
          fileclose L wf
          return -1
        | some fd0 =>
          match ← fdalloc p wf with
          | none =>
            fdclear p fd0
            fileclose L rf
            fileclose L wf
            return -1
          | some _ =>
            -- the first and the last byte of `fd[0]` and of `fd[1]`
            let pgdir ← deref x.pgdir
            onMem (Exec.each (putUser pgdir put)
              [fd.toNat, fd.toNat + 3, fd.toNat + 4, fd.toNat + 7])
            return 0

/-- `sys_close` -/
def sysClose (p : Fin NPROC) (arg : Option Int32) : Sys Int32 := do
  let x ← getProc p
  match arg with
  | none => return -1
  | some n =>
    if h : 0 ≤ n.toInt ∧ n.toInt.toNat < NOFILE then
      let fd : Fin NOFILE := ⟨n.toInt.toNat, h.2⟩
      match x.ofile fd with
      | none => return -1
      | some f =>
        fdclear p fd
        fileclose L f
        return 0
    else return -1

/-- `sys_dup` -/
def sysDup (p : Fin NPROC) (arg : Option Int32) : Sys Int32 := do
  let x ← getProc p
  match arg with
  | none => return -1
  | some n =>
    if h : 0 ≤ n.toInt ∧ n.toInt.toNat < NOFILE then
      match x.ofile ⟨n.toInt.toNat, h.2⟩ with
      | none => return -1
      | some f =>
        match ← fdalloc p f with
        | none => return -1
        | some fd =>
          filedup f
          return Int32.ofNat fd
    else return -1

/-- `sys_open`, with the type of the inode that `create` or `namei` returns. There is none if
there is no such inode or an argument cannot be read. -/
def sysOpen (p : Fin NPROC) (inode : Option FileType) (omode : UInt32) : Sys Int32 := do
  match inode with
  | none => return -1
  | some type =>
    if omode &&& O_CREATE = 0 ∧ type = .dir ∧ omode ≠ O_RDONLY then return -1
    else
      match ← filealloc with
      | none => return -1
      | some f =>
        match ← fdalloc p f with
        | none =>
          fileclose L f
          return -1
        | some fd =>
          modifyFile f fun x =>
            { x with
              type := .inode
              readable := omode &&& O_WRONLY = 0
              writable := omode &&& O_WRONLY ≠ 0 ∨ omode &&& O_RDWR ≠ 0 }
          return Int32.ofNat fd

/-! ### Processes -/

/-- `allocproc` -/
def allocproc : Sys (Option (Fin NPROC)) := do
  let k ← Exec.get
  match (List.finRange NPROC).find? fun p => (k.proc p).state = .unused with
  | none => return none
  | some p =>
    modifyProc p fun x => { x with state := .embryo, pid := k.nextpid }
    Exec.modify Kernel.nextPid
    let kstack ← onMem kalloc
    modifyProc p fun x => { x with kstack := kstack }
    match kstack with
    | none =>
      modifyProc p fun x => { x with state := .unused }
      return none
    | some _ => return some p

/-- `userinit` -/
def userinit (initcode : Page) : Sys Unit := do
  let p ← deref (← allocproc)
  Exec.modify fun k => k.setInitproc p
  match ← onMem (setupkvm L) with
  | none => Exec.stop .userinit
  | some pgdir =>
    modifyProc p fun x => { x with pgdir := some pgdir }
    onMem (inituvm pgdir initcode)
    modifyProc p fun x => { x with sz := PGSIZE, state := .runnable }

/-- `switchuvm` -/
def switchuvm (p : Fin NPROC) : Sys Unit := do
  let x ← getProc p
  stopIf (x.kstack = none ∨ x.pgdir = none) .switchuvm

/-- The sum of an unsigned and a signed number, as an unsigned number. -/
def plus (sz : ℕ) (n : Int32) : ℕ := ((sz + n.toInt) % 2 ^ 32).toNat

/-- `growproc`. The result is false if it returns -1. -/
def growproc (p : Fin NPROC) (n : Int32) : Sys Bool := do
  let x ← getProc p
  let pgdir ← deref x.pgdir
  let sz ←
    if 0 < n then onMem (allocuvm L pgdir x.sz (plus x.sz n))
    else if n < 0 then onMem (deallocuvm L pgdir x.sz (plus x.sz n))
    else pure x.sz
  if n ≠ 0 ∧ sz = 0 then return false
  else
    modifyProc p fun x => { x with sz := sz }
    switchuvm p
    return true

/-- `sys_sbrk` -/
def sysSbrk (p : Fin NPROC) (arg : Option Int32) : Sys Int32 := do
  match arg with
  | none => return -1
  | some n =>
    let x ← getProc p
    if ← growproc L p n then return Int32.ofNat x.sz
    else return -1

/-- The loop of `fork` over the open files. -/
def dupFiles (p np : Fin NPROC) : Sys Unit :=
  Exec.each (fun fd => do
    let x ← getProc p
    match x.ofile fd with
    | none => return ()
    | some f =>
      filedup f
      modifyProc np fun y => y.setFd fd (some f))
    (List.finRange NOFILE)

/-- `fork` -/
def fork (p : Fin NPROC) : Sys Int32 := do
  match ← allocproc with
  | none => return -1
  | some np =>
    let x ← getProc p
    let pgdir ← deref x.pgdir
    let d ← onMem (copyuvm L pgdir x.sz)
    modifyProc np fun y => { y with pgdir := d }
    match d with
    | none =>
      let y ← getProc np
      onMem (kfreePtr L y.kstack)
      modifyProc np fun y => { y with kstack := none, state := .unused }
      return -1
    | some _ =>
      modifyProc np fun y => { y with sz := x.sz, parent := some p }
      dupFiles p np
      let y ← getProc np
      modifyProc np fun y => { y with state := .runnable }
      return y.pid

/-- `exit` -/
def exit (p : Fin NPROC) : Sys Unit := do
  let k ← Exec.get
  stopIf (k.initproc = some p) .initExiting
  Exec.each (fun fd => do
    let x ← getProc p
    match x.ofile fd with
    | none => return ()
    | some f =>
      fileclose L f
      fdclear p fd)
    (List.finRange NOFILE)
  Exec.each (fun q => do
    let y ← getProc q
    if y.parent = some p then modifyProc q fun y => { y with parent := k.initproc })
    (List.finRange NPROC)
  modifyProc p fun x => { x with state := .zombie }

/-- One scan of `wait`; there is no result if the process then sleeps. -/
def wait (p : Fin NPROC) : Sys (Option Int32) := do
  let k ← Exec.get
  match (List.finRange NPROC).find? fun q =>
    (k.proc q).parent = some p ∧ (k.proc q).state = .zombie with
  | some q =>
    let y ← getProc q
    onMem (kfreePtr L y.kstack)
    modifyProc q fun y => { y with kstack := none }
    onMem (freevm L y.pgdir)
    modifyProc q fun y => { y with pid := 0, parent := none, killed := false, state := .unused }
    return some y.pid
  | none =>
    if (∀ q, (k.proc q).parent ≠ some p) ∨ (k.proc p).killed = true then return some (-1)
    else return none

/-! ### Programs -/

/-- `struct proghdr`, and what `readi` then makes of the pages of the segment. -/
structure Segment where
  /-- The type is `ELF_PROG_LOAD`. -/
  load : Bool
  vaddr : UInt32
  filesz : UInt32
  memsz : UInt32
  readi : ℕ → Option (Page → Page)

/-- An executable file. The header or a program header is missing if `readi` comes short. -/
structure Program where
  magic : Option UInt32
  segments : List (Option Segment)

/-- A string argument: where it is, its length, and what its copy makes of a page. -/
structure Arg where
  addr : ℕ
  len : ℕ
  put : ℕ → Page → Page

/-- The loop of `exec` over the program headers; no result means `goto bad`. -/
def loadSegments (pgdir : ℕ) : List (Option Segment) → ℕ → Code (Option ℕ)
  | [], sz => return some sz
  | none :: _, _ => return none
  | some ph :: phs, sz =>
    if ph.load = false then loadSegments pgdir phs sz
    else if ph.memsz < ph.filesz then return none
    else if ph.vaddr + ph.memsz < ph.vaddr then return none
    else do
      let sz' ← allocuvm L pgdir sz (ph.vaddr + ph.memsz).toNat
      if sz' = 0 then return none
      else if ph.vaddr.toNat % PGSIZE ≠ 0 then return none
      else if ← loaduvm pgdir ph.vaddr.toNat ph.filesz.toNat ph.readi then
        loadSegments pgdir phs sz'
      else return none

/-- `(sp - n) & ~3` -/
def pushDown (sp n : ℕ) : ℕ := (sp + 2 ^ 32 - n) % 2 ^ 32 / 4 * 4

/-- The loop of `exec` over the arguments. -/
def pushArgs (pgdir : ℕ) : List Arg → ℕ → ℕ → Code (Option ℕ)
  | [], _, sp => return some sp
  | a :: argv, argc, sp =>
    if MAXARG ≤ argc then return none
    else do
      let sp' := pushDown sp (a.len + 1)
      if ← copyout pgdir a.put TURNS sp' (a.len + 1) then pushArgs pgdir argv (argc + 1) sp'
      else return none

/-- The part of `exec` that makes the user stack: the pages from `base` up to `top`, of which the
first is out of bounds, and the arguments. The result is the new size. -/
def buildStack (pgdir base top : ℕ) (argv : List Arg) (ustack : ℕ → Page → Page) :
    Code (Option ℕ) := do
  let sz ← allocuvm L pgdir base top
  if sz = 0 then return none
  else
    clearpteu pgdir (sz - 2 * PGSIZE)
    match ← pushArgs pgdir argv 0 sz with
    | none => return none
    | some sp =>
      let n := (3 + argv.length + 1) * 4
      if ← copyout pgdir ustack TURNS ((sp + 2 ^ 32 - n) % 2 ^ 32) n then return some sz
      else return none

/-- The body of `exec` between `setupkvm` and the commit. -/
def buildImage (pgdir : ℕ) (segments : List (Option Segment)) (argv : List Arg)
    (ustack : ℕ → Page → Page) : Code (Option ℕ) := do
  match ← loadSegments L pgdir segments 0 with
  | none => return none
  | some sz => buildStack L pgdir (pgRoundUp sz) (pgRoundUp sz + 2 * PGSIZE) argv ustack

/-- `exec`; there is no program if neither `path` nor an entry of `PATH` leads to one. -/
def exec (p : Fin NPROC) (prog : Option Program) (argv : List Arg) (ustack : ℕ → Page → Page) :
    Sys Int32 := do
  match prog with
  | none => return -1
  | some prog =>
    if prog.magic ≠ some ELF_MAGIC then return -1
    else
      match ← onMem (setupkvm L) with
      | none => return -1
      | some pgdir =>
        match ← onMem (buildImage L pgdir prog.segments argv ustack) with
        | none =>
          onMem (freevm L (some pgdir))
          return -1
        | some sz =>
          let x ← getProc p
          modifyProc p fun y => { y with pgdir := some pgdir, sz := sz }
          switchuvm p
          onMem (freevm L x.pgdir)
          return 0

/-- The loop of `sys_exec`, from argument `i` on. An argument is missing if it cannot be read. -/
def fetchArgs (sz : ℕ) : ℕ → List (Option Arg) → Option (List Arg)
  | i, [] => if MAXARG ≤ i then none else some []
  | _, none :: _ => none
  | i, some a :: argv =>
    if MAXARG ≤ i then none
    -- `fetchstr`
    else if sz ≤ a.addr + a.len then none
    else (fetchArgs sz (i + 1) argv).map (a :: ·)

/-- `sys_exec` -/
def sysExec (p : Fin NPROC) (prog : Option Program) (uargv : List (Option Arg))
    (ustack : ℕ → Page → Page) : Sys Int32 := do
  let x ← getProc p
  match fetchArgs x.sz 0 uargv with
  | none => return -1
  | some argv => exec L p prog argv ustack

/-! ### Histories -/

/-- The system calls. -/
inductive Call
  | fork
  | exec (prog : Option Program) (uargv : List (Option Arg)) (ustack : ℕ → Page → Page)
  | sbrk (arg : Option Int32)
  | pipe (arg : Option UInt32) (put : ℕ → Page → Page)
  | close (arg : Option Int32)
  | dup (arg : Option Int32)
  | open (inode : Option FileType) (omode : UInt32)
  | exit
  | wait

/-- A system call of a process, and which calls of `kalloc` may succeed during it. -/
structure Request where
  proc : Fin NPROC
  call : Call
  fate : ℕ → Bool

/-- A system call, if there is such a process. -/
def syscall (r : Request) : Sys Unit := do
  let x ← getProc r.proc
  if x.state = .runnable then
    onMem (Exec.modify fun m => { m with fate := r.fate })
    match r.call with
    | .fork => let _ ← fork L r.proc
    | .exec prog uargv ustack => let _ ← sysExec L r.proc prog uargv ustack
    | .sbrk arg => let _ ← sysSbrk L r.proc arg
    | .pipe arg put => let _ ← sysPipe L r.proc arg put
    | .close arg => let _ ← sysClose L r.proc arg
    | .dup arg => let _ ← sysDup r.proc arg
    | .open inode omode => let _ ← sysOpen L r.proc inode omode
    | .exit => exit L r.proc
    | .wait => let _ ← wait L r.proc

/-- `main`, up to the first process. -/
def boot (initcode : Page) : Sys Unit := do
  onMem (freerange L L.kernelEnd (KERNBASE + 4 * 1024 * 1024))
  let kpgdir ← onMem (setupkvm L)
  Exec.modify fun k => k.setKpgdir kpgdir
  -- `switchkvm` loads the address
  stopIf (kpgdir = none) .null
  onMem (freerange L (KERNBASE + 4 * 1024 * 1024) (KERNBASE + PHYSTOP))
  userinit L initcode

/-- The kernel before `main`, with its data zeroed. What is in the pages is not known. -/
def blank (page : ℕ → Page) : Kernel where
  mem := { page := page, freelist := none, fate := fun _ => true }
  kpgdir := none
  proc := fun _ => {}
  initproc := none
  nextpid := 1
  file := fun _ => {}
  events := []

end Xv6.Vm
