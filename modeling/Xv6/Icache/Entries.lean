import Xv6.File.Inodes
import Xv6.Process.Table

/-!
# The inode cache

The cache is an array of entries. `iget` looks for an entry in use with the device
and the number of the inode, and takes the first entry that is not in use if there
is none. The file system calls work on pointers to entries, and so do the processes
and open files that keep them. `cacheOp p` is what the operations do when process
`p` performs them.

## Implementation notes

The disk is as in the model that names inodes by their numbers. A pointer in a file
is only looked at if the file is for an inode. Calls are complete, so `acquire` of a
lock that is taken stops with `hang`. Of the processes the model has the state, the
working directory and the descriptors; a `wait` that finds a zombie is a request to
reap it.
-/

namespace Xv6.Icache
open Fs Lib File Function
open Process (ProcState)

/-- Pointers to entries of the cache. -/
abbrev Ptr : Type := Fin NINODE

instance : NeZero NINODE := ⟨by decide⟩

/-- `struct inode`, without the size and the block numbers. -/
structure Inode where
  dev : ℕ := 0
  inum : Inum := 0
  ref : ℕ := 0
  lock : Option Pid := none
  valid : Bool := false
  info : Meta := {}

/-- The disk, the inode cache, the file table and the process table. -/
structure State where
  /-- `sb.ninodes` -/
  ninodes : ℕ
  /-- Free blocks. -/
  nfree : ℕ
  node : Inum → Node
  inode : Ptr → Inode
  file : Fin NFILE → OpenFile Ptr
  state : Pid → ProcState
  cwd : Pid → Option Ptr
  ofile : Pid → Fin NOFILE → Option (Fin NFILE)
  initproc : Pid

namespace State

@[simps -fullyApplied]
def setNode (s : State) (i : Inum) (n : Node) : State := { s with node := update s.node i n }

@[simps -fullyApplied]
def setFree (s : State) (n : ℕ) : State := { s with nfree := n }

@[simps -fullyApplied]
def setInode (s : State) (t : Ptr) (x : Inode) : State := { s with inode := update s.inode t x }

@[simps -fullyApplied]
def setFile (s : State) (f : Fin NFILE) (x : OpenFile Ptr) : State :=
  { s with file := update s.file f x }

@[simps -fullyApplied]
def setState (s : State) (p : Pid) (st : ProcState) : State :=
  { s with state := update s.state p st }

@[simps -fullyApplied]
def setCwd (s : State) (p : Pid) (o : Option Ptr) : State := { s with cwd := update s.cwd p o }

@[simps -fullyApplied]
def setFd (s : State) (p : Pid) (fd : Fin NOFILE) (o : Option (Fin NFILE)) : State :=
  { s with ofile := update s.ofile p (update (s.ofile p) fd o) }

/-- The inode on the disk that an entry is for. -/
def nodeOf (s : State) (t : Ptr) : Node := s.node (s.inode t).inum

def setNodeOf (s : State) (t : Ptr) (n : Node) : State := s.setNode (s.inode t).inum n

end State

/-- Code that works on inodes, files and processes. -/
abbrev Code (α : Type) : Type := Exec Stop State α

/-- The entry is in use for the inode. -/
def Inode.Is (x : Inode) (dev : ℕ) (inum : Inum) : Prop := 0 < x.ref ∧ x.dev = dev ∧ x.inum = inum

instance (x : Inode) (dev : ℕ) (inum : Inum) : Decidable (x.Is dev inum) :=
  inferInstanceAs (Decidable (_ ∧ _ ∧ _))

/-- The loop of `iget`: the entry for the inode, or the first one that is not in use. -/
def igetLoop (inode : Ptr → Inode) (dev : ℕ) (inum : Inum) :
    List Ptr → Option Ptr → Option (Ptr ⊕ Ptr)
  | [], empty => empty.map .inr
  | t :: ts, empty =>
    if (inode t).Is dev inum then some (.inl t)
    else igetLoop inode dev inum ts (if empty = none ∧ (inode t).ref = 0 then some t else empty)

open Exec

/-- Assignments to an entry. -/
def modifyInode (t : Ptr) (g : Inode → Inode) : Code Unit :=
  modify fun s => s.setInode t (g (s.inode t))

/-- `iget` -/
def iget (dev : ℕ) (inum : Inum) : Code Ptr := do
  let s ← get
  match igetLoop s.inode dev inum (List.finRange NINODE) none with
  | some (.inl t) => do
    modifyInode t fun x => { x with ref := x.ref + 1 }
    pure t
  | none => stop (.panic .iget)
  | some (.inr t) => do
    modifyInode t fun x => { x with dev := dev, inum := inum, ref := 1, valid := false }
    pure t

/-- `idup` -/
def idup (t : Ptr) : Code Unit := modifyInode t fun x => { x with ref := x.ref + 1 }

/-- The part of `ilock` behind `acquiresleep`. -/
def load (t : Ptr) : Code Unit := do
  let s ← get
  if (s.inode t).valid then
    pure ()
  else
    modifyInode t fun x => { x with info := (s.nodeOf t).info, valid := true }
    stopIf ((s.nodeOf t).info.type = .free) (.panic .ilockNoType)

/-- `ialloc` up to its call of `iget`. -/
def ialloc (type : FileType) : Code Inum := do
  let s ← get
  match (List.range s.ninodes).find? fun i => 1 ≤ i && (s.node i).info.type == .free with
  | none => stop (.panic .ialloc)
  | some i => do
    modify fun s => s.setNode i { info := { type := type } }
    pure i

/-- The part of `dirlink` behind its call of `dirlookup`. -/
def dirwrite (dp : Ptr) (name : Name) (inum : Inum) : Code Unit := do
  let s ← get
  let n := s.nodeOf dp
  if freeSlot n.ents < n.ents.length then
    modify fun s => s.setNodeOf dp { n with ents := n.ents.set (freeSlot n.ents) ⟨inum, name⟩ }
  else
    stopIf (MAXFILE * BSIZE < DIRENTSIZE * (n.ents.length + 1)) (.panic .dirlink)
    stopIf (s.nfree < growth n.ents) (.panic .balloc)
    modify fun s => (s.setNodeOf dp
      { n with info := (s.inode dp).info, ents := n.ents ++ [⟨inum, name⟩] }).setFree
        (s.nfree - growth n.ents)

/-- `filealloc` -/
def filealloc : Code (Option (Fin NFILE)) := do
  let s ← get
  match (List.finRange NFILE).find? fun f => (s.file f).ref = 0 with
  | none => pure none
  | some f => do
    modify fun s => s.setFile f { s.file f with ref := 1 }
    pure (some f)

/-- `filedup` -/
def filedup (f : Fin NFILE) : Code Unit := do
  let s ← get
  stopIf ((s.file f).ref < 1) (.panic .filedup)
  modify fun s => s.setFile f { s.file f with ref := (s.file f).ref + 1 }

/-- The critical section of `fileclose`. -/
def fileDrop (f : Fin NFILE) : Code (Option (OpenFile Ptr)) := do
  let s ← get
  stopIf ((s.file f).ref < 1) (.panic .fileclose)
  if 1 < (s.file f).ref then
    modify fun s => s.setFile f { s.file f with ref := (s.file f).ref - 1 }
    pure none
  else
    modify fun s => s.setFile f { s.file f with ref := 0, type := .none }
    pure (some (s.file f))

/-- `fdalloc` -/
def fdalloc (p : Pid) (f : Fin NFILE) : Code (Option (Fin NOFILE)) := do
  let s ← get
  match (List.finRange NOFILE).find? fun fd => s.ofile p fd = none with
  | none => pure none
  | some fd => do
    modify fun s => s.setFd p fd (some f)
    pure (some fd)

lemma argfd_lt {fd : ℤ} (h : 0 ≤ fd ∧ fd.toNat < NOFILE) : fd.toNat < NOFILE := h.2

/-- `argfd`, if it can read its argument. -/
def argfd (p : Pid) (fd : ℤ) : Code (Option (Fin NOFILE × Fin NFILE)) := do
  let s ← get
  if h : 0 ≤ fd ∧ fd.toNat < NOFILE then
    pure ((s.ofile p ⟨fd.toNat, argfd_lt h⟩).map fun f => (⟨fd.toNat, argfd_lt h⟩, f))
  else
    pure none

/-- `p->cwd`, which the code uses without a test. -/
def getCwd (p : Pid) : Code Ptr := do
  match (← get).cwd p with
  | some t => pure t
  | none => stop .overrun

/-- What the operations do for process `p`. -/
def cacheOp (p : Pid) : (o : FsOp Ptr) → Code o.Res
  | .beginOp => pure ()
  | .endOp => pure ()
  | .panic e => stop (.panic e)
  | .overrun => stop .overrun
  | .cwd => getCwd p
  | .setCwd o => modify fun s => s.setCwd p o
  | .iget dev inum => iget dev inum
  | .dev t => do pure ((← get).inode t).dev
  | .inum t => do pure ((← get).inode t).inum
  | .idup t => idup t
  | .ref t => do pure ((← get).inode t).ref
  | .acquire t => do
    stopIf (((← get).inode t).lock ≠ none) .hang
    modifyInode t fun x => { x with lock := some p }
  | .holding t => do pure (((← get).inode t).lock == some p)
  | .release t => modifyInode t fun x => { x with lock := none }
  | .load t => load t
  | .valid t => do pure ((← get).inode t).valid
  | .getMeta t => do pure ((← get).inode t).info
  | .setMeta t m => modifyInode t fun x => { x with info := m }
  | .iupdate t => modify fun s => s.setNodeOf t { s.nodeOf t with info := (s.inode t).info }
  | .itrunc t => modify fun s => (s.setNodeOf t { info := (s.inode t).info }).setFree
      (s.nfree + blocksFor (s.nodeOf t).size)
  | .invalidate t => modifyInode t fun x => { x with valid := false }
  | .decref t => modifyInode t fun x => { x with ref := x.ref - 1 }
  | .ialloc type => ialloc type
  | .dirscan dp name => do pure (scan name ((← get).nodeOf dp).ents 0)
  | .dirwrite dp name inum => dirwrite dp name inum
  | .clearEntry dp k => modify fun s =>
    s.setNodeOf dp { s.nodeOf dp with ents := (s.nodeOf dp).ents.set k ⟨0, []⟩ }
  | .isdirempty dp => do pure (((← get).nodeOf dp).ents.drop 2 |>.all (·.inum == 0))
  | .filealloc => filealloc
  | .fdalloc f => fdalloc p f
  | .setFile f t omode => modify fun s => s.setFile f
      { s.file f with
        type := .inode
        ip := t
        off := 0
        readable := !(omode &&& O_WRONLY != 0)
        writable := omode &&& O_WRONLY != 0 || omode &&& O_RDWR != 0 }
  | .argfd fd => argfd p fd
  | .ofile fd => do pure ((← get).ofile p fd)
  | .clearFd fd => modify fun s => s.setFd p fd none
  | .fileDrop f => fileDrop f
  | .isInit => do pure (p == (← get).initproc)

/-! ### System calls -/

/-- The system calls with their arguments. -/
inductive Request
  /-- A call of `sysfile.c`, or `exit`. -/
  | file (r : File.Request)
  /-- `PATH` has the entries `dirs`; there is no path if `argstr` refuses it. -/
  | exec (dirs : List Path) (path : Option Path) (loads fits : Bool)
  /-- There may be no memory for the child. -/
  | fork (memory : Bool)
  /-- The zombie `q` is found by `wait`. -/
  | reap (q : Pid)

/-- One turn of the loop of `fork` over the open files. -/
def copyFd (p np : Pid) (fd : Fin NOFILE) : Code Unit := do
  match (← get).ofile p fd with
  | none => pure ()
  | some f => do
    filedup f
    modify fun s => s.setFd np fd (some f)

/-- `fork` -/
def fork (p : Pid) (memory : Bool) : Code Unit := do
  let s ← get
  match (List.finRange NPROC).find? fun q => s.state q = .unused with
  | none => pure ()
  | some np =>
    modify fun s => s.setState np .embryo
    if memory then
      each (copyFd p np) (List.finRange NOFILE)
      let cwd ← getCwd p
      idup cwd
      modify fun s => s.setCwd np (some cwd)
      modify fun s => s.setState np .runnable
    else
      modify fun s => s.setState np .unused

/-- The end of `exit`. -/
def becomeZombie (p : Pid) : File.Request → Code Unit
  | .exit => modify fun s => s.setState p .zombie
  | _ => pure ()

/-- The code that serves a request of process `p`. -/
def serve (p : Pid) : Request → Code Unit
  | .file r => do
    let _ ← r.code.run (cacheOp p)
    becomeZombie p r
  | .exec dirs (some path) loads fits => do
    let _ ← (File.exec dirs path loads fits).run (cacheOp p)
  | .exec _ none _ _ => pure ()
  | .fork memory => fork p memory
  | .reap q => do
    if (← get).state q = .zombie then
      modify fun s => s.setState q .unused

/-- A complete call, if there is such a process. -/
def syscall (c : Pid × Request) : Code Unit := do
  if (← get).state c.1 = .runnable then serve c.1 c.2

/-- The part of `userinit` that has to do with inodes. -/
def userinit : CallOn Ptr Unit := do
  match ← namei [File.slash] with
  | some (ip, _) => perform (.setCwd (some ip))
  | none => perform (.setCwd none)

/-- The kernel before the first process has a working directory; the disk is not known. -/
def blank (ninodes nfree : ℕ) (node : Inum → Node) : State where
  ninodes := ninodes
  nfree := nfree
  node := node
  inode _ := {}
  file _ := { ip := 0 }
  state p := if p = 0 then .runnable else .unused
  cwd _ := none
  ofile _ _ := none
  initproc := 0

end Xv6.Icache
