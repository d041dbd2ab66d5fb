import Mathlib.Data.Finset.Card
import Xv6.File.Calls

/-!
# Inodes, directories and open files

The state that the operations work on, at the level of inodes: an inode on the
disk has its fields and either a list of directory entries or a length. The
inode cache adds the reference counts, the sleep locks and the copies in memory.
`fsOp p` is what the operations do when process `p` performs them.

## Implementation notes

The block numbers of an inode are left out; what remains of them is the number
of blocks that its size takes up, so that `balloc` runs out of blocks when the
disk does. Contents are kept with the inode on the disk: every operation that
changes the size or the blocks of an inode ends with `iupdate`. A cache entry
is free when its reference count is zero, and what the other fields of a free
entry hold does not matter. An `acquire` of a lock that is taken stops with
`hang`: no other process runs to release it.
-/

namespace Xv6.File
open Fs Lib Function

/-- `struct dirent`; the entry is in use if `inum` is not zero. -/
structure Dirent where
  inum : Inum
  name : Name
  deriving DecidableEq, Repr

/-- A file with another reference count. -/
def OpenFile.withRef (x : OpenFile) (r : ℕ) : OpenFile := { x with ref := r }

/-- The size of a directory entry. -/
def DIRENTSIZE : ℕ := 2 + DIRSIZ

/-- An inode on the disk: its fields and contents, `len` being the size of what is not a
directory. -/
structure Node where
  info : Meta := {}
  ents : List Dirent := []
  len : ℕ := 0
  deriving DecidableEq, Repr

/-- The fields of an inode that is freed. -/
def Meta.freed (m : Meta) : Meta := { m with type := .free }

@[simp] lemma Meta.freed_type (m : Meta) : m.freed.type = .free := rfl

/-- The size of an inode in bytes. -/
def Node.size (n : Node) : ℕ := if n.info.type = .dir then DIRENTSIZE * n.ents.length else n.len

/-- The blocks for `size` bytes, with the indirect block if there is one. -/
def blocksFor (size : ℕ) : ℕ :=
  let b := (size + (BSIZE - 1)) / BSIZE
  if b ≤ NDIRECT then b else b + 1

/-- The disk, the reference counts of the inode cache, the open files and the processes. -/
structure Store where
  /-- `sb.ninodes` -/
  ninodes : ℕ
  /-- `inum` of `struct dirent` is a `ushort`. -/
  ninodes_lt : ninodes < 65536
  /-- The number of free blocks; the bitmap says which they are. -/
  nfree : ℕ
  node : Inum → Node
  ref : Inum → ℕ
  file : Fin NFILE → OpenFile
  cwd : Pid → Option Inum
  ofile : Pid → Fin NOFILE → Option (Fin NFILE)
  initproc : Pid

/-- The whole state: the store with the locks and the copies of the inode cache. -/
structure FsState extends Store where
  lock : Inum → Option Pid
  valid : Inum → Bool
  info : Inum → Meta

namespace Store

variable (v : Store)

/-- The type of an inode on the disk. -/
def type (i : Inum) : FileType := (v.node i).info.type

/-- Cache entries in use. -/
def inUse : ℕ := ((Finset.range v.ninodes).filter fun i => 0 < v.ref i).card

/-- The inode that `ialloc` finds. -/
def freeInum : Option Inum := (List.range v.ninodes).find? fun i => 1 ≤ i && v.type i == .free

/-- The entry of the file table that `filealloc` finds. -/
def freeFile : Option (Fin NFILE) := (List.finRange NFILE).find? fun f => (v.file f).ref == 0

/-- The descriptor that `fdalloc` finds. -/
def freeFd (p : Pid) : Option (Fin NOFILE) :=
  (List.finRange NOFILE).find? fun fd => v.ofile p fd == none

/-- The descriptor and the file that `argfd` finds. -/
def openFd (p : Pid) (fd : ℤ) : Option (Fin NOFILE × Fin NFILE) :=
  if h : 0 ≤ fd ∧ fd.toNat < NOFILE then
    (v.ofile p ⟨fd.toNat, h.2⟩).map fun f => (⟨fd.toNat, h.2⟩, f)
  else
    none

@[simps -fullyApplied node ref]
def setRef (i : Inum) (r : ℕ) : Store := { v with ref := update v.ref i r }

def addRef (i : Inum) : Store := v.setRef i (v.ref i + 1)

def dropRef (i : Inum) : Store := v.setRef i (v.ref i - 1)

@[simps -fullyApplied node ref]
def setNode (i : Inum) (n : Node) : Store := { v with node := update v.node i n }

def setInfo (i : Inum) (m : Meta) : Store := v.setNode i { v.node i with info := m }

def setEnts (i : Inum) (es : List Dirent) : Store := v.setNode i { v.node i with ents := es }

/-- Give back the blocks of an inode. -/
def truncate (i : Inum) (m : Meta) : Store :=
  { v.setNode i { info := m } with nfree := v.nfree + blocksFor (v.node i).size }

def setFile (f : Fin NFILE) (x : OpenFile) : Store := { v with file := update v.file f x }

/-- The last reference to a file is gone. -/
def dropFile (f : Fin NFILE) : Store := v.setFile f { v.file f with ref := 0, type := .none }

def setFd (p : Pid) (fd : Fin NOFILE) (f : Option (Fin NFILE)) : Store :=
  { v with ofile := update v.ofile p (update (v.ofile p) fd f) }

def setCwd (p : Pid) (i : Option Inum) : Store := { v with cwd := update v.cwd p i }

variable (i j : Inum) (r : ℕ) (n : Node) (m : Meta) (es : List Dirent)

@[simp] lemma addRef_node : (v.addRef i).node = v.node := rfl

@[simp] lemma addRef_ref : (v.addRef i).ref = update v.ref i (v.ref i + 1) := rfl

@[simp] lemma dropRef_node : (v.dropRef i).node = v.node := rfl

@[simp] lemma dropRef_ref : (v.dropRef i).ref = update v.ref i (v.ref i - 1) := rfl

@[simp] lemma setInfo_node :
    (v.setInfo i m).node = update v.node i { v.node i with info := m } := rfl

@[simp] lemma setInfo_ref : (v.setInfo i m).ref = v.ref := rfl

@[simp] lemma setEnts_node :
    (v.setEnts i es).node = update v.node i { v.node i with ents := es } := rfl

@[simp] lemma setEnts_ref : (v.setEnts i es).ref = v.ref := rfl

@[simp] lemma truncate_node : (v.truncate i m).node = update v.node i { info := m } := rfl

@[simp] lemma truncate_ref : (v.truncate i m).ref = v.ref := rfl

end Store

/-- Look for a name, from entry `k` on. -/
def scan (name : Name) : List Dirent → ℕ → Option (Inum × ℕ)
  | [], _ => none
  | e :: es, k => if e.inum ≠ 0 ∧ e.name = name then some (e.inum, k) else scan name es (k + 1)

/-- The first entry that is not in use, or the end of the directory. -/
def freeSlot (es : List Dirent) : ℕ := es.findIdx (·.inum == 0)

/-- Blocks that a directory needs for one more entry at its end. -/
def growth (es : List Dirent) : ℕ :=
  blocksFor (DIRENTSIZE * (es.length + 1)) - blocksFor (DIRENTSIZE * es.length)

/-- Add an entry at the end of a directory. -/
def Store.append (v : Store) (dp : Inum) (m : Meta) (e : Dirent) : Store :=
  { v.setNode dp { v.node dp with info := m, ents := (v.node dp).ents ++ [e] } with
    nfree := v.nfree - growth (v.node dp).ents }

/-- The file table entry that `sys_open` fills in. -/
def openedFile (x : OpenFile) (ip : Inum) (omode : UInt32) : OpenFile :=
  { x with
    type := .inode
    ip := ip
    off := 0
    readable := !(omode &&& O_WRONLY != 0)
    writable := omode &&& O_WRONLY != 0 || omode &&& O_RDWR != 0 }

namespace FsState

/-- Change the store. -/
@[simps -fullyApplied toStore lock valid info]
def onStore (s : FsState) (f : Store → Store) : FsState := { s with toStore := f s.toStore }

@[simps -fullyApplied toStore lock valid info]
def setLock (s : FsState) (i : Inum) (o : Option Pid) : FsState :=
  { s with lock := update s.lock i o }

@[simps -fullyApplied toStore lock valid info]
def setValid (s : FsState) (i : Inum) (b : Bool) : FsState := { s with valid := update s.valid i b }

@[simps -fullyApplied toStore lock valid info]
def setCopy (s : FsState) (i : Inum) (m : Meta) : FsState := { s with info := update s.info i m }

end FsState

/-- Computations on the state of the file system. -/
abbrev FsExec (α : Type) : Type := Exec Stop FsState α

open Exec in
/-- `iget` -/
def igetOp (i : Inum) : FsExec Unit := do
  let s ← get
  if 0 < s.ref i then
    modify (·.onStore (·.addRef i))
  else if NINODE ≤ s.inUse then
    stop (.panic .iget)
  else
    modify fun s => (s.setValid i false).onStore (·.setRef i 1)

open Exec in
/-- The part of `ilock` behind `acquiresleep`. -/
def loadOp (i : Inum) : FsExec Unit := do
  let s ← get
  if s.valid i then
    pure ()
  else
    modify fun s => (s.setCopy i (s.node i).info).setValid i true
    stopIf ((s.node i).info.type = .free) (.panic .ilockNoType)

open Exec in
/-- `ialloc` up to its call of `iget`. -/
def iallocOp (t : FileType) : FsExec Inum := do
  match (← get).freeInum with
  | none => stop (.panic .ialloc)
  | some i => do
    modify (·.onStore (·.setNode i { info := { type := t } }))
    pure i

open Exec in
/-- The part of `dirlink` behind its call of `dirlookup`. -/
def dirwriteOp (dp : Inum) (name : Name) (i : Inum) : FsExec Unit := do
  let s ← get
  let es := (s.node dp).ents
  if freeSlot es < es.length then
    modify (·.onStore (·.setEnts dp (es.set (freeSlot es) ⟨i, name⟩)))
  else
    stopIf (MAXFILE * BSIZE < DIRENTSIZE * (es.length + 1)) (.panic .dirlink)
    stopIf (s.nfree < growth es) (.panic .balloc)
    modify (·.onStore (·.append dp (s.info dp) ⟨i, name⟩))

open Exec in
/-- The critical section of `fileclose`. -/
def fileDropOp (f : Fin NFILE) : FsExec (Option OpenFile) := do
  let s ← get
  let x := s.file f
  if x.ref < 1 then
    stop (.panic .fileclose)
  else if 1 < x.ref then
    modify (·.onStore (·.setFile f (x.withRef (x.ref - 1))))
    pure none
  else
    modify (·.onStore (·.dropFile f))
    pure (some (x.withRef 0))

open Exec in
/-- What the operations do for process `p`. -/
def fsOp (p : Pid) : (o : FsOp) → FsExec o.Res
  | .beginOp => pure ()
  | .endOp => pure ()
  | .panic e => stop (.panic e)
  | .overrun => stop .overrun
  | .cwd => do
    match (← get).cwd p with
    | some i => pure i
    | none => stop .overrun
  | .setCwd i => modify (·.onStore (·.setCwd p i))
  | .iget _ i => do
    igetOp i
    pure i
  | .dev _ => pure ROOTDEV
  | .inum i => pure i
  | .idup i => modify (·.onStore (·.addRef i))
  | .ref i => do pure ((← get).ref i)
  | .acquire i => do
    stopIf ((← get).lock i ≠ none) .hang
    modify (·.setLock i (some p))
  | .holding i => do pure ((← get).lock i == some p)
  | .release i => modify (·.setLock i none)
  | .load i => loadOp i
  | .valid i => do pure ((← get).valid i)
  | .getMeta i => do pure ((← get).info i)
  | .setMeta i m => modify (·.setCopy i m)
  | .iupdate i => modify fun s => s.onStore (·.setInfo i (s.info i))
  | .itrunc i => modify fun s => s.onStore (·.truncate i (s.info i))
  | .invalidate i => modify (·.setValid i false)
  | .decref i => modify (·.onStore (·.dropRef i))
  | .ialloc t => iallocOp t
  | .dirscan dp name => do pure (scan name ((← get).node dp).ents 0)
  | .dirwrite dp name i => dirwriteOp dp name i
  | .clearEntry dp k => modify (·.onStore fun v =>
    v.setEnts dp ((v.node dp).ents.set k ⟨0, []⟩))
  | .isdirempty dp => do pure (((← get).node dp).ents.drop 2 |>.all (·.inum == 0))
  | .filealloc => do
    match (← get).freeFile with
    | none => pure none
    | some f => do
      modify (·.onStore fun v => v.setFile f ((v.file f).withRef 1))
      pure (some f)
  | .fdalloc f => do
    match (← get).freeFd p with
    | none => pure none
    | some fd => do
      modify (·.onStore (·.setFd p fd (some f)))
      pure (some fd)
  | .setFile f i omode => modify (·.onStore fun v => v.setFile f (openedFile (v.file f) i omode))
  | .argfd fd => do pure ((← get).openFd p fd)
  | .ofile fd => do pure ((← get).ofile p fd)
  | .clearFd fd => modify (·.onStore (·.setFd p fd none))
  | .fileDrop f => fileDropOp f
  | .isInit => do pure (p == (← get).initproc)

section
variable {p : Pid} {i : Inum} {s : FsState} {E : Stop → FsState → Prop}

open Exec

lemma wp_ref {Q : ℕ → FsState → Prop} :
    wp ((perform (.ref i)).run (fsOp p)) Q E s ↔ Q (s.ref i) s :=
  Iff.rfl

lemma fsOp_cwd (h : s.cwd p = some i) : fsOp p .cwd s = .ok i s := by
  rw [fsOp, bind_ok (x := get) rfl, h]
  rfl

variable {Q : Unit → FsState → Prop}

lemma wp_release : wp ((perform (.release i)).run (fsOp p)) Q E s ↔ Q () (s.setLock i none) :=
  Iff.rfl

lemma wp_decref :
    wp ((perform (.decref i)).run (fsOp p)) Q E s ↔ Q () (s.onStore (·.dropRef i)) :=
  Iff.rfl

lemma wp_iget {dev : ℕ} {Q : Inum → FsState → Prop} :
    wp ((perform (.iget dev i)).run (fsOp p)) Q E s ↔
    if 0 < s.ref i then Q i (s.onStore (·.addRef i))
    else if NINODE ≤ s.inUse then E (.panic .iget) s
    else Q i ((s.setValid i false).onStore (·.setRef i 1)) := by
  refine (Prog.wp_perform (S := fsSig) (h := fsOp p) (.iget dev i)).trans ?_
  simp only [fsOp, igetOp, wp_bind, wp_get]
  split
  · rfl
  · split <;> rfl

lemma wp_acquire : wp ((perform (.acquire i)).run (fsOp p)) Q E s ↔
    if s.lock i = none then Q () (s.setLock i (some p)) else E .hang s := by
  refine (Prog.wp_perform (S := fsSig) (h := fsOp p) (.acquire i)).trans ?_
  simp only [fsOp, wp_bind, wp_get, wp_stopIf, wp_modify]
  split <;> simp_all

lemma wp_load : wp ((perform (.load i)).run (fsOp p)) Q E s ↔ if s.valid i = true then Q () s
    else if s.type i = .free then
      E (.panic .ilockNoType) ((s.setCopy i (s.node i).info).setValid i true)
    else Q () ((s.setCopy i (s.node i).info).setValid i true) := by
  refine (Prog.wp_perform (S := fsSig) (h := fsOp p) (.load i)).trans ?_
  simp only [fsOp, loadOp, wp_bind, wp_get, Store.type]
  split
  · rfl
  · simp only [wp_bind, wp_modify, wp_stopIf]
    by_cases hfree : (s.node i).info.type = .free <;> simp [hfree]

end
end Xv6.File
