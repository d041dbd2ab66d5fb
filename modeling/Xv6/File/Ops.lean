import Xv6.Fs.Layout
import Xv6.Lib.Prog

/-!
# The operations of the file system calls

The code of `sysfile.c`, and of `fs.c` above the level of inodes, is written as
programs over a signature of operations. An operation is a piece of `fs.c`,
`file.c` or `sleeplock.c` that runs without waiting for an inode; only `acquire`
waits.

## Implementation notes

The programs are about pointers to inodes of any type `I`. Where the inode cache
itself is in question these are its entries. Otherwise an inode in memory is named
by its inode number: `iget` gives every number at most one cache entry in use, and
all inodes are on `ROOTDEV`. `dirscan` is the loop of `dirlookup`, `dirwrite` the
part of `dirlink` behind its call of `dirlookup`, and `clearEntry` the `writei` of
`sys_unlink`; they name a directory entry by its index. A process is named by its
slot in the process table.
-/

namespace Xv6.File
open Fs Lib

/-- Inode numbers. -/
abbrev Inum : Type := ℕ

/-- A name in a directory, without padding. -/
abbrev Name : Type := List UInt8

/-- A path, without the null byte at its end. -/
abbrev Path : Type := List UInt8

/-- Processes. -/
abbrev Pid : Type := Fin NPROC

instance : NeZero NPROC := ⟨by decide⟩

/-- The type of an inode: `0`, `T_DIR`, `T_FILE` or `T_DEV`. -/
inductive FileType
  | free
  | dir
  | file
  | dev
  deriving DecidableEq, Repr

/-- The fields of an inode that do not tell where its contents are. -/
structure Meta where
  type : FileType := .free
  major : Int16 := 0
  minor : Int16 := 0
  nlink : Int16 := 0
  deriving DecidableEq, Repr

/-- What a `struct file` stands for. -/
inductive FdType
  | none
  | pipe
  | inode
  deriving DecidableEq, Repr

/-- `struct file`, without the pipe. -/
structure OpenFile (I : Type := Inum) where
  type : FdType := .none
  ref : ℕ := 0
  readable : Bool := false
  writable : Bool := false
  ip : I
  off : ℕ := 0
  deriving DecidableEq, Repr

def O_RDONLY : UInt32 := 0x000

def O_WRONLY : UInt32 := 0x001

def O_RDWR : UInt32 := 0x002

def O_CREATE : UInt32 := 0x200

/-- The operations. -/
inductive FsOp (I : Type := Inum)
  | beginOp
  | endOp
  | panic (e : Panic)
  /-- An array is written to behind its end. -/
  | overrun
  /-- `myproc()->cwd` -/
  | cwd
  /-- `curproc->cwd = ip`, or `0` -/
  | setCwd (i : Option I)
  | iget (dev : ℕ) (i : Inum)
  /-- `ip->dev` -/
  | dev (i : I)
  /-- `ip->inum` -/
  | inum (i : I)
  | idup (i : I)
  /-- `ip->ref` -/
  | ref (i : I)
  /-- `acquiresleep(&ip->lock)` -/
  | acquire (i : I)
  /-- `holdingsleep(&ip->lock)` -/
  | holding (i : I)
  /-- `releasesleep(&ip->lock)` -/
  | release (i : I)
  /-- The part of `ilock` behind `acquiresleep`: read the inode if it is not valid. -/
  | load (i : I)
  /-- `ip->valid` -/
  | valid (i : I)
  /-- `ip->type`, `ip->nlink` and so on -/
  | getMeta (i : I)
  /-- Assignments to these fields. -/
  | setMeta (i : I) (m : Meta)
  | iupdate (i : I)
  | itrunc (i : I)
  /-- `ip->valid = 0` -/
  | invalidate (i : I)
  /-- `ip->ref--` -/
  | decref (i : I)
  /-- `ialloc` up to its call of `iget` -/
  | ialloc (t : FileType)
  | dirscan (dp : I) (name : Name)
  | dirwrite (dp : I) (name : Name) (i : Inum)
  | clearEntry (dp : I) (k : ℕ)
  | isdirempty (dp : I)
  | filealloc
  | fdalloc (f : Fin NFILE)
  /-- The assignments to `f` at the end of `sys_open`. -/
  | setFile (f : Fin NFILE) (i : I) (omode : UInt32)
  | argfd (fd : ℤ)
  /-- `curproc->ofile[fd]` -/
  | ofile (fd : Fin NOFILE)
  /-- `curproc->ofile[fd] = 0` -/
  | clearFd (fd : Fin NOFILE)
  /-- The critical section of `fileclose`; the file, if this was its last reference. -/
  | fileDrop (f : Fin NFILE)
  /-- `curproc == initproc` -/
  | isInit

/-- The results of the operations. -/
@[reducible]
def FsOp.Res {I : Type} : FsOp I → Type
  | panic _ => Empty
  | overrun => Empty
  | cwd => I
  | iget _ _ => I
  | dev _ => ℕ
  | inum _ => Inum
  | ref _ => ℕ
  | holding _ => Bool
  | valid _ => Bool
  | getMeta _ => Meta
  | ialloc _ => Inum
  | dirscan _ _ => Option (Inum × ℕ)
  | isdirempty _ => Bool
  | filealloc => Option (Fin NFILE)
  | fdalloc _ => Option (Fin NOFILE)
  | argfd _ => Option (Fin NOFILE × Fin NFILE)
  | ofile _ => Option (Fin NFILE)
  | fileDrop _ => Option (OpenFile I)
  | isInit => Bool
  | _ => Unit

/-- The signature. -/
@[reducible]
def fsSig (I : Type := Inum) : Signature := ⟨FsOp I, FsOp.Res⟩

/-- A piece of file system code. -/
abbrev CallOn (I : Type) (α : Type) : Type := Prog (fsSig I) α

/-- A piece of file system code that names inodes by their numbers. -/
abbrev Call (α : Type) : Type := CallOn Inum α

/-- Perform an operation. -/
abbrev perform {I : Type} (o : FsOp I) : CallOn I o.Res := Prog.perform (S := fsSig I) o

/-- `panic`. -/
def panicWith {I α : Type} (e : Panic) : CallOn I α := do
  let x ← perform (.panic e)
  nomatch x

end Xv6.File
