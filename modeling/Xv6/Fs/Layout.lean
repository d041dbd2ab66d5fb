import Mathlib.Algebra.GroupWithZero.Nat

/-!
# Parameters and layout of the file system

The constants of `param.h` and `fs.h`, the super block that `mkfs` writes, and
the ways in which file system code stops.

## Implementation notes

Sizes and block numbers are natural numbers. All of them stay below `FSSIZE`,
so that the 32-bit types of the source never wrap on them.
-/

namespace Xv6.Fs

/-- Bytes in a block. -/
def BSIZE : ℕ := 512

/-- The number of blocks that one file system operation may write. -/
def MAXOPBLOCKS : ℕ := 10

/-- The length of the array `block` of a log header. -/
def LOGSIZE : ℕ := MAXOPBLOCKS * 3

/-- The size of the buffer cache. -/
def NBUF : ℕ := MAXOPBLOCKS * 3

/-- The size of the file system in blocks. -/
def FSSIZE : ℕ := 1000

/-- The number of inodes that `mkfs` makes room for. -/
def NINODES : ℕ := 200

/-- The device of the root file system. -/
def ROOTDEV : ℕ := 1

/-- The inode number of the root directory. -/
def ROOTINO : ℕ := 1

/-- Entries of the inode cache. -/
def NINODE : ℕ := 50

/-- The size of the process table. -/
def NPROC : ℕ := 64

/-- Open files per system. -/
def NFILE : ℕ := 100

/-- Open files per process. -/
def NOFILE : ℕ := 16

/-- Bytes of a name in a directory. -/
def DIRSIZ : ℕ := 14

/-- Block numbers in an inode. -/
def NDIRECT : ℕ := 12

/-- Block numbers in an indirect block. -/
def NINDIRECT : ℕ := BSIZE / 4

/-- The largest file, in blocks. -/
def MAXFILE : ℕ := NDIRECT + NINDIRECT

/-- Inodes per block: `struct dinode` has 64 bytes. -/
def IPB : ℕ := BSIZE / 64

/-- Bitmap bits per block. -/
def BPB : ℕ := BSIZE * 8

/-- `struct superblock`. -/
structure Superblock where
  size : ℕ
  nblocks : ℕ
  ninodes : ℕ
  nlog : ℕ
  logstart : ℕ
  inodestart : ℕ
  bmapstart : ℕ
  deriving DecidableEq, Repr

/-- The super block that `mkfs` writes. -/
def mkfsSuperblock : Superblock :=
  let nbitmap := FSSIZE / BPB + 1
  let ninodeblocks := NINODES / IPB + 1
  let nlog := LOGSIZE
  let nmeta := 2 + nlog + ninodeblocks + nbitmap
  { size := FSSIZE
    nblocks := FSSIZE - nmeta
    ninodes := NINODES
    nlog := nlog
    logstart := 2
    inodestart := 2 + nlog
    bmapstart := 2 + nlog + ninodeblocks }

/-- The panics of the file system code, from `ide.c` up to `sysfile.c`. -/
inductive Panic
  /-- The text is `incorrect blockno`. -/
  | idestart
  /-- The text is `iderw: buf not locked`. -/
  | iderwNotLocked
  /-- The text is `iderw: nothing to do`. -/
  | iderwNothing
  /-- The text is `bget: no buffers`. -/
  | bget
  | bwrite
  | brelse
  /-- The text is `too big a transaction`. -/
  | tooBig
  /-- The text is `log_write outside of trans`. -/
  | outsideTrans
  /-- The text is `log.committing`. -/
  | committing
  /-- The text is `balloc: out of blocks`. -/
  | balloc
  /-- The text is `freeing free block`. -/
  | bfree
  /-- The text is `ialloc: no inodes`. -/
  | ialloc
  /-- The text is `iget: no inodes`. -/
  | iget
  | ilock
  /-- The text is `ilock: no type`. -/
  | ilockNoType
  | iunlock
  /-- The text is `bmap: out of range`. -/
  | bmap
  /-- The text is `dirlookup not DIR`. -/
  | dirlookupNotDir
  /-- The text is `dirlookup read`. -/
  | dirlookupRead
  /-- The text is `dirlink read`. -/
  | dirlinkRead
  | dirlink
  /-- The text is `isdirempty: readi`. -/
  | isdirempty
  /-- The text is `unlink: nlink < 1`. -/
  | unlinkNlink
  /-- The text is `unlink: writei`. -/
  | unlinkWritei
  /-- The text is `create dots`. -/
  | createDots
  /-- The text is `create: dirlink`. -/
  | createDirlink
  | filedup
  | fileclose
  /-- The text is `init exiting`. -/
  | initExiting
  deriving DecidableEq, Repr

/-- Why a piece of kernel code does not return: a panic, an `acquiresleep` on a lock that
nobody is going to release, or an array index out of bounds or a null pointer. -/
inductive Stop
  | panic (p : Panic)
  | hang
  | overrun
  deriving DecidableEq, Repr

end Xv6.Fs
