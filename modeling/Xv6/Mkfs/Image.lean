import Xv6.Fs.Inode
import Xv6.Lib.Exec

/-!
# The program `mkfs`

`mkfs.c` writes a file system image that holds the files named on its command
line: a root directory with one entry for each of them, and one inode for each
of them, filled by `iappend` as the bytes arrive.

## Implementation notes

The host is little-endian, so that `xint` and `xshort` return what they are
given. The image file is a sequence of sectors; `lseek` and `write` on it
succeed, and a `read` behind its end is short. Inode and block numbers are
natural numbers: `argc` is an `int` and the image has `FSSIZE` sectors, so that
the 32-bit counters do not wrap. A sector number that is read from the image
may be any word; `sector` is the place where `lseek` then goes.

`main` starts here with the image file open, since without one there is no
image.
-/

namespace Xv6.Mkfs
open Fs Lib

/-- The ways in which `mkfs` stops before its work is done. -/
inductive Failure
  /-- A `read` of the image file is short. -/
  | read
  /-- The text of the assert is `rootino == ROOTINO`. -/
  | rootino
  /-- The text of the assert is `index(argv[i], '/') == 0`. -/
  | slash
  /-- A file of the command line cannot be opened. -/
  | openFile
  /-- The text of the assert is `fbn < MAXFILE`. -/
  | maxfile
  /-- The text of the assert is `used < BSIZE*8`. -/
  | used
  deriving DecidableEq, Repr

/-- The image file and the two counters. The list `inodeWrites` of the sectors that `winode`
has written is not part of the program; it is there to be talked about. -/
structure State where
  image : ℕ → Block
  sectors : ℕ
  freeinode : ℕ
  freeblock : ℕ
  inodeWrites : List ℕ

/-- The image file is truncated when it is opened. -/
def start : State where
  image := fun _ => Block.zero
  sectors := 0
  freeinode := 1
  freeblock := 0
  inodeWrites := []

/-- `nbitmap`. -/
def nbitmap : ℕ := FSSIZE / (BSIZE * 8) + 1

/-- `ninodeblocks`. -/
def ninodeblocks : ℕ := NINODES / IPB + 1

/-- The number of blocks in front of the data blocks. -/
def nmeta : ℕ := 2 + LOGSIZE + ninodeblocks + nbitmap

/-- The `struct superblock sb` that `main` fills in. -/
abbrev sb : Superblock := mkfsSuperblock

/-- The sector at byte `sec * BSIZE`, a product of `uint`s. -/
def sector (sec : UInt32) : ℕ := (sec * UInt32.ofNat BSIZE).toNat / BSIZE

/-- Store a block in the image file, which grows if need be. -/
@[simps -fullyApplied]
def State.write (s : State) (sec : ℕ) (buf : Block) : State :=
  { s with
    image := Function.update s.image sec buf
    sectors := max s.sectors (sec + 1) }

/-- `wsect`. -/
def wsect (sec : UInt32) (buf : Block) : Exec Failure State Unit :=
  Exec.modify fun s => s.write (sector sec) buf

/-- `rsect`. -/
def rsect (sec : UInt32) : Exec Failure State Block := do
  let s ← Exec.get
  Exec.stopIf (s.sectors ≤ sector sec) .read
  pure (s.image (sector sec))

/-- `winode`. -/
def winode (inum : ℕ) (ip : Dinode) : Exec Failure State Unit := do
  let bn := UInt32.ofNat (IBLOCK inum sb)
  let buf ← rsect bn
  wsect bn (buf.setDinode (inum % IPB) ip)
  Exec.modify fun s => { s with inodeWrites := sector bn :: s.inodeWrites }

/-- `rinode`. -/
def rinode (inum : ℕ) : Exec Failure State Dinode := do
  let bn := UInt32.ofNat (IBLOCK inum sb)
  let buf ← rsect bn
  pure (buf.dinode (inum % IPB))

/-- The inode that `ialloc` writes. -/
def newInode (type : UInt16) : Dinode where
  type := type
  major := 0
  minor := 0
  nlink := 1
  size := 0
  addrs := fun _ => 0

/-- `ialloc`. -/
def ialloc (type : UInt16) : Exec Failure State ℕ := do
  let s ← Exec.get
  let inum := s.freeinode
  Exec.modify fun s => { s with freeinode := s.freeinode + 1 }
  winode inum (newInode type)
  pure inum

/-- The block that `balloc` writes when the first `used` blocks are in use. -/
def bitmap (used : ℕ) : Block := (List.range used).foldl Block.setBit Block.zero

/-- `balloc`. -/
def balloc (used : ℕ) : Exec Failure State Unit := do
  Exec.stopIf (BSIZE * 8 ≤ used) .used
  wsect (UInt32.ofNat sb.bmapstart) (bitmap used)

/-- `xint(freeblock++)`. -/
def nextBlock : Exec Failure State UInt32 := do
  let s ← Exec.get
  Exec.modify fun s => { s with freeblock := s.freeblock + 1 }
  pure (UInt32.ofNat s.freeblock)

/-- `if(xint(din.addrs[i]) == 0) din.addrs[i] = xint(freeblock++);` -/
def mapAddr (din : Dinode) (i : ℕ) : Exec Failure State Dinode :=
  if din.addr i = 0 then do
    let b ← nextBlock
    pure (din.setAddr i b)
  else
    pure din

/-- The part of `iappend` that looks the file block `fbn` up in the indirect block. -/
def mapIndirect (din : Dinode) (fbn : ℕ) : Exec Failure State UInt32 := do
  let indirect ← rsect (din.addr NDIRECT)
  if indirect.word (fbn - NDIRECT) = 0 then do
    let b ← nextBlock
    let indirect := indirect.setWord (fbn - NDIRECT) b
    wsect (din.addr NDIRECT) indirect
    pure (indirect.word (fbn - NDIRECT))
  else
    pure (indirect.word (fbn - NDIRECT))

/-- The part of `iappend` that finds the block `x` of the file block `fbn`. -/
def mapBlock (din : Dinode) (fbn : ℕ) : Exec Failure State (Dinode × UInt32) :=
  if fbn < NDIRECT then do
    let din ← mapAddr din fbn
    pure (din, din.addr fbn)
  else do
    let din ← mapAddr din NDIRECT
    let x ← mapIndirect din fbn
    pure (din, x)

lemma min_room_pos (off : ℕ) {n : ℕ} (hn : 0 < n) :
    0 < min n ((off / BSIZE + 1) * BSIZE - off) := by
  unfold BSIZE
  omega

/-- The loop of `iappend`: the inode in memory, the offset and the bytes that are left. -/
def appendLoop (din : Dinode) (off : ℕ) (p : List UInt8) : Exec Failure State (Dinode × ℕ) :=
  if p = [] then
    pure (din, off)
  else do
    let fbn := off / BSIZE
    Exec.stopIf (MAXFILE ≤ fbn) .maxfile
    let (din, x) ← mapBlock din fbn
    let n1 := min p.length ((fbn + 1) * BSIZE - off)
    let buf ← rsect x
    wsect x (buf.splice (off - fbn * BSIZE) (p.take n1))
    appendLoop din (off + n1) (p.drop n1)
termination_by p.length
decreasing_by
  have hlen := List.length_pos_of_ne_nil ‹p ≠ []›
  have hpos := min_room_pos off hlen
  rw [List.length_drop]
  omega

/-- `iappend`. -/
def iappend (inum : ℕ) (p : List UInt8) : Exec Failure State Unit := do
  let din ← rinode inum
  let (din, off) ← appendLoop din din.size.toNat p
  winode inum { din with size := UInt32.ofNat off }

/-- A C string. -/
structure CString where
  bytes : List UInt8
  noNul : 0 ∉ bytes

/-- What one call of `read(fd, buf, sizeof(buf))` brings when it returns more than 0. -/
structure Chunk where
  bytes : List UInt8
  pos : 0 < bytes.length
  le : bytes.length ≤ BSIZE

/-- A file of the command line: its name, and what the calls of `read` bring one after the
other until one of them returns 0 or less. There are no contents when `open` fails. -/
structure HostFile where
  name : CString
  contents : Option (List Chunk)

/-- `'_'`. -/
def underscore : UInt8 := 95

/-- `if(argv[i][0] == '_') ++argv[i];` -/
def skipUnderscore (name : List UInt8) : List UInt8 :=
  if name.head? = some underscore then name.tail else name

/-- The directory entry that is appended for an inode. -/
def dirent (inum : ℕ) (name : List UInt8) : Dirent where
  inum := UInt16.ofNat inum
  name := strncpy name

/-- The body of the loop of `main` over the files. -/
def addFile (file : HostFile) : Exec Failure State Unit := do
  Exec.stopIf (slash ∈ file.name.bytes) .slash
  match file.contents with
  | none => Exec.stop .openFile
  | some chunks => do
    let inum ← ialloc T_FILE
    iappend ROOTINO (dirent inum (skipUnderscore file.name.bytes)).bytes
    Exec.each (fun c => iappend inum c.bytes) chunks

/-- The names `.` and `..`. -/
def dot : List UInt8 := [46]

@[inherit_doc dot]
def dotdot : List UInt8 := [46, 46]

/-- `main` up to its loop over the files. It is irreducible, so that nothing unrolls its loop
over the sectors. -/
@[irreducible]
def format : Exec Failure State Unit := do
  Exec.modify fun s => { s with freeblock := nmeta }
  Exec.each (fun i => wsect (UInt32.ofNat i) Block.zero) (List.range FSSIZE)
  wsect 1 (Block.zero.setWords 0 sb.words)
  let rootino ← ialloc T_DIR
  Exec.stopIf (rootino ≠ ROOTINO) .rootino
  iappend rootino (dirent rootino dot).bytes
  iappend rootino (dirent rootino dotdot).bytes

/-- `main` behind its loop over the files. -/
def finish : Exec Failure State Unit := do
  let din ← rinode ROOTINO
  let off := (din.size / UInt32.ofNat BSIZE + 1) * UInt32.ofNat BSIZE
  winode ROOTINO { din with size := off }
  let s ← Exec.get
  balloc s.freeblock

/-- `main`. -/
def main (files : List HostFile) : Exec Failure State Unit := do
  format
  Exec.each addFile files
  finish

end Xv6.Mkfs
