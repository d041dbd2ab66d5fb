import Xv6.Fs.Inode

/-!
# The kernel on a fresh image

The functions of `fs.c` that find a file and read it (`bmap`, `readi`,
`dirlookup`, `namex`), run on the blocks of an image that nobody has written to
since `mkfs` made it. Such a run only looks at the image. Where the kernel code
would start to change it, the run ends with a `Fault`.

## Implementation notes

The buffer and inode caches hold what the image holds, so `bread` and `ilock`
read the image. A file name is a buffer of `DIRSIZ` bytes whose content is
arbitrary when `namei` declares it. The offset of the loop of `readi` is a
natural number; it stays below `ip->size`.
-/

namespace Xv6.Mkfs
open Fs

/-- The ends of a look at an image other than a return. -/
inductive Fault
  | panic (p : Panic)
  /-- `bmap` calls `balloc`. -/
  | balloc
  /-- `iput` may call `itrunc`. -/
  | itrunc
  /-- `readi` calls the read function of a device. -/
  | device
  deriving DecidableEq, Repr

/-- `bread`, with the check that `idestart` makes. -/
def bread (image : ℕ → Block) (blockno : ℕ) : Except Fault Block :=
  if FSSIZE ≤ blockno then throw (.panic .idestart) else pure (image blockno)

/-- `readsb`. -/
def readsb (image : ℕ → Block) : Except Fault Superblock := do
  let b ← bread image 1
  pure (.ofBlock b)

/-- What `ilock` finds on disk for an inode that is not in memory yet. -/
def ilock (image : ℕ → Block) (inum : ℕ) : Except Fault Dinode := do
  let sb ← readsb image
  let b ← bread image (IBLOCK inum sb)
  let ip := b.dinode (inum % IPB)
  if ip.type = 0 then throw (.panic .ilockNoType) else pure ip

/-- `iunlockput`. -/
def iunlockput (ip : Dinode) : Except Fault Unit := if ip.nlink = 0 then throw .itrunc else pure ()

/-- An address that `bmap` has found, where it is not zero. -/
def mapped (addr : UInt32) : Except Fault ℕ := if addr = 0 then throw .balloc else pure addr.toNat

/-- `bmap`. -/
def bmap (image : ℕ → Block) (ip : Dinode) (bn : ℕ) : Except Fault ℕ :=
  if bn < NDIRECT then
    mapped (ip.addr bn)
  else if bn - NDIRECT < NINDIRECT then do
    let addr ← mapped (ip.addr NDIRECT)
    let a ← bread image addr
    mapped (a.word (bn - NDIRECT))
  else
    throw (.panic .bmap)

/-- The loop of `readi`: the offset and the number of bytes that are left. -/
def readLoop (image : ℕ → Block) (ip : Dinode) (off left : ℕ) : Except Fault (List UInt8) :=
  if left = 0 then
    pure []
  else do
    let addr ← bmap image ip (off / BSIZE)
    let b ← bread image addr
    let m := min left (BSIZE - off % BSIZE)
    let rest ← readLoop image ip (off + m) (left - m)
    pure (Block.extract b (off % BSIZE) m ++ rest)
termination_by left
decreasing_by
  have hmod : off % BSIZE < BSIZE := Nat.mod_lt _ (by decide)
  omega

/-- `readi`: the bytes that are copied to `dst`, or nothing when it returns -1. -/
def readi (image : ℕ → Block) (ip : Dinode) (off n : UInt32) : Except Fault (Option (List UInt8)) :=
  if ip.type = T_DEV then
    throw .device
  else if off > ip.size ∨ off + n < off then
    pure none
  else do
    let n := if off + n > ip.size then ip.size - off else n
    let bytes ← readLoop image ip off.toNat n.toNat
    pure (some bytes)

/-- `strncmp`. -/
def strncmp : ℕ → List UInt8 → List UInt8 → ℤ
  | 0, _, _ => 0
  | n + 1, p, q =>
    if p.headD 0 ≠ 0 ∧ p.headD 0 = q.headD 0 then
      strncmp n p.tail q.tail
    else
      (p.headD 0).toNat - (q.headD 0).toNat

/-- `namecmp`. -/
def namecmp (s t : List UInt8) : ℤ := strncmp DIRSIZ s t

/-- The loop of `dirlookup`. -/
def lookupFrom (image : ℕ → Block) (dp : Dinode) (name : List UInt8) (off : ℕ) :
    Except Fault (Option ℕ) :=
  if off < dp.size.toNat then do
    let bytes ← readi image dp (.ofNat off) (.ofNat Dirent.SIZE)
    let bytes := bytes.getD []
    let de := Dirent.ofBytes bytes
    if bytes.length ≠ Dirent.SIZE then
      throw (.panic .dirlookupRead)
    else if de.inum = 0 then
      lookupFrom image dp name (off + Dirent.SIZE)
    else if namecmp name (List.ofFn de.name) = 0 then
      pure (some de.inum.toNat)
    else
      lookupFrom image dp name (off + Dirent.SIZE)
  else
    pure none
termination_by dp.size.toNat - off
decreasing_by
  all_goals
    unfold Dirent.SIZE
    omega

/-- `dirlookup`. -/
def dirlookup (image : ℕ → Block) (dp : Dinode) (name : List UInt8) : Except Fault (Option ℕ) :=
  if dp.type ≠ T_DIR then throw (.panic .dirlookupNotDir) else lookupFrom image dp name 0

/-- `skipelem`: the rest of the path and the buffer `name`. -/
def skipelem (path name : List UInt8) : Option (List UInt8 × List UInt8) :=
  let path := path.dropWhile (· = slash)
  if path = [] then
    none
  else
    let s := path.takeWhile (· ≠ slash)
    let name := if DIRSIZ ≤ s.length then s.take DIRSIZ else s ++ 0 :: name.drop (s.length + 1)
    some ((path.dropWhile (· ≠ slash)).dropWhile (· = slash), name)

lemma skipelem_length {path name rest name' : List UInt8}
    (h : skipelem path name = some (rest, name')) : rest.length < path.length := by
  unfold skipelem at h
  rcases hpath : path.dropWhile (· = slash) with _ | ⟨c, l⟩
  · simp [hpath] at h
  have hc : c ≠ slash := by
    have hhead := List.head_dropWhile_not (p := (· = slash)) (l := path) (by simp [hpath])
    simpa [hpath] using hhead
  have hle : (c :: l).length ≤ path.length := hpath ▸ (List.dropWhile_sublist _).length_le
  simp only [hpath, reduceCtorEq, if_false, Option.some.injEq, Prod.mk.injEq] at h
  rw [← h.1]
  have htail := ((List.dropWhile_sublist (· = slash) (l := l.dropWhile (· ≠ slash))).trans
    (List.dropWhile_sublist _)).length_le
  rw [List.dropWhile_cons_of_pos (by simpa using hc)]
  rw [List.length_cons] at hle
  omega

/-- The loop of `namex`, which stands at inode `inum`. -/
def namexFrom (image : ℕ → Block) (nameiparent : Bool) (inum : ℕ) (path name : List UInt8) :
    Except Fault (Option ℕ) :=
  match _h : skipelem path name with
  | none =>
    -- Nobody has locked the inode yet, so `iput` finds `ip->valid == 0`.
    if nameiparent then pure none else pure (some inum)
  | some (path, name) => do
    let ip ← ilock image inum
    if ip.type ≠ T_DIR then
      iunlockput ip
      pure none
    else if nameiparent ∧ path = [] then
      pure (some inum)
    else
      let next ← dirlookup image ip name
      iunlockput ip
      match next with
      | none => pure none
      | some next => namexFrom image nameiparent next path name
termination_by path.length
decreasing_by exact skipelem_length _h

/-- `namex`, for a process whose current directory is inode `cwd`. -/
def namex (image : ℕ → Block) (cwd : ℕ) (path : List UInt8) (nameiparent : Bool)
    (name : List UInt8) : Except Fault (Option ℕ) :=
  namexFrom image nameiparent (if path.head? = some slash then ROOTINO else cwd) path name

/-- `namei`. The argument `name` is what its buffer holds at the start. -/
def namei (image : ℕ → Block) (cwd : ℕ) (path name : List UInt8) : Except Fault (Option ℕ) :=
  namex image cwd path false name

end Xv6.Mkfs
