import Xv6.File.Ops

/-!
# The file system calls

The functions of `fs.c` that lock inodes, the path lookup, the system calls of
`sysfile.c` that create and remove names, `fileclose`, and what `exit` does for
the files of a process.

## Implementation notes

A path argument is `none` when `argstr` refuses it. `skipelem` works on the rest
of a path; `namex` runs its loop over the list of elements that `skipelem` cuts
off one by one, and the test `*path == '\0'` asks whether that list has ended.
The labels `bad` of `sys_link` and `sys_unlink` are functions. `pipeclose` does not
touch inodes and is left out.
-/

namespace Xv6.File
open Fs Lib

variable {I : Type}

def ilock (ip : I) : CallOn I Unit := do
  let ref ← perform (.ref ip)
  if ref < 1 then
    panicWith .ilock
  else
    perform (.acquire ip)
    perform (.load ip)

def iunlock (ip : I) : CallOn I Unit := do
  let held ← perform (.holding ip)
  let ref ← perform (.ref ip)
  if !held || ref < 1 then
    panicWith .iunlock
  else
    perform (.release ip)

/-- The part of `iput` that frees an inode. -/
def ifree (ip : I) : CallOn I Unit := do
  perform (.itrunc ip)
  let m ← perform (.getMeta ip)
  perform (.setMeta ip { m with type := .free })
  perform (.iupdate ip)
  perform (.invalidate ip)

/-- The part of `iput` that holds the lock of the inode. -/
def iputLocked (ip : I) : CallOn I Unit := do
  let valid ← perform (.valid ip)
  let m ← perform (.getMeta ip)
  if valid && m.nlink == 0 then
    let r ← perform (.ref ip)
    if r = 1 then ifree ip else pure ()
  else
    pure ()

def iput (ip : I) : CallOn I Unit := do
  perform (.acquire ip)
  iputLocked ip
  perform (.release ip)
  perform (.decref ip)

def iunlockput (ip : I) : CallOn I Unit := do
  iunlock ip
  iput ip

def ialloc (dev : ℕ) (type : FileType) : CallOn I I := do
  let inum ← perform (.ialloc type)
  perform (.iget dev inum)

/-- The inode and the index of the entry. -/
def dirlookup (dp : I) (name : Name) : CallOn I (Option (I × ℕ)) := do
  let m ← perform (.getMeta dp)
  if m.type ≠ .dir then
    panicWith .dirlookupNotDir
  else
    match ← perform (.dirscan dp name) with
    | some (inum, k) => do
      let dev ← perform (.dev dp)
      let ip ← perform (.iget dev inum)
      pure (some (ip, k))
    | none => pure none

def dirlink (dp : I) (name : Name) (inum : Inum) : CallOn I ℤ := do
  match ← dirlookup dp name with
  | some (ip, _) => do
    iput ip
    pure (-1)
  | none => do
    perform (.dirwrite dp name inum)
    pure 0

def slash : UInt8 := 0x2f

/-- The name of the next element, and the path behind it. -/
def skipelem (path : Path) : Option (Name × Path) :=
  match path.dropWhile (· == slash) with
  | [] => none
  | s => some ((s.takeWhile (· != slash)).take DIRSIZ,
      (s.dropWhile (· != slash)).dropWhile (· == slash))

/-- The elements of a path, at most `n` of them. -/
def elements : ℕ → Path → List Name
  | 0, _ => []
  | n + 1, path =>
    match skipelem path with
    | none => []
    | some (name, rest) => name :: elements n rest

/-- The elements of a path: each is cut off with at least one byte. -/
def pathElements (path : Path) : List Name := elements path.length path

/-- The loop of `namex`. -/
def walk (parent : Bool) : List Name → I → CallOn I (Option (I × Name))
  | [], ip =>
    if parent then do
      iput ip
      pure none
    else
      pure (some (ip, []))
  | name :: path, ip => do
    ilock ip
    let m ← perform (.getMeta ip)
    if m.type ≠ .dir then
      iunlockput ip
      pure none
    else if parent && path.isEmpty then
      iunlock ip
      pure (some (ip, name))
    else
      match ← dirlookup ip name with
      | none => do
        iunlockput ip
        pure none
      | some (next, _) => do
        iunlockput ip
        walk parent path next

/-- Where a path starts. -/
def pathStart (path : Path) : CallOn I I := do
  if path.head? = some slash then
    perform (.iget ROOTDEV ROOTINO)
  else
    let ip ← perform .cwd
    perform (.idup ip)
    pure ip

def namex (path : Path) (parent : Bool) : CallOn I (Option (I × Name)) := do
  let ip ← pathStart path
  walk parent (pathElements path) ip

def namei (path : Path) : CallOn I (Option (I × Name)) := namex path false

def nameiparent (path : Path) : CallOn I (Option (I × Name)) := namex path true

/-- `ip->nlink += d; iupdate(ip)`, for `d` one or minus one. -/
def addLinks (ip : I) (d : Int16) : CallOn I Unit := do
  let m ← perform (.getMeta ip)
  perform (.setMeta ip { m with nlink := m.nlink + d })
  perform (.iupdate ip)

def sysLinkBad (ip : I) : CallOn I ℤ := do
  ilock ip
  addLinks ip (-1)
  iunlockput ip
  perform .endOp
  pure (-1)

/-- `dirlink(dp, name, ip->inum)`, unless the two are on different devices. -/
def linkEntry (dp : I) (name : Name) (ip : I) : CallOn I ℤ := do
  let dev ← perform (.dev dp)
  let dev' ← perform (.dev ip)
  if dev ≠ dev' then
    pure (-1)
  else
    let inum ← perform (.inum ip)
    dirlink dp name inum

/-- The part of `sys_link` behind the lookup of the old name. -/
def linkInode (ip : I) (new : Path) : CallOn I ℤ := do
  addLinks ip 1
  iunlock ip
  match ← nameiparent new with
  | none => sysLinkBad ip
  | some (dp, name) => do
    ilock dp
    let r ← linkEntry dp name ip
    if r < 0 then
      iunlockput dp
      sysLinkBad ip
    else
      iunlockput dp
      iput ip
      perform .endOp
      pure 0

def sysLink : Option Path → Option Path → CallOn I ℤ
  | some old, some new => do
    perform .beginOp
    match ← namei old with
    | none => do
      perform .endOp
      pure (-1)
    | some (ip, _) => do
      ilock ip
      let m ← perform (.getMeta ip)
      if m.type = .dir then
        iunlockput ip
        perform .endOp
        pure (-1)
      else
        linkInode ip new
  | _, _ => pure (-1)

def dot : Name := [0x2e]

def dotdot : Name := [0x2e, 0x2e]

def sysUnlinkBad (dp : I) : CallOn I ℤ := do
  iunlockput dp
  perform .endOp
  pure (-1)

/-- The part of `sys_unlink` that removes the entry `k` of `dp`, which names `ip`. -/
def unlinkEntry (dp ip : I) (k : ℕ) (type : FileType) : CallOn I ℤ := do
  perform (.clearEntry dp k)
  (if type = .dir then addLinks dp (-1) else pure ())
  iunlockput dp
  addLinks ip (-1)
  iunlockput ip
  perform .endOp
  pure 0

/-- `ip->type == T_DIR && !isdirempty(ip)` -/
def isFullDir (ip : I) (type : FileType) : CallOn I Bool := do
  if type = .dir then
    let empty ← perform (.isdirempty ip)
    pure (!empty)
  else
    pure false

/-- The part of `sys_unlink` behind the lookup of the name. -/
def unlinkInode (dp ip : I) (k : ℕ) : CallOn I ℤ := do
  ilock ip
  let m ← perform (.getMeta ip)
  if m.nlink < 1 then
    panicWith .unlinkNlink
  else
    let full ← isFullDir ip m.type
    if full then
      iunlockput ip
      sysUnlinkBad dp
    else
      unlinkEntry dp ip k m.type

def sysUnlink : Option Path → CallOn I ℤ
  | none => pure (-1)
  | some path => do
    perform .beginOp
    match ← nameiparent path with
    | none => do
      perform .endOp
      pure (-1)
    | some (dp, name) => do
      ilock dp
      if name = dot ∨ name = dotdot then
        sysUnlinkBad dp
      else
        match ← dirlookup dp name with
        | none => sysUnlinkBad dp
        | some (ip, k) => unlinkInode dp ip k

/-- The part of `create` that makes the entries `.` and `..` of a directory. -/
def createDots (dp ip : I) : CallOn I Unit := do
  addLinks dp 1
  let inum ← perform (.inum ip)
  let r ← dirlink ip dot inum
  if r < 0 then
    panicWith .createDots
  else
    let parent ← perform (.inum dp)
    let r ← dirlink ip dotdot parent
    if r < 0 then panicWith .createDots else pure ()

/-- The part of `create` that makes a new inode. -/
def newInode (dev : ℕ) (type : FileType) (major minor : Int16) : CallOn I I := do
  let ip ← ialloc dev type
  ilock ip
  let m ← perform (.getMeta ip)
  perform (.setMeta ip { m with major := major, minor := minor, nlink := 1 })
  perform (.iupdate ip)
  pure ip

/-- The part of `create` for a name that does not exist. -/
def createNew (dp : I) (name : Name) (type : FileType) (major minor : Int16) : CallOn I I := do
  let dev ← perform (.dev dp)
  let ip ← newInode dev type major minor
  (if type = .dir then createDots dp ip else pure ())
  let inum ← perform (.inum ip)
  let r ← dirlink dp name inum
  if r < 0 then
    panicWith .createDirlink
  else
    iunlockput dp
    pure ip

/-- The inode that `create` returns is locked. -/
def create (path : Path) (type : FileType) (major minor : Int16) : CallOn I (Option I) := do
  match ← nameiparent path with
  | none => pure none
  | some (dp, name) => do
    ilock dp
    match ← dirlookup dp name with
    | some (ip, _) => do
      iunlockput dp
      ilock ip
      let m ← perform (.getMeta ip)
      if type = .file ∧ m.type = .file then
        pure (some ip)
      else
        iunlockput ip
        pure none
    | none => do
      let ip ← createNew dp name type major minor
      pure (some ip)

def fileclose (f : Fin NFILE) : CallOn I Unit := do
  match ← perform (.fileDrop f) with
  | none => pure ()
  | some ff =>
    if ff.type = .inode then do
      perform .beginOp
      iput ff.ip
      perform .endOp
    else
      pure ()

/-- The part of `sys_open` behind the lookup: give the locked inode a descriptor. -/
def openInode (ip : I) (omode : UInt32) : CallOn I ℤ := do
  match ← perform .filealloc with
  | none => do
    iunlockput ip
    perform .endOp
    pure (-1)
  | some f => do
    match ← perform (.fdalloc f) with
    | none => do
      fileclose f
      iunlockput ip
      perform .endOp
      pure (-1)
    | some fd => do
      iunlock ip
      perform .endOp
      perform (.setFile f ip omode)
      pure fd.val

def sysOpen : Option Path → UInt32 → CallOn I ℤ
  | none, _ => pure (-1)
  | some path, omode => do
    perform .beginOp
    if omode &&& O_CREATE ≠ 0 then
      match ← create path .file 0 0 with
      | none => do
        perform .endOp
        pure (-1)
      | some ip => openInode ip omode
    else
      match ← namei path with
      | none => do
        perform .endOp
        pure (-1)
      | some (ip, _) => do
        ilock ip
        let m ← perform (.getMeta ip)
        if m.type = .dir ∧ omode ≠ O_RDONLY then
          iunlockput ip
          perform .endOp
          pure (-1)
        else
          openInode ip omode

/-- `sys_mkdir` and `sys_mknod` behind the fetching of their arguments. -/
def makeNode (path : Option Path) (type : FileType) (major minor : Int16) : CallOn I ℤ := do
  perform .beginOp
  match path with
  | none => do
    perform .endOp
    pure (-1)
  | some path => do
    match ← create path type major minor with
    | none => do
      perform .endOp
      pure (-1)
    | some ip => do
      iunlockput ip
      perform .endOp
      pure 0

def sysMkdir (path : Option Path) : CallOn I ℤ := makeNode path .dir 0 0

def sysMknod (path : Option Path) (major minor : Int32) : CallOn I ℤ :=
  makeNode path .dev major.toInt16 minor.toInt16

def sysChdir : Option Path → CallOn I ℤ
  | none => do
    perform .beginOp
    perform .endOp
    pure (-1)
  | some path => do
    perform .beginOp
    match ← namei path with
    | none => do
      perform .endOp
      pure (-1)
    | some (ip, _) => do
      ilock ip
      let m ← perform (.getMeta ip)
      if m.type ≠ .dir then
        iunlockput ip
        perform .endOp
        pure (-1)
      else
        iunlock ip
        let old ← perform .cwd
        iput old
        perform .endOp
        perform (.setCwd (some ip))
        pure 0

def sysClose (fd : ℤ) : CallOn I ℤ := do
  match ← perform (.argfd fd) with
  | none => pure (-1)
  | some (fd, f) => do
    perform (.clearFd fd)
    fileclose f
    pure 0

/-- The loop of `exit` over the open files. -/
def closeAll : List (Fin NOFILE) → CallOn I Unit
  | [] => pure ()
  | fd :: fds => do
    match ← perform (.ofile fd) with
    | none => closeAll fds
    | some f => do
      fileclose f
      perform (.clearFd fd)
      closeAll fds

/-- `exit`, up to the point where the process gives up its working directory. -/
def exit : CallOn I ℤ := do
  let isInit ← perform .isInit
  if isInit then
    panicWith .initExiting
  else
    closeAll (List.finRange NOFILE)
    perform .beginOp
    let cwd ← perform .cwd
    iput cwd
    perform .endOp
    perform (.setCwd none)
    pure 0

/-- The loop of `exec` over the entries `dirs` of `PATH`. A command has room for 99 bytes. -/
def searchPath (path : Path) : List Path → CallOn I (Option (I × Name))
  | [] => pure none
  | dir :: dirs =>
    if 100 ≤ dir.length + path.length then do
      let x ← perform .overrun
      nomatch x
    else do
      match ← namei (dir ++ path) with
      | some r => pure (some r)
      | none => searchPath path dirs

/-- `exec`. Whether the program can be loaded and whether it can then be given its arguments
depends on memory and on what is in the file. -/
def exec (dirs : List Path) (path : Path) (loads fits : Bool) : CallOn I ℤ := do
  perform .beginOp
  let found ← match ← namei path with
    | some r => pure (some r)
    | none => searchPath path dirs
  match found with
  | none => do
    perform .endOp
    pure (-1)
  | some (ip, _) => do
    ilock ip
    if loads then
      iunlockput ip
      perform .endOp
      pure (if fits then 0 else -1)
    else
      iunlockput ip
      perform .endOp
      pure (-1)

/-- The system calls with their arguments. -/
inductive Request
  | open (path : Option Path) (omode : UInt32)
  | mkdir (path : Option Path)
  | mknod (path : Option Path) (major minor : Int32)
  | link (old new : Option Path)
  | unlink (path : Option Path)
  | chdir (path : Option Path)
  | close (fd : ℤ)
  | exit

/-- The code that serves a request. -/
def Request.code : Request → CallOn I ℤ
  | .open path omode => sysOpen path omode
  | .mkdir path => sysMkdir path
  | .mknod path major minor => sysMknod path major minor
  | .link old new => sysLink old new
  | .unlink path => sysUnlink path
  | .chdir path => sysChdir path
  | .close fd => sysClose fd
  | .exit => File.exit

end Xv6.File
