import Xv6.File.Ops

/-!
# Pointers in system call arguments

The functions of `syscall.c` that fetch arguments from the user stack, the system
calls that take a pointer through `argptr`, and what these do with the memory behind
the pointer: `sys_read`, `sys_write`, `sys_fstat`, `sys_pipe` and `sys_get_time`.

## Implementation notes

Addresses and sizes are 32-bit words. The trace of a call has every byte of user
memory that it reads or writes, and the operands of every addition in `argint`,
`fetchint` and `argptr`. What a call finds in a pipe, in a file, at the keyboard or in
the clock is data of the file or an argument of the call. A pipe has the bytes that
are there when `piperead` stops to wait, if the process is not killed before, and the
number of bytes that `pipewrite` can get rid of before it gives up. Locks and
transactions do not touch user memory and are left out.
-/

namespace Xv6.Syscall
open Fs Lib
open File (FileType)

/-- What is observed of a call. -/
inductive Event
  /-- `a + b` is computed. -/
  | sum (a b : UInt32)
  /-- The byte at `a` is read or written. -/
  | touch (a : UInt32)
  deriving DecidableEq, Repr

structure Pipe where
  bytes : Option (List UInt8)
  room : ℕ

/-- `struct inode`; `typed` is what is typed if it is the console, until the process is killed. -/
structure Inode where
  dev : UInt32
  inum : UInt32
  type : FileType
  major : Int16
  nlink : Int16
  size : UInt32
  byte : ℕ → UInt8
  typed : List UInt8

/-- What a `struct file` stands for. -/
inductive Object
  | none
  | pipe (p : Pipe)
  | inode (ip : Inode)

/-- `struct file` -/
structure OpenFile where
  object : Object
  readable : Bool
  writable : Bool
  off : UInt32

/-- The process that makes a call, and what has been observed. -/
structure State where
  sz : UInt32
  esp : UInt32
  mem : UInt32 → UInt8
  ofile : Fin NOFILE → Option OpenFile
  trace : List Event

inductive Panic
  | fileread
  | filewrite
  /-- The text is `short filewrite`. -/
  | shortFilewrite
  deriving DecidableEq, Repr

/-- Code that works on user memory. -/
abbrev Code (α : Type) : Type := Exec Panic State α

open Exec

/-! ### Memory and arguments -/

def note (e : Event) : Code Unit := modify fun s => { s with trace := s.trace ++ [e] }

/-- `a + b` -/
def plus (a b : UInt32) : Code UInt32 := do
  note (.sum a b)
  pure (a + b)

def load (a : UInt32) : Code UInt8 := do
  note (.touch a)
  let s ← get
  pure (s.mem a)

def store (a : UInt32) (b : UInt8) : Code Unit := do
  note (.touch a)
  modify fun s => { s with mem := Function.update s.mem a b }

/-- Read `n` bytes from `a` on. -/
def loadAll : ℕ → UInt32 → Code (List UInt8)
  | 0, _ => pure []
  | n + 1, a => do
    let b ← load a
    let bs ← loadAll n (a + 1)
    pure (b :: bs)

/-- Write bytes from `a` on. -/
def storeAll : List UInt8 → UInt32 → Code Unit
  | [], _ => pure ()
  | b :: bs, a => do
    store a b
    storeAll bs (a + 1)

/-- The word that is stored as these bytes. -/
def wordOf (bs : List UInt8) : UInt32 := bs.foldr (fun b w => w * 256 + b.toUInt32) 0

/-- The bytes of a word. -/
def bytesOf (w : UInt32) : List UInt8 :=
  [w.toUInt8, (w >>> 8).toUInt8, (w >>> 16).toUInt8, (w >>> 24).toUInt8]

/-- The two bytes of a `short`. -/
def shortBytes (w : Int16) : List UInt8 := (bytesOf w.toInt32.toUInt32).take 2

/-- `fetchint`; there is no result if it returns -1. -/
def fetchint (addr : UInt32) : Code (Option UInt32) := do
  let s ← get
  if s.sz ≤ addr then
    pure none
  else
    let last ← plus addr 4
    if s.sz < last then
      pure none
    else
      let bs ← loadAll 4 addr
      pure (some (wordOf bs))

def argint (n : UInt32) : Code (Option UInt32) := do
  let s ← get
  let first ← plus s.esp 4
  let addr ← plus first (4 * n)
  fetchint addr

def argptr (n : UInt32) (size : Int32) : Code (Option UInt32) := do
  match ← argint n with
  | none => pure none
  | some i => do
    let s ← get
    if size < 0 ∨ s.sz ≤ i then
      pure none
    else
      let last ← plus i size.toUInt32
      if s.sz < last then pure none else pure (some i)

/-- `argfd` -/
def argfd (n : UInt32) : Code (Option OpenFile) := do
  match ← argint n with
  | none => pure none
  | some fd => do
    let s ← get
    if h : 0 ≤ fd.toInt32 ∧ fd.toNat < NOFILE then
      pure (s.ofile ⟨fd.toNat, h.2⟩)
    else
      pure none

/-! ### Pipes and the console -/

def piperead (p : Pipe) (addr : UInt32) (n : Int32) : Code Int32 := do
  match p.bytes with
  | none => pure (-1)
  | some bytes => do
    storeAll (bytes.take n.toNatClampNeg) addr
    pure (Int32.ofNat (bytes.take n.toNatClampNeg).length)

def pipewrite (p : Pipe) (addr : UInt32) (n : Int32) : Code Int32 := do
  let _ ← loadAll (min p.room n.toNatClampNeg) addr
  if p.room < n.toNatClampNeg then pure (-1) else pure n

/-- `C('D')` -/
def ctrlD : UInt8 := 4

def newline : UInt8 := 10

/-- The loop of `consoleread`, with `n` bytes to go; the number of bytes that are left in the
end. -/
def consolereadLoop : List UInt8 → ℕ → UInt32 → Code (Option ℕ)
  | _, 0, _ => pure (some 0)
  | [], _ + 1, _ => pure none
  | c :: cs, n + 1, dst =>
    if c = ctrlD then
      pure (some (n + 1))
    else do
      store dst c
      if c = newline then pure (some n) else consolereadLoop cs n (dst + 1)

def consoleread (ip : Inode) (dst : UInt32) (n : Int32) : Code Int32 := do
  match ← consolereadLoop ip.typed n.toNatClampNeg dst with
  | none => pure (-1)
  | some left => pure (n - Int32.ofNat left)

def consolewrite (buf : UInt32) (n : Int32) : Code Int32 := do
  let _ ← loadAll n.toNatClampNeg buf
  pure n

/-! ### Files -/

def CONSOLE : Int16 := 1

/-- The loop of `readi`: `left` bytes from offset `off` on. -/
def readiLoop (ip : Inode) (left off : ℕ) (dst : UInt32) : Code Unit :=
  if left = 0 then
    pure ()
  else do
    let m := min left (BSIZE - off % BSIZE)
    storeAll ((List.range m).map fun i => ip.byte (off + i)) dst
    readiLoop ip (left - m) (off + m) (dst + UInt32.ofNat m)
termination_by left
decreasing_by
  have hpos : off % BSIZE < BSIZE := Nat.mod_lt _ (by decide)
  omega

/-- `readi`. Of the devices, only the console has functions. -/
def readi (ip : Inode) (dst off n : UInt32) : Code Int32 := do
  if ip.type = .dev then
    if ip.major = CONSOLE then consoleread ip dst n.toInt32 else pure (-1)
  else if ip.size < off ∨ off + n < off then
    pure (-1)
  else
    let n := if ip.size < off + n then ip.size - off else n
    readiLoop ip n.toNat off.toNat dst
    pure n.toInt32

/-- The loop of `writei`; the bytes that are written do not matter. -/
def writeiLoop (left off : ℕ) (src : UInt32) : Code Unit :=
  if left = 0 then
    pure ()
  else do
    let m := min left (BSIZE - off % BSIZE)
    let _ ← loadAll m src
    writeiLoop (left - m) (off + m) (src + UInt32.ofNat m)
termination_by left
decreasing_by
  have hpos : off % BSIZE < BSIZE := Nat.mod_lt _ (by decide)
  omega

def writei (ip : Inode) (src off n : UInt32) : Code Int32 := do
  if ip.type = .dev then
    if ip.major = CONSOLE then consolewrite src n.toInt32 else pure (-1)
  else if ip.size < off ∨ off + n < off then
    pure (-1)
  else if UInt32.ofNat (MAXFILE * BSIZE) < off + n then
    pure (-1)
  else
    writeiLoop n.toNat off.toNat src
    pure n.toInt32

def fileread (f : OpenFile) (addr : UInt32) (n : Int32) : Code Int32 :=
  if f.readable = false then
    pure (-1)
  else
    match f.object with
    | .pipe p => piperead p addr n
    | .inode ip => readi ip addr f.off n.toUInt32
    | .none => stop .fileread

/-- `((MAXOPBLOCKS-1-1-2) / 2) * 512` -/
def maxWrite : ℕ := (MAXOPBLOCKS - 1 - 1 - 2) / 2 * 512

/-- The loop of `filewrite`, with `left` bytes to go. The size of the file follows its offset. -/
def filewriteLoop (ip : Inode) (left : ℕ) (addr off : UInt32) : Code Bool :=
  if left = 0 then
    pure true
  else do
    let n1 := min left maxWrite
    let r ← writei ip addr off (UInt32.ofNat n1)
    if r < 0 then
      pure false
    else if r ≠ Int32.ofNat n1 then
      stop .shortFilewrite
    else
      filewriteLoop { ip with size := max ip.size (off + UInt32.ofNat n1) } (left - n1)
        (addr + UInt32.ofNat n1) (off + UInt32.ofNat n1)
termination_by left
decreasing_by
  have hpos : 0 < maxWrite := by decide
  omega

def filewrite (f : OpenFile) (addr : UInt32) (n : Int32) : Code Int32 :=
  if f.writable = false then
    pure (-1)
  else
    match f.object with
    | .pipe p => pipewrite p addr n
    | .inode ip => do
      let all ← filewriteLoop ip n.toNatClampNeg addr f.off
      pure (if all then n else -1)
    | .none => stop .filewrite

/-- The value of `type`: `T_DIR`, `T_FILE` or `T_DEV`. -/
def typeNumber : FileType → Int16
  | .free => 0
  | .dir => 1
  | .file => 2
  | .dev => 3

/-- `stati`. The fields of `struct stat` are at 0, 4, 8, 12 and 16. -/
def stati (ip : Inode) (st : UInt32) : Code Unit := do
  storeAll (bytesOf ip.dev) (st + 4)
  storeAll (bytesOf ip.inum) (st + 8)
  storeAll (shortBytes (typeNumber ip.type)) st
  storeAll (shortBytes ip.nlink) (st + 12)
  storeAll (bytesOf ip.size) (st + 16)

def filestat (f : OpenFile) (st : UInt32) : Code Int32 :=
  match f.object with
  | .inode ip => do
    stati ip st
    pure 0
  | _ => pure (-1)

/-- `struct rtcdate`, in the order of its fields. -/
structure Rtcdate where
  second : UInt32
  minute : UInt32
  hour : UInt32
  day : UInt32
  month : UInt32
  year : UInt32

/-- The end of `cmostime`, when the clock has been read. -/
def cmostime (t1 : Rtcdate) (r : UInt32) : Code Unit := do
  storeAll (bytesOf t1.second ++ bytesOf t1.minute ++ bytesOf t1.hour ++ bytesOf t1.day ++
    bytesOf t1.month ++ bytesOf t1.year) r
  let year ← loadAll 4 (r + 20)
  storeAll (bytesOf (wordOf year + 2000)) (r + 20)

/-! ### System calls -/

def sysRead : Code Int32 := do
  match ← argfd 0 with
  | none => pure (-1)
  | some f => do
    match ← argint 2 with
    | none => pure (-1)
    | some n => do
      match ← argptr 1 n.toInt32 with
      | none => pure (-1)
      | some p => fileread f p n.toInt32

def sysWrite : Code Int32 := do
  match ← argfd 0 with
  | none => pure (-1)
  | some f => do
    match ← argint 2 with
    | none => pure (-1)
    | some n => do
      match ← argptr 1 n.toInt32 with
      | none => pure (-1)
      | some p => filewrite f p n.toInt32

/-- `sizeof(struct stat)` -/
def statSize : Int32 := 20

def sysFstat : Code Int32 := do
  match ← argfd 0 with
  | none => pure (-1)
  | some f => do
    match ← argptr 1 statSize with
    | none => pure (-1)
    | some st => filestat f st

/-- `fdalloc` -/
def fdalloc (f : OpenFile) : Code (Option (Fin NOFILE)) := do
  let s ← get
  match (List.finRange NOFILE).find? fun fd => (s.ofile fd).isNone with
  | none => pure none
  | some fd => do
    modify fun s => { s with ofile := Function.update s.ofile fd (some f) }
    pure (some fd)

/-- `sys_pipe`; `files` are the two files that `pipealloc` makes, if it can. -/
def sysPipe (files : Option (OpenFile × OpenFile)) : Code Int32 := do
  match ← argptr 0 8 with
  | none => pure (-1)
  | some fd => do
    match files with
    | none => pure (-1)
    | some (rf, wf) => do
      match ← fdalloc rf with
      | none => pure (-1)
      | some fd0 => do
        match ← fdalloc wf with
        | none => do
          modify fun s => { s with ofile := Function.update s.ofile fd0 none }
          pure (-1)
        | some fd1 => do
          storeAll (bytesOf (UInt32.ofNat fd0)) fd
          storeAll (bytesOf (UInt32.ofNat fd1)) (fd + 4)
          pure 0

/-- `sys_get_time`, when the clock shows `now`. The size it gives to `argptr` is that of a
pointer. -/
def sysGetTime (now : Rtcdate) : Code Int32 := do
  match ← argptr 0 4 with
  | none => pure (-1)
  | some t => do
    cmostime now t
    let second ← loadAll 4 t
    let minute ← loadAll 4 (t + 4)
    let hour ← loadAll 4 (t + 8)
    pure (wordOf second + wordOf minute * 60 + wordOf hour * 3600).toInt32

/-- The system calls that take a pointer through `argptr`. -/
inductive Call
  | read
  | write
  | fstat
  | pipe (files : Option (OpenFile × OpenFile))
  | getTime (now : Rtcdate)

/-- The code that serves a call. -/
def Call.code : Call → Code Int32
  | .read => sysRead
  | .write => sysWrite
  | .fstat => sysFstat
  | .pipe files => sysPipe files
  | .getTime now => sysGetTime now

end Xv6.Syscall
