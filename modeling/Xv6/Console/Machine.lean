import Xv6.Lib.Ring
import Xv6.Lib.Runs

/-!
# The line editor of `console.c`

`consoleintr` keeps the line that is being typed, and `consoleread` takes lines that
have been committed. A step is one section of `cons.lock`: one key that `consoleintr`
handles, or a call of `consoleread` from its `acquire` or its return out of `sleep`
up to the next `sleep` or the return of the call.

## Implementation notes

What is shown on the screen is left out, but not the memory that is read for it: the
key for the end of the line and a newline in the middle of it read `input.buf` without
the remainder, from wherever the edit index points, and a page that is not mapped
there is a fault in the kernel. `mapped` says which indices can be read. `end_pos` is
left out, as nothing depends on it. Processes are of an arbitrary type. The last two
components of the state are not in the source: the keys so far, and the bytes that
calls of `consoleread` have delivered, in one list up to the first commit and then in
one for each commit.
-/

namespace Xv6.Console
open Lib

def INPUT_BUF : ℕ := 128

instance : NeZero INPUT_BUF := ⟨by decide⟩

/-- `C(x)` -/
def ctrl (x : Char) : UInt8 := x.toUInt8 - '@'.toUInt8

def newline : UInt8 := '\n'.toUInt8

/-- `\x7f` -/
def delete : UInt8 := 0x7f

/-- `{`, the key for the start of the line -/
def startKey : UInt8 := 0x7b

/-- `}`, the key for the end of the line -/
def endKey : UInt8 := 0x7d

/-- `input` -/
structure Input where
  buf : Fin INPUT_BUF → UInt8
  /-- Read index -/
  r : UInt32
  /-- Write index -/
  w : UInt32
  /-- Edit index -/
  e : UInt32
  size : UInt32

/-- `x % INPUT_BUF` -/
def cell (x : UInt32) : Fin INPUT_BUF := Fin.ofNat INPUT_BUF x.toNat

/-- `while (input.e != input.w && input.buf[(input.e - 1) % INPUT_BUF] != '\n') input.e--`, for at
most `n` turns -/
def rewind (buf : Fin INPUT_BUF → UInt8) : ℕ → UInt32 → UInt32
  | 0, e => e
  | n + 1, e => if buf (cell (e - 1)) = newline then e else rewind buf n (e - 1)

/-- `n` turns of a loop that shows `input.buf[input.e]` and increments `input.e` -/
def forward (mapped : UInt32 → Bool) : ℕ → UInt32 → Option UInt32
  | 0, e => some e
  | n + 1, e => if mapped e then forward mapped n (e + 1) else none

namespace Input

variable (mapped : UInt32 → Bool) (s : Input) (c : UInt8)

/-- `input.r + input.size` -/
def last : UInt32 := s.r + s.size

@[simps]
def setEdit (e : UInt32) : Input := { s with e := e }

@[simps]
def setBuf (buf : Fin INPUT_BUF → UInt8) : Input := { s with buf := buf }

/-- `input.buf[input.e++ % INPUT_BUF] = c` and `input.size++` -/
@[simps]
def store : Input :=
  { s with buf := Function.update s.buf (cell s.e) c, e := s.e + 1, size := s.size + 1 }

/-- `input.e--` and `input.size--` -/
@[simps]
def shrink : Input := { s with e := s.e - 1, size := s.size - 1 }

/-- `C('U')` and `{` -/
def home : Input := s.setEdit (rewind s.buf (s.e - s.w).toNat s.e)

/-- `C('H')` and `\x7f` -/
def backspace : Input :=
  if s.e ≠ s.last then
    if s.w < s.e then
      let t := s.shrink
      let buf := shiftDown (2 ^ 32) t.e.toNat (t.last - t.e).toNat t.buf
      t.setBuf (Function.update buf (cell t.last) ' '.toUInt8)
    else s
  else if s.e ≠ s.w then s.shrink
  else s

/-- `C('C')` -/
@[simps]
def clear : Input := { s with e := s.w, size := 0 }

/-- The loop of `}`, and of a newline in the middle of the line. -/
def toEnd : Option Input := (forward mapped (s.last - s.e).toNat s.e).map s.setEdit

/-- A character in the middle of the line. -/
def insert : Input :=
  (s.setBuf (shiftUp (2 ^ 32) s.e.toNat (s.last - s.e).toInt32.toInt.toNat s.buf)).store c

@[simps]
def commit : Input := { s with w := s.e, size := 0 }

/-- A newline or the end of the file. -/
def Ends (c : UInt8) : Prop := c = newline ∨ c = ctrl 'D'

instance : Decidable (Ends c) := inferInstanceAs (Decidable (_ ∨ _))

/-- The default case of `consoleintr`. The result tells whether `wakeup` is called. -/
def typed : Option (Input × Bool) :=
  if c ≠ 0 ∧ s.e - s.r < UInt32.ofNat INPUT_BUF then do
    let c := if c = '\r'.toUInt8 then newline else c
    let t ←
      if s.e ≠ s.last then
        if Ends c then (s.toEnd mapped).map (·.store c)
        else some (s.insert c)
      else some (s.store c)
    if Ends c ∨ t.size = UInt32.ofNat INPUT_BUF then some (t.commit, true)
    else some (t, false)
  else some (s, false)

/-- `consoleintr` for one key. There is no result if the kernel faults. -/
def consoleintr : Option (Input × Bool) :=
  if c = ctrl 'P' then some (s, false)
  else if c = ctrl 'U' then some (s.home, false)
  else if c = ctrl 'H' ∨ c = delete then some (s.backspace, false)
  else if c = ctrl 'C' then some (s.clear, false)
  else if c = startKey then some (s.home, false)
  else if c = endKey then (s.toEnd mapped).map fun t => (t, false)
  else s.typed mapped c

/-- `input.buf[input.r++ % INPUT_BUF]`: the state behind it -/
@[simps]
def drop : Input := { s with r := s.r + 1 }

/-- The byte at the read index. -/
def front : UInt8 := s.buf (cell s.r)

end Input

/-- How a section of `consoleread` ends. -/
inductive ReadEnd where
  | done
  /-- The process sleeps, and is to read at most `n` bytes more. -/
  | asleep (n : ℕ)
  deriving DecidableEq, Repr

/-- A section of `consoleread` that is to read at most `n` bytes more of `target`. The result has
the bytes that it has copied out. -/
def consoleread (target : ℕ) : ℕ → Input → Input × List UInt8 × ReadEnd
  | 0, s => (s, [], .done)
  | n + 1, s =>
    if s.r = s.w then (s, [], .asleep (n + 1))
    else if s.front = ctrl 'D' then
      -- the `^D` is left for the next call if there are bytes for this one
      (if n + 1 < target then s else s.drop, [], .done)
    else if s.front = newline then (s.drop, [newline], .done)
    else
      let r := consoleread target n s.drop
      (r.1, s.front :: r.2.1, r.2.2)

/-- Where a process is. -/
inductive Place where
  | outside
  | reading (target n : ℕ)
  /-- `SLEEPING` on `&input.r`. -/
  | asleep (target n : ℕ)
  deriving DecidableEq, Repr

/-- `wakeup(&input.r)` -/
def Place.wakeup : Place → Place
  | .asleep target n => .reading target n
  | a => a

/-- More bytes since the last commit. -/
def addLast {α : Type} : List (List α) → List α → List (List α)
  | [], _ => []
  | [l], bs => [l ++ bs]
  | l :: l' :: ls, bs => l :: addLast (l' :: ls) bs

/-- The console and the processes that read from it. -/
structure Sys (ι : Type) where
  input : Input
  place : ι → Place
  panicked : Bool
  keys : List UInt8
  delivered : List (List UInt8)

/-- Who moves. -/
inductive Move (ι : Type) where
  | key (c : UInt8)
  /-- Call `consoleread` for at most `n` bytes. -/
  | read (i : ι) (n : ℕ)
  /-- Take the lock and go on; `killed` is `myproc()->killed`. -/
  | run (i : ι) (killed : Bool)
  deriving DecidableEq, Repr

namespace Sys

variable {ι : Type} [DecidableEq ι] (mapped : UInt32 → Bool) (s : Sys ι)

@[simps -fullyApplied]
def go (i : ι) (a : Place) : Sys ι := { s with place := Function.update s.place i a }

/-- The key has been handled. -/
@[simps -fullyApplied]
def handled (c : UInt8) (t : Input) (wakeup : Bool) : Sys ι :=
  { s with
    input := t
    place := if wakeup then fun i => (s.place i).wakeup else s.place
    keys := s.keys ++ [c]
    delivered := if wakeup then s.delivered ++ [[]] else s.delivered }

/-- Handling the key has led to a panic. -/
@[simps -fullyApplied]
def panic (c : UInt8) : Sys ι := { s with panicked := true, keys := s.keys ++ [c] }

@[simps -fullyApplied]
def deliver (t : Input) (bytes : List UInt8) : Sys ι :=
  { s with input := t, delivered := addLast s.delivered bytes }

/-- A key arrives. -/
def key (c : UInt8) : Sys ι :=
  match s.input.consoleintr mapped c with
  | none => s.panic c
  | some (t, wakeup) => s.handled c t wakeup

/-- Process `i` goes on with `consoleread`. -/
def run (i : ι) (killed : Bool) (target n : ℕ) : Sys ι :=
  let r := consoleread target n s.input
  let s' := s.deliver r.1 r.2.1
  match r.2.2 with
  | .done => s'.go i .outside
  -- a killed process returns -1
  | .asleep n' => s'.go i (if killed then .outside else .asleep target n')

def step (m : Move ι) : Option (Sys ι) :=
  if s.panicked then none
  else
    match m with
    | .key c => some (s.key mapped c)
    | .read i n => if s.place i = .outside then some (s.go i (.reading n n)) else none
    | .run i killed =>
      match s.place i with
      | .reading target n => some (s.run i killed target n)
      | _ => none

end Sys

/-- Everything that a step can be. -/
inductive Moved {ι : Type} [DecidableEq ι] (mapped : UInt32 → Bool) (s : Sys ι) :
    Move ι → Sys ι → Prop
  | key {c : UInt8} : Moved mapped s (.key c) (s.key mapped c)
  | read {i : ι} {n : ℕ} : Moved mapped s (.read i n) (s.go i (.reading n n))
  | run {i : ι} {killed : Bool} {target n : ℕ} :
      Moved mapped s (.run i killed) (s.run i killed target n)

lemma Moved.of_step {ι : Type} [DecidableEq ι] {mapped : UInt32 → Bool} {s s' : Sys ι}
    {m : Move ι} (h : s.step mapped m = some s') : Moved mapped s m s' := by
  unfold Sys.step at h
  split at h
  · cases h
  cases m with
  | key c =>
    cases h
    exact .key
  | read i n =>
    obtain ⟨-, rfl⟩ := of_guard h
    exact .read
  | run i killed =>
    dsimp only at h
    split at h
    · cases h
      exact .run
    · cases h

/-- The console after the start of the machine. -/
def Sys.init {ι : Type} : Sys ι where
  input := { buf := fun _ => 0, r := 0, w := 0, e := 0, size := 0 }
  place := fun _ => .outside
  panicked := false
  keys := []
  delivered := [[]]

end Xv6.Console
