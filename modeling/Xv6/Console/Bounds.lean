import Xv6.Console.Overwrite

/-!
# Where `input.buf` is accessed

Every access to the ring takes the remainder of its index, but for two: the loops that
show the rest of the line, for `}` and for a newline in the middle of it, read at the
edit index itself. They stay in the array as long as the line ends within its first
128 characters.

## Implementation notes

The lists are of the indices that the code computes, in the order of the accesses. A loop
whose reads may fault is listed to its end. That the other indices are below `INPUT_BUF`
is in the type of the ring; so an access out of bounds is a fault in a kernel that maps
nothing but the array.
-/

namespace Xv6.Console
open Lib

/-! ### The accesses -/

/-- `x % INPUT_BUF` as a number -/
def index (x : UInt32) : ℕ := (cell x).val

/-- `input.buf[(input.e - 1) % INPUT_BUF] != '\n'` in each turn of the loop -/
def rewindReads (buf : Fin INPUT_BUF → UInt8) : ℕ → UInt32 → List ℕ
  | 0, _ => []
  | n + 1, e =>
    index (e - 1) :: if buf (cell (e - 1)) = newline then [] else rewindReads buf n (e - 1)

/-- `consputc(input.buf[input.e]); input.e++`, `n` times -/
def forwardReads : ℕ → UInt32 → List ℕ
  | 0, _ => []
  | n + 1, e => e.toNat :: forwardReads n (e + 1)

/-- `input.buf[(a + i) % INPUT_BUF]` for `i < n` -/
def showReads (a : UInt32) (n : ℕ) : List ℕ :=
  (List.range n).map fun i => index (a + UInt32.ofNat i)

/-- `input.buf[(a + i) % INPUT_BUF] = input.buf[(a + i + 1) % INPUT_BUF]` for `i < n` -/
def shiftDownAccesses (a : UInt32) (n : ℕ) : List ℕ :=
  (List.range n).flatMap fun i =>
    [index (a + UInt32.ofNat i + 1), index (a + UInt32.ofNat i)]

/-- `input.buf[(a + i) % INPUT_BUF] = input.buf[(a + i - 1) % INPUT_BUF]` for `i` from `n` to 1 -/
def shiftUpAccesses (a : UInt32) (n : ℕ) : List ℕ :=
  (List.range n).reverse.flatMap fun i =>
    [index (a + UInt32.ofNat i), index (a + UInt32.ofNat i + 1)]

namespace Input

variable (s : Input) (c : UInt8)

def homeAccesses : List ℕ := rewindReads s.buf (s.e - s.w).toNat s.e

def toEndAccesses : List ℕ := forwardReads (s.last - s.e).toNat s.e

def backspaceAccesses : List ℕ :=
  if s.e ≠ s.last then
    if s.w < s.e then
      let t := s.shrink
      let n := (t.last - t.e).toNat
      shiftDownAccesses t.e n ++ [index t.last] ++ showReads t.e n
    else []
  else []

def typedAccesses : List ℕ :=
  if c ≠ 0 ∧ s.e - s.r < UInt32.ofNat INPUT_BUF then
    let c := if c = '\r'.toUInt8 then newline else c
    if s.e ≠ s.last then
      if Ends c then s.toEndAccesses ++ [index s.last]
      else
        let t := s.insert c
        shiftUpAccesses s.e (s.last - s.e).toInt32.toInt.toNat ++ [index s.e] ++
          showReads t.e (t.last - t.e).toNat
    else [index s.e]
  else []

/-- The indices at which `consoleintr` accesses `input.buf`. -/
def accesses : List ℕ :=
  if c = ctrl 'P' then []
  else if c = ctrl 'U' then s.homeAccesses
  else if c = ctrl 'H' ∨ c = delete then s.backspaceAccesses
  else if c = ctrl 'C' then []
  else if c = startKey then s.homeAccesses
  else if c = endKey then s.toEndAccesses
  else s.typedAccesses c

end Input

/-- The indices at which a section of `consoleread` accesses `input.buf`. -/
def readAccesses : ℕ → Input → List ℕ
  | 0, _ => []
  | n + 1, s =>
    if s.r = s.w then []
    else index s.r :: if s.front = ctrl 'D' ∨ s.front = newline then [] else readAccesses n s.drop

/-! ### Which of them are in bounds -/

/-- All the indices are in the array. -/
def InBounds (is : List ℕ) : Prop := ∀ i ∈ is, i < INPUT_BUF

/-- A kernel that maps only the array. -/
def arrayOnly (x : UInt32) : Bool := x.toNat < INPUT_BUF

lemma index_lt (x : UInt32) : index x < INPUT_BUF := (cell x).isLt

lemma inBounds_append {is js : List ℕ} : InBounds (is ++ js) ↔ InBounds is ∧ InBounds js :=
  List.forall_mem_append

lemma inBounds_cons {is : List ℕ} (x : UInt32) (h : InBounds is) : InBounds (index x :: is) :=
  List.forall_mem_cons.mpr ⟨index_lt x, h⟩

lemma inBounds_index (x : UInt32) : InBounds [index x] := inBounds_cons x nofun

lemma inBounds_rewindReads (buf : Fin INPUT_BUF → UInt8) (n : ℕ) (e : UInt32) :
    InBounds (rewindReads buf n e) := by
  induction n generalizing e with
  | zero => exact nofun
  | succ n ih =>
    refine inBounds_cons _ ?_
    split
    · exact nofun
    · exact ih (e - 1)

lemma inBounds_showReads (a : UInt32) (n : ℕ) : InBounds (showReads a n) := by
  intro i hi
  obtain ⟨j, -, rfl⟩ := List.mem_map.mp hi
  exact index_lt _

lemma inBounds_shiftDownAccesses (a : UInt32) (n : ℕ) : InBounds (shiftDownAccesses a n) := by
  intro i hi
  obtain ⟨j, -, hi⟩ := List.mem_flatMap.mp hi
  exact inBounds_cons _ (inBounds_index _) i hi

lemma inBounds_shiftUpAccesses (a : UInt32) (n : ℕ) : InBounds (shiftUpAccesses a n) := by
  intro i hi
  obtain ⟨j, -, hi⟩ := List.mem_flatMap.mp hi
  exact inBounds_cons _ (inBounds_index _) i hi

lemma inBounds_forwardReads (n : ℕ) (e : UInt32) :
    InBounds (forwardReads n e) ↔ (forward arrayOnly n e).isSome := by
  induction n generalizing e with
  | zero => exact iff_of_true nofun rfl
  | succ n ih =>
    rw [forwardReads, forward, InBounds, List.forall_mem_cons, ← InBounds, ih]
    by_cases he : e.toNat < INPUT_BUF
    · rw [if_pos (by simp [arrayOnly, he])]
      exact and_iff_right he
    · rw [if_neg (by simp [arrayOnly, he])]
      exact iff_of_false (fun h => he h.1) Bool.false_ne_true

section
variable {s : Input} {c : UInt8}

lemma inBounds_toEndAccesses : InBounds s.toEndAccesses ↔ (s.toEnd arrayOnly).isSome := by
  rw [Input.toEndAccesses, inBounds_forwardReads, Input.toEnd, Option.isSome_map]

lemma inBounds_typedAccesses : InBounds (s.typedAccesses c) ↔ (s.typed arrayOnly c).isSome := by
  -- whether the line is committed does not matter
  have hend : ∀ (o : Option Input) (P : Input → Prop) [DecidablePred P],
      (o.bind fun t => if P t then some (t.commit, true) else some (t, false)).isSome =
        o.isSome := by
    intro o P _
    rcases o with _ | t
    · rfl
    rw [Option.bind_some]
    split <;> rfl
  by_cases hguard : c ≠ 0 ∧ s.e - s.r < UInt32.ofNat INPUT_BUF
  · rw [typed_eq hguard.1 hguard.2 rfl, hend, Input.typedAccesses, if_pos hguard, ite_not]
    generalize (if c = '\r'.toUInt8 then newline else c) = d
    split
    · exact iff_of_true (inBounds_index _) rfl
    split
    · rw [inBounds_append, inBounds_toEndAccesses, Option.isSome_map]
      exact and_iff_left (inBounds_index _)
    · exact iff_of_true (inBounds_append.mpr ⟨inBounds_append.mpr
        ⟨inBounds_shiftUpAccesses _ _, inBounds_index _⟩, inBounds_showReads _ _⟩) rfl
  · rw [Input.typed, if_neg hguard, Input.typedAccesses, if_neg hguard]
    exact iff_of_true (List.forall_mem_nil _) rfl

/-- The accesses for a key are in bounds exactly if the key can be handled with nothing but the
array mapped. -/
lemma inBounds_accesses : InBounds (s.accesses c) ↔ (s.consoleintr arrayOnly c).isSome := by
  have hhome : InBounds s.homeAccesses := inBounds_rewindReads _ _ _
  have hback : InBounds s.backspaceAccesses := by
    unfold Input.backspaceAccesses
    split
    · split
      · exact inBounds_append.mpr ⟨inBounds_append.mpr ⟨inBounds_shiftDownAccesses _ _,
          inBounds_index _⟩, inBounds_showReads _ _⟩
      · exact nofun
    · exact nofun
  unfold Input.accesses Input.consoleintr
  split_ifs
  · exact iff_of_true nofun rfl
  · exact iff_of_true hhome rfl
  · exact iff_of_true hback rfl
  · exact iff_of_true nofun rfl
  · exact iff_of_true hhome rfl
  · rw [inBounds_toEndAccesses, Option.isSome_map]
  · exact inBounds_typedAccesses

end

lemma inBounds_readAccesses (n : ℕ) (s : Input) : InBounds (readAccesses n s) := by
  induction n generalizing s with
  | zero => exact nofun
  | succ n ih =>
    unfold readAccesses
    split
    · exact nofun
    refine inBounds_cons _ ?_
    split
    · exact nofun
    · exact ih s.drop

/-! ### All runs -/

/-- The line ends in the array, counted from where the cursor points. -/
def Input.EndsWithin (s : Input) (c : UInt8) : Prop :=
  key c = .toEnd ∨ key c = .enter ∨ key c = .eof → s.e ≠ s.last →
    s.e.toNat + (s.last - s.e).toNat ≤ INPUT_BUF

instance (s : Input) (c : UInt8) : Decidable (s.EndsWithin c) :=
  inferInstanceAs (Decidable (_ → _ → _))

/-- A list of indices without the remainder. -/
lemma arrayOnly_iff (e : UInt32) {n : ℕ} (hn : n < INPUT_BUF) :
    (∀ i < n, arrayOnly (e + UInt32.ofNat i) = true) ↔ n ≠ 0 → e.toNat + n ≤ INPUT_BUF := by
  have he := e.toNat_lt
  have hvalue : ∀ i < n, arrayOnly (e + UInt32.ofNat i) = true ↔ (e.toNat + i) % 2 ^ 32 < 128 := by
    intro i hi
    rw [arrayOnly, UInt32.toNat_add, UInt32.toNat_ofNat', Nat.add_mod_mod]
    exact decide_eq_true_iff
  change n < 128 at hn
  change _ ↔ n ≠ 0 → e.toNat + n ≤ 128
  constructor
  · intro h hne
    have hfirst := (hvalue 0 (by omega)).mp (h 0 (by omega))
    have hlast := (hvalue (n - 1) (by omega)).mp (h (n - 1) (by omega))
    omega
  intro h i hi
  rw [hvalue i hi]
  omega

lemma Input.HasLine.inBounds_iff {s : Input} {ed : Editor} (h : s.HasLine ed) (hr : s.r = s.w)
    (c : UInt8) : InBounds (s.accesses c) ↔ s.EndsWithin c := by
  have hshort : ed.right.length < INPUT_BUF := by
    have hlt := h.text_lt
    have hlength := ed.length_text
    change _ < 128
    omega
  have hend : ed.right.length ≠ 0 ↔ s.e ≠ s.last := by
    rw [Ne, List.length_eq_zero_iff, ← h.at_end hr]
  have hread := arrayOnly_iff s.e hshort
  rw [hend] at hread
  rw [inBounds_accesses, h.isSome_iff hr, Readable, Input.EndsWithin, h.behind hr]
  exact imp_congr_right fun _ => hread

instance {ι : Type} (s : Sys ι) (m : Move ι) : Decidable (Drained s m) :=
  match m with
  | .key _ => inferInstanceAs (Decidable (_ = _))
  | .read _ _ | .run _ _ => inferInstanceAs (Decidable True)

/-- When keys wait for the readers, the accesses for a key are in bounds exactly if it does not
show the rest of the line, or the line ends within the array; those of `consoleread` always are. -/
theorem accesses_inBounds_iff {ι : Type} [DecidableEq ι] {mapped : UInt32 → Bool} {s : Sys ι}
    (h : Reaches (Sys.step mapped) Drained Sys.init s) :
    (s.input.r = s.input.w → ∀ c, InBounds (s.input.accesses c) ↔ s.input.EndsWithin c) ∧
      ∀ n, InBounds (readAccesses n s.input) := by
  obtain ⟨ed, hline⟩ := drained_hasLine h
  exact ⟨hline.inBounds_iff, fun n => inBounds_readAccesses n s.input⟩

/-- `}` at the start of the line `ab`. -/
theorem accesses_inBounds_ab : ∃ s : Sys Unit,
    Reaches (Sys.step fun _ => true) Drained Sys.init s ∧ s.input.accesses endKey = [0, 1] ∧
      InBounds (s.input.accesses endKey) := by
  obtain ⟨s, hreach, hr, heq, hwithin⟩ := exists_of_execAll (Sys.step fun _ => true) Drained
    (Sys.init : Sys Unit) [.key 'a'.toUInt8, .key 'b'.toUInt8, .key startKey]
    (fun s => s.input.r = s.input.w ∧ s.input.accesses endKey = [0, 1] ∧
      s.input.EndsWithin endKey) (by decide +kernel)
  exact ⟨s, hreach, heq, ((accesses_inBounds_iff hreach).1 hr endKey).mpr hwithin⟩

/-- The same when a line of 126 characters has been read before. -/
theorem accesses_out_of_bounds : ∃ s : Sys Unit,
    Reaches (Sys.step fun _ => true) Drained Sys.init s ∧ s.input.r = s.input.w ∧
      s.input.accesses endKey = [127, 128] := by
  obtain ⟨s, hreach, hr, heq⟩ := exists_of_execAll (Sys.step fun _ => true) Drained
    (Sys.init : Sys Unit)
    (List.replicate 126 (.key 'x'.toUInt8) ++ [.key newline, .read () 200, .run () false,
      .key 'a'.toUInt8, .key 'b'.toUInt8, .key startKey])
    (fun s => s.input.r = s.input.w ∧ s.input.accesses endKey = [127, 128]) (by decide +kernel)
  exact ⟨s, hreach, hr, heq⟩

end Xv6.Console
