import Mathlib.Data.List.Basic

/-!
# The CGA screen

`cgaputc` puts a character at the hardware cursor, goes to the next line, or goes back by
one cell, and scrolls when the cursor would leave the 24 lines that it uses. A run of
characters behind what is already on the line is followed by what stands on the screen
up to the cursor.

## Implementation notes

The cursor registers hold 16 bits; what `cgaputc` writes to them is at most `24 * 80`. The
number of scrolls is not in the source.
-/

namespace Xv6.Console
open Function List

/-- `BACKSPACE` -/
def BACKSPACE : Int32 := 0x100

/-- `'\b'` -/
def backspaceChar : Int32 := 8

/-- `'\n'` -/
def newlineChar : Int32 := 10

/-- `' ' | 0x0700` -/
def blankCell : UInt16 := 0x0720

/-- `(c & 0xff) | 0x0700` -/
def glyph (c : Int32) : UInt16 := (c &&& 0xff).toUInt32.toUInt16 ||| 0x0700

structure Screen where
  crt : ℕ → UInt16
  /-- The cursor, `col + 80 * row`. -/
  pos : ℕ
  scrolls : ℕ

/-- `memmove(crt, crt + 80, sizeof(crt[0]) * 23 * 80)`, and then
`memset(crt + pos, 0, sizeof(crt[0]) * (24 * 80 - pos))` -/
def scrolled (crt : ℕ → UInt16) (pos : ℕ) (i : ℕ) : UInt16 :=
  if pos ≤ i ∧ i < 24 * 80 then 0 else if i < 23 * 80 then crt (i + 80) else crt i

namespace Screen

variable (s : Screen) (c : Int32)

/-- The cell and the cursor before the screen is scrolled. -/
def written : (ℕ → UInt16) × ℕ :=
  if c = newlineChar then (s.crt, s.pos + (80 - s.pos % 80))
  else if c = BACKSPACE ∨ c = backspaceChar then (s.crt, s.pos - 1)
  else (update s.crt s.pos (glyph c), s.pos + 1)

/-- There is no result if the kernel panics. -/
def cgaputc : Option Screen :=
  let (crt, pos) := s.written c
  if 25 * 80 < pos then none
  else
    let t : Screen :=
      if 24 ≤ pos / 80 then ⟨scrolled crt (pos - 80), pos - 80, s.scrolls + 1⟩
      else ⟨crt, pos, s.scrolls⟩
    some (if c ≠ backspaceChar then { t with crt := update t.crt t.pos blankCell } else t)

/-- What `consputc` does to the screen, for several characters. -/
def consputcs (s : Screen) : List Int32 → Option Screen
  | [] => some s
  | c :: cs => (s.cgaputc c).bind fun t => t.consputcs cs

lemma consputcs_append (s : Screen) (cs ds : List Int32) :
    s.consputcs (cs ++ ds) = (s.consputcs cs).bind fun t => t.consputcs ds := by
  induction cs generalizing s with
  | nil => rfl
  | cons c cs ih =>
    rw [cons_append, consputcs, consputcs, Option.bind_assoc]
    exact congrArg (s.cgaputc c).bind (funext ih)

end Screen

/-! ### Going back -/

section
variable {s : Screen}

section
variable (hpos : s.pos < 24 * 80)
include hpos

lemma cgaputc_back : s.cgaputc backspaceChar = some { s with pos := s.pos - 1 } := by
  have hwritten : s.written backspaceChar = (s.crt, s.pos - 1) := rfl
  have hrow : ¬ 24 ≤ (s.pos - 1) / 80 := by omega
  unfold Screen.cgaputc
  rw [hwritten]
  dsimp only
  rw [if_neg (by omega), if_neg hrow]
  rfl

lemma consputcs_back (n : ℕ) :
    s.consputcs (List.replicate n backspaceChar) = some { s with pos := s.pos - n } := by
  induction n generalizing s with
  | zero => rfl
  | succ n ih =>
    rw [replicate_succ, Screen.consputcs, cgaputc_back hpos, Option.bind_some,
      ih (show s.pos - 1 < _ by omega), Nat.sub_sub, Nat.add_comm 1 n]

lemma cgaputc_erase :
    s.cgaputc BACKSPACE = some ⟨update s.crt (s.pos - 1) blankCell, s.pos - 1, s.scrolls⟩ := by
  have hwritten : s.written BACKSPACE = (s.crt, s.pos - 1) := rfl
  have hrow : ¬ 24 ≤ (s.pos - 1) / 80 := by omega
  unfold Screen.cgaputc
  rw [hwritten]
  dsimp only
  rw [if_neg (by omega), if_neg hrow]
  rfl

lemma consputcs_erase {n : ℕ} (hn : n ≤ s.pos) :
    ∃ t, s.consputcs (List.replicate n BACKSPACE) = some t ∧ t.pos = s.pos - n ∧
      t.scrolls = s.scrolls ∧ (∀ i < s.pos - n, t.crt i = s.crt i) ∧
      (n ≠ 0 → t.crt t.pos = blankCell) := by
  induction n generalizing s with
  | zero => exact ⟨s, rfl, rfl, rfl, fun _ _ => rfl, fun h => absurd rfl h⟩
  | succ n ih =>
    obtain ⟨t, ht, htpos, hscrolls, hsame, hblank⟩ :=
      ih (s := ⟨update s.crt (s.pos - 1) blankCell, s.pos - 1, s.scrolls⟩)
        (by dsimp only; omega) (by dsimp only; omega)
    dsimp only at htpos hsame
    refine ⟨t, ?_, by omega, hscrolls, fun i hi => ?_, fun _ => ?_⟩
    · rwa [replicate_succ, Screen.consputcs, cgaputc_erase hpos]
    · rw [hsame i (by omega), update_of_ne (by omega)]
    by_cases hzero : n = 0
    · subst hzero
      cases ht
      exact update_self _ _ _
    · exact hblank hzero

end
end

/-! ### Characters at the cursor -/

/-- The character is shown in a cell. -/
def Visible (c : Int32) : Prop := c ≠ newlineChar ∧ c ≠ BACKSPACE ∧ c ≠ backspaceChar

/-- The cells `l` stand on the screen from `start` up to the cursor. They were at `origin` before
the first scroll. -/
structure Upto (origin start : ℕ) (l : List UInt16) (s : Screen) : Prop where
  start_eq : start + 80 * s.scrolls = origin
  cells : ∀ i (h : i < l.length), s.crt (start + i) = l[i]
  pos : s.pos = start + l.length
  lt : s.pos < 24 * 80

namespace Upto

variable {origin start : ℕ} {l : List UInt16} {s : Screen} {c : Int32}

lemma put (h : Upto origin start l s) (hlen : l.length < 23 * 80) (hc : Visible c) :
    ∃ start' t, s.cgaputc c = some t ∧ Upto origin start' (l ++ [glyph c]) t ∧
      t.crt t.pos = blankCell := by
  obtain ⟨hnewline, herase, hback⟩ := hc
  have hpos := h.pos
  have hlt := h.lt
  have hwritten : s.written c = (update s.crt s.pos (glyph c), s.pos + 1) := by
    rw [Screen.written, if_neg hnewline, if_neg (not_or.mpr ⟨herase, hback⟩)]
  -- the cells before anything is scrolled
  have hcells : ∀ i (hi : i < (l ++ [glyph c]).length),
      update s.crt s.pos (glyph c) (start + i) = (l ++ [glyph c])[i] := by
    intro i hi
    rw [length_append, length_singleton] at hi
    obtain hi | rfl : i < l.length ∨ i = l.length := by omega
    · rw [update_of_ne (by omega), h.cells i hi, getElem_append_left hi]
    · rw [← hpos, update_self]
      simp
  unfold Screen.cgaputc
  rw [hwritten]
  dsimp only
  rw [if_neg (by omega), if_pos hback]
  by_cases hbottom : s.pos + 1 < 24 * 80
  · rw [if_neg (by omega)]
    refine ⟨start, _, rfl, ⟨h.start_eq, fun i hi => ?_, ?_, hbottom⟩, update_self _ _ _⟩
    · have hi' := hi
      rw [length_append, length_singleton] at hi'
      dsimp only
      rw [update_of_ne (by omega)]
      exact hcells i hi
    rw [length_append, length_singleton]
    dsimp only
    omega
  rw [if_pos (by omega)]
  have hstart := h.start_eq
  refine ⟨start - 80, _, rfl, ⟨?_, fun i hi => ?_, ?_, ?_⟩, update_self _ _ _⟩
  · dsimp only
    omega
  · have hi' := hi
    rw [length_append, length_singleton] at hi'
    dsimp only
    rw [update_of_ne (by omega), scrolled, if_neg (by omega), if_pos (by omega), ← hcells i hi]
    congr 1
    omega
  · rw [length_append, length_singleton]
    dsimp only
    omega
  · dsimp only
    omega

lemma puts (h : Upto origin start l s) (cs : List Int32) (hlen : l.length + cs.length ≤ 23 * 80)
    (hcs : ∀ c ∈ cs, Visible c) :
    ∃ start' t, s.consputcs cs = some t ∧ Upto origin start' (l ++ cs.map glyph) t ∧
      (cs ≠ [] → t.crt t.pos = blankCell) := by
  induction cs generalizing s start l with
  | nil =>
    refine ⟨start, s, rfl, ?_, fun hne => absurd rfl hne⟩
    rwa [map_nil, append_nil]
  | cons c cs ih =>
    rw [length_cons] at hlen
    obtain ⟨start₁, s₁, hs₁, h₁, hblank₁⟩ := h.put (by omega) (hcs c mem_cons_self)
    have hlen₁ : (l ++ [glyph c]).length + cs.length ≤ 23 * 80 := by
      rw [length_append, length_singleton]
      omega
    obtain ⟨start', t, ht, h', hblank⟩ := ih h₁ hlen₁ fun d hd => hcs d (mem_cons_of_mem _ hd)
    refine ⟨start', t, ?_, ?_, fun _ => ?_⟩
    · rwa [Screen.consputcs, hs₁]
    · rwa [map_cons, ← singleton_append, ← append_assoc]
    cases cs with
    | nil =>
      cases ht
      exact hblank₁
    | cons d cs => exact hblank (cons_ne_nil d cs)

end Upto
end Xv6.Console
