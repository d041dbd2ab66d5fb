import Xv6.Console.Kill
import Xv6.Console.Screen

/-!
# The line on the screen

For each key `consoleintr` calls `consputc` with some characters. An edit in the middle of
the line shows the rest of the line again and then goes back to the cursor.

## Implementation notes

`char` is signed, so a byte of the ring is passed on as a number from -128 to 127, and a
byte from the keyboard as one from 0 to 255. What `consputc` sends to the serial port is
left out. `beyond` is what is in memory behind the ring, for the keys that read there.
-/

namespace Xv6.Console
open Lib Function List

/-! ### What is shown for a key -/

/-- A `char` as an `int`. -/
def charInt (c : UInt8) : Int32 := c.toInt8.toInt32

/-- A result of `getc`. -/
def keyInt (c : UInt8) : Int32 := c.toUInt32.toInt32

/-- `' '` -/
def spaceChar : Int32 := 0x20

/-- `consputc(out)` in each turn of the loop of `rewind` -/
def rewindOutputs (out : Int32) (buf : Fin INPUT_BUF → UInt8) : ℕ → UInt32 → List Int32
  | 0, _ => []
  | n + 1, e =>
    if buf (cell (e - 1)) = newline then [] else out :: rewindOutputs out buf n (e - 1)

/-- `consputc(input.buf[(a + i) % INPUT_BUF])` for `i < n` -/
def showFrom (buf : Fin INPUT_BUF → UInt8) (a : UInt32) (n : ℕ) : List Int32 :=
  (List.range n).map fun i => charInt (buf (cell (a + UInt32.ofNat i)))

namespace Input

variable (beyond : UInt32 → UInt8) (s : Input) (c : UInt8)

/-- `input.buf[e]` -/
def peek (e : UInt32) : UInt8 := if e.toNat < INPUT_BUF then s.buf (cell e) else beyond e

/-- `consputc(input.buf[input.e]); input.e++`, `n` times -/
def forwardOutputs : ℕ → UInt32 → List Int32
  | 0, _ => []
  | n + 1, e => charInt (s.peek beyond e) :: forwardOutputs n (e + 1)

def backspaceOutputs : List Int32 :=
  if s.e ≠ s.last then
    if s.w < s.e then
      let t := s.backspace
      let n := (t.last - t.e).toNat
      backspaceChar :: showFrom t.buf t.e n ++ [spaceChar, backspaceChar] ++
        List.replicate n backspaceChar
    else []
  else if s.e ≠ s.w then [BACKSPACE]
  else []

def clearOutputs : List Int32 :=
  List.replicate (s.w + s.size - s.e).toNat spaceChar ++ List.replicate s.size.toNat BACKSPACE

def typedOutputs : List Int32 :=
  if c ≠ 0 ∧ s.e - s.r < UInt32.ofNat INPUT_BUF then
    let c := if c = '\r'.toUInt8 then newline else c
    if s.e ≠ s.last then
      if Ends c then s.forwardOutputs beyond (s.last - s.e).toNat s.e ++ [keyInt c]
      else
        let t := s.insert c
        let n := (t.last - t.e).toNat
        keyInt c :: showFrom t.buf t.e n ++ List.replicate n backspaceChar
    else [keyInt c]
  else []

/-- The arguments of `consputc` for a key. -/
def outputs : List Int32 :=
  if c = ctrl 'P' then []
  else if c = ctrl 'U' then rewindOutputs BACKSPACE s.buf (s.e - s.w).toNat s.e
  else if c = ctrl 'H' ∨ c = delete then s.backspaceOutputs
  else if c = ctrl 'C' then s.clearOutputs
  else if c = startKey then rewindOutputs backspaceChar s.buf (s.e - s.w).toNat s.e
  else if c = endKey then s.forwardOutputs beyond (s.last - s.e).toNat s.e
  else s.typedOutputs beyond c

lemma outputs_eq : s.outputs beyond c = match key c with
    | .nothing => []
    | .kill => rewindOutputs BACKSPACE s.buf (s.e - s.w).toNat s.e
    | .home => rewindOutputs backspaceChar s.buf (s.e - s.w).toNat s.e
    | .backspace => s.backspaceOutputs
    | .clear => s.clearOutputs
    | .toEnd => s.forwardOutputs beyond (s.last - s.e).toNat s.e
    | .enter | .eof | .char _ => s.typedOutputs beyond c := by
  by_cases hzero : c = 0
  · subst hzero
    rfl
  unfold outputs key
  simp only [hzero, false_or]
  split_ifs <;> rfl

end Input

/-- The console and its screen. -/
structure Terminal where
  input : Input
  screen : Screen

/-- A key. There is no result if the kernel faults or panics. -/
def Terminal.key (mapped : UInt32 → Bool) (beyond : UInt32 → UInt8) (t : Terminal) (c : UInt8) :
    Option Terminal :=
  (t.input.consoleintr mapped c).bind fun r =>
    (t.screen.consputcs (t.input.outputs beyond c)).map fun screen => ⟨r.1, screen⟩

def Terminal.keys (mapped : UInt32 → Bool) (beyond : UInt32 → UInt8) (t : Terminal) :
    List UInt8 → Option Terminal
  | [] => some t
  | c :: cs => (t.key mapped beyond c).bind fun t' => t'.keys mapped beyond cs

/-! ### The same from the line -/

/-- The characters for a key on a line that starts at index `w`. -/
def Editor.echo (w : ℕ) (ed : Editor) : Key → List Int32
  | .char c =>
    keyInt c :: ed.right.map charInt ++ List.replicate ed.right.length backspaceChar
  | .backspace =>
    if ed.right = [] then if ed.left = [] then [] else [BACKSPACE]
    else if ed.left ≠ [] ∧ w + ed.left.length < 2 ^ 32 then
      backspaceChar :: ed.right.map charInt ++ [spaceChar, backspaceChar] ++
        List.replicate ed.right.length backspaceChar
    else []
  | .home => List.replicate ed.left.length backspaceChar
  | .clear =>
    List.replicate ed.right.length spaceChar ++ List.replicate ed.text.length BACKSPACE
  | _ => []

/-- Ordinary characters, Backspace, `{` and `^C`. -/
def Typing (c : UInt8) : Prop :=
  key c = .char c ∨ key c = .backspace ∨ key c = .home ∨ key c = .clear

instance : DecidablePred Typing := fun _ => inferInstanceAs (Decidable (_ ∨ _))

lemma rewindOutputs_eq (out : Int32) {buf : Fin INPUT_BUF → UInt8} {w : UInt32} {k : ℕ}
    (h : ∀ i < k, buf (cell (w + UInt32.ofNat i)) ≠ newline) :
    rewindOutputs out buf k (w + UInt32.ofNat k) = List.replicate k out := by
  induction k with
  | zero => rfl
  | succ k ih =>
    have hprev : w + UInt32.ofNat (k + 1) - 1 = w + UInt32.ofNat k := by
      rw [UInt32.ofNat_add, ← UInt32.add_assoc]
      exact UInt32.add_sub_cancel _ _
    rw [rewindOutputs, hprev, if_neg (h k (Nat.lt_succ_self k)),
      ih fun i hi => h i (Nat.lt_succ_of_lt hi)]
    rfl

namespace Input.HasLine

variable {s : Input} {ed : Editor} {c : UInt8}

lemma showFrom_eq (h : s.HasLine ed) :
    showFrom s.buf s.e ed.right.length = ed.right.map charInt := by
  have hlength := ed.length_text
  refine ext_getElem (by simp [showFrom]) fun i hi hi' => ?_
  rw [length_map] at hi'
  have hcell : s.buf (cell (s.e + UInt32.ofNat i)) = ed.right[i] := by
    rw [h.e, UInt32.add_assoc, ← UInt32.ofNat_add, cell_add, h.ring.cell _ (by omega)]
    simp [Editor.text]
  simp [showFrom, hcell]

lemma insert (h : s.HasLine ed) (hr : s.r = s.w) (hshort : ed.text.length + 1 < INPUT_BUF)
    (hc : c ≠ newline ∧ c ≠ ctrl 'D') :
    (s.insert c).HasLine { ed with left := ed.left ++ [c] } := by
  refine h.put hshort hc ?_ rfl rfl rfl
  rw [← h.turns hr]
  rfl

lemma outputs_echo (beyond : UInt32 → UInt8) (h : s.HasLine ed) (hr : s.r = s.w) (hc : Typing c)
    (hfits : (ed.pressAt s.w.toNat (key c)).text.length < INPUT_BUF) :
    s.outputs beyond c = ed.echo s.w.toNat (key c) := by
  rw [Input.outputs_eq]
  obtain hkey | hkey | hkey | hkey := hc
  · obtain ⟨-, hzero, hreturn, hc⟩ := key_char hkey
    have hends : ¬ Input.Ends c := not_or.mpr hc
    rw [hkey]
    rw [Input.typedOutputs, if_pos ⟨hzero, h.room hr⟩, if_neg hreturn]
    dsimp only
    by_cases hright : ed.right = []
    · rw [if_neg (not_not.mpr ((h.at_end hr).mpr hright))]
      unfold Editor.echo
      rw [hright]
      rfl
    rw [hkey, Editor.length_pressAt_char] at hfits
    have hinsert := h.insert hr hfits hc
    rw [if_pos fun heq => hright ((h.at_end hr).mp heq), if_neg hends,
      hinsert.behind (hr : (s.insert c).r = (s.insert c).w), hinsert.showFrom_eq]
    rfl
  · rw [hkey]
    dsimp only
    unfold Editor.echo
    rw [Input.backspaceOutputs, ite_not]
    by_cases hright : ed.right = []
    · rw [if_pos ((h.at_end hr).mpr hright), if_pos hright, ite_not]
      exact if_congr h.at_start rfl rfl
    rw [if_neg fun heq => hright ((h.at_end hr).mp heq), if_neg hright]
    refine Eq.trans ?_ (if_congr h.after_start rfl rfl)
    split
    · rename_i hlt
      have hafter := h.after_start.mp hlt
      obtain ⟨hback, hr', hw'⟩ := h.backspace hr
      rw [h.erased_eq, if_pos (.inr hafter.2)] at hback
      dsimp only
      rw [hback.behind (by rw [hr', hw', hr]), hback.showFrom_eq]
    · rfl
  · rw [hkey]
    rw [h.cursor, h.e, rewindOutputs_eq backspaceChar h.left_ne_newline]
    rfl
  have hlt := h.text_lt
  have hlength := ed.length_text
  have hcount : (s.w + s.size - s.e).toNat = ed.right.length := by
    rw [h.size, h.e, toNat_add_sub_add s.w (by omega) (by omega)]
    omega
  rw [hkey]
  rw [Input.clearOutputs, hcount, h.toNat_size]
  rfl

end Input.HasLine

/-! ### The screen under the keys -/

/-- A character of the line in a cell. -/
def charCell (c : UInt8) : UInt16 := c.toUInt16 ||| 0x0700

/-- Nothing is seen in the cell. -/
def Blank (v : UInt16) : Prop := v.toUInt8 = 0 ∨ v.toUInt8 = ' '.toUInt8

instance : DecidablePred Blank := fun _ => inferInstanceAs (Decidable (_ ∨ _))

lemma blank_blankCell : Blank blankCell := .inr rfl

/-- An ordinary character is shown in a cell, whether it comes from the keyboard or from the
ring. -/
lemma visible_of_char : ∀ c : UInt8, key c = .char c →
    (Visible (keyInt c) ∧ glyph (keyInt c) = charCell c) ∧
      Visible (charInt c) ∧ glyph (charInt c) = charCell c := by
  rintro ⟨b⟩
  revert b
  unfold Visible
  decide +kernel

/-- The line is on the screen from `start` on, with the cursor at its place. If `after` holds, the
cell behind it is blank. -/
structure Shown (origin start : ℕ) (after : Prop) (ed : Editor) (s : Screen) : Prop where
  start_eq : start + 80 * s.scrolls = origin
  cells : ∀ i (h : i < ed.text.length), s.crt (start + i) = charCell ed.text[i]
  pos : s.pos = start + ed.left.length
  lt : start + ed.text.length < 24 * 80
  blank : after → Blank (s.crt (start + ed.text.length))

section
variable {origin start : ℕ} {after : Prop} {ed : Editor} {s : Screen} {w : ℕ} {c : UInt8}

namespace Shown

lemma pos_lt (h : Shown origin start after ed s) : s.pos < 24 * 80 := by
  have hlt := h.lt
  have hlength := ed.length_text
  rw [h.pos]
  omega

lemma upto (h : Shown origin start after ed s) : Upto origin start (ed.left.map charCell) s where
  start_eq := h.start_eq
  cells i hi := by
    rw [length_map] at hi
    have hlength := ed.length_text
    rw [h.cells i (by omega), getElem_map]
    congr 1
    exact getElem_append_left hi
  pos := by
    rw [length_map]
    exact h.pos
  lt := h.pos_lt

end Shown

lemma Upto.shown (ed : Editor) {l : List UInt16}
    (h : Upto origin start (ed.text.map charCell ++ l) s)
    (hblank : after → Blank (s.crt (start + ed.text.length))) :
    ∃ t, s.consputcs (List.replicate (ed.right.length + l.length) backspaceChar) = some t ∧
      Shown origin start after ed t := by
  have hpos := h.pos
  have hlt := h.lt
  have hlength := ed.length_text
  rw [length_append, length_map] at hpos
  refine ⟨_, consputcs_back hlt _, h.start_eq, fun i hi => ?_, ?_, by omega, hblank⟩
  · have hi' : i < (ed.text.map charCell).length := by rwa [length_map]
    have hcell := h.cells i (by rw [length_append]; omega)
    rwa [getElem_append_left hi', getElem_map] at hcell
  · dsimp only
    omega

namespace Shown

lemma mono {after' : Prop} (h : Shown origin start after ed s) (himp : after' → after) :
    Shown origin start after' ed s :=
  ⟨h.start_eq, h.cells, h.pos, h.lt, fun ha => h.blank (himp ha)⟩

lemma glyph_map {l : List UInt8} (hl : ∀ c ∈ l, key c = .char c) :
    (l.map charInt).map glyph = l.map charCell := by
  rw [map_map]
  exact map_congr_left fun c hc => (visible_of_char c (hl c hc)).2.2

section
variable (h : Shown origin start after ed s)
include h

lemma erase (hright : ed.right = []) (hleft : ed.left ≠ []) :
    ∃ t, s.consputcs [BACKSPACE] = some t ∧
      Shown origin start after { ed with left := ed.left.dropLast } t := by
  have hpos := h.pos
  have hlt := h.lt
  have hlength := ed.length_text
  rw [hright, length_nil] at hlength
  have hne := length_pos_iff.mpr hleft
  have htext : ({ ed with left := ed.left.dropLast } : Editor).text = ed.text.dropLast := by
    simp only [Editor.text, hright, append_nil]
  have herase : s.consputcs [BACKSPACE] =
      some ⟨update s.crt (s.pos - 1) blankCell, s.pos - 1, s.scrolls⟩ := by
    rw [Screen.consputcs, cgaputc_erase h.pos_lt]
    rfl
  refine ⟨_, herase, h.start_eq, ?_, ?_, ?_, ?_⟩
  · intro i hi
    simp only [htext, length_dropLast] at hi ⊢
    rw [update_of_ne (by omega), h.cells i (by omega), getElem_dropLast]
  · simp only [length_dropLast]
    omega
  · rw [htext, length_dropLast]
    omega
  intro _
  rw [htext, length_dropLast, hlength]
  dsimp only
  rw [show start + (ed.left.length + 0 - 1) = s.pos - 1 by omega, update_self]
  exact blank_blankCell

lemma home : ∃ start' t, s.consputcs (ed.echo w .home) = some t ∧
      Shown origin start' after (ed.pressAt w .home) t := by
  have hpos := h.pos
  refine ⟨start, _, consputcs_back h.pos_lt _, h.start_eq, h.cells, ?_, h.lt, h.blank⟩
  change s.pos - ed.left.length = start + 0
  omega

lemma clear (hshort : ed.text.length < INPUT_BUF) :
    ∃ start' t, s.consputcs (ed.echo w .clear) = some t ∧
      Shown origin start' after (ed.pressAt w .clear) t := by
  have hlength := ed.length_text
  change _ < 128 at hshort
  by_cases hempty : ed.text = []
  · have hnil := append_eq_nil_iff.mp hempty
    refine ⟨start, s, ?_, h.start_eq, nofun, ?_, ?_, fun ha => ?_⟩
    · unfold Editor.echo
      rw [hempty, hnil.2]
      rfl
    · have hpos := h.pos
      rwa [hnil.1] at hpos
    · have hlt := h.lt
      rwa [hempty] at hlt
    · have hblank := h.blank ha
      rwa [hempty] at hblank
  obtain ⟨start', t, ht, hupto, -⟩ := h.upto.puts (List.replicate ed.right.length spaceChar)
    (by simp; omega)
    (fun c hc => by rw [eq_of_mem_replicate hc]; unfold Visible; decide)
  have hpos := hupto.pos
  rw [length_append, length_map, length_map, length_replicate, ← hlength] at hpos
  have hlt := hupto.lt
  obtain ⟨t', ht', hpos', hscrolls, -, hblank⟩ :=
    consputcs_erase (n := ed.text.length) hlt (by omega)
  refine ⟨start', t', ?_, ?_, nofun, ?_, ?_, fun _ => ?_⟩
  · unfold Editor.echo
    rwa [Screen.consputcs_append, ht]
  · rw [hscrolls]
    exact hupto.start_eq
  · change t'.pos = start' + 0
    omega
  · change start' + 0 < 24 * 80
    omega
  change Blank (t'.crt (start' + 0))
  rw [Nat.add_zero, show start' = t'.pos by omega,
    hblank fun hzero => hempty (length_eq_zero_iff.mp hzero)]
  exact blank_blankCell

section
variable (hchars : ∀ c ∈ ed.text, key c = .char c)
include hchars

section
variable (hshort : ed.text.length < INPUT_BUF)
include hshort

lemma char (hc : key c = .char c) : ∃ start' t, s.consputcs (ed.echo w (.char c)) = some t ∧
      Shown origin start' True (ed.pressAt w (.char c)) t := by
  have hlength := ed.length_text
  change _ < 128 at hshort
  have hright : ∀ d ∈ ed.right, key d = .char d := fun d hd => hchars d (mem_append_right _ hd)
  obtain ⟨⟨hvisible, hglyph⟩, -⟩ := visible_of_char c hc
  obtain ⟨start', t, ht, hupto, hblank⟩ := h.upto.puts (keyInt c :: ed.right.map charInt)
    (by simp; omega)
    (forall_mem_cons.mpr ⟨hvisible, forall_mem_map.mpr fun d hd =>
      (visible_of_char d (hright d hd)).2.1⟩)
  have htext : ed.left.map charCell ++ (keyInt c :: ed.right.map charInt).map glyph =
      (ed.pressAt w (.char c)).text.map charCell := by
    rw [map_cons, hglyph, glyph_map hright]
    simp [Editor.pressAt, Editor.press, Editor.text]
  rw [htext] at hupto
  have hpos := hupto.pos
  rw [length_map] at hpos
  rw [← append_nil (List.map charCell _)] at hupto
  obtain ⟨t', ht', hshown⟩ : ∃ t', t.consputcs (List.replicate ed.right.length backspaceChar) =
      some t' ∧ Shown origin start' True (ed.pressAt w (.char c)) t' :=
    hupto.shown _ fun _ => by
      rw [← hpos, hblank (cons_ne_nil _ _)]
      exact blank_blankCell
  refine ⟨start', t', ?_, hshown⟩
  unfold Editor.echo
  rwa [Screen.consputcs_append, ht]

/-- A Backspace in the middle: what is behind the cursor is shown again, with a space at the
end. -/
lemma eraseMiddle (hleft : ed.left ≠ []) :
    ∃ start' t, s.consputcs (backspaceChar :: ed.right.map charInt ++ [spaceChar, backspaceChar] ++
        List.replicate ed.right.length backspaceChar) = some t ∧
      Shown origin start' after { ed with left := ed.left.dropLast } t := by
  have hlength := ed.length_text
  have hpos := h.pos
  have hlt := h.lt
  have hne := length_pos_iff.mpr hleft
  change _ < 128 at hshort
  have hright : ∀ d ∈ ed.right, key d = .char d := fun d hd => hchars d (mem_append_right _ hd)
  -- one step back
  have hupto : Upto origin start (ed.left.dropLast.map charCell) { s with pos := s.pos - 1 } := by
    refine ⟨h.start_eq, fun i hi => ?_, ?_, ?_⟩
    · rw [length_map, length_dropLast] at hi
      have hcell := h.upto.cells i (by rw [length_map]; omega)
      rw [getElem_map] at hcell ⊢
      rwa [getElem_dropLast]
    · rw [length_map, length_dropLast]
      dsimp only
      omega
    · dsimp only
      omega
  obtain ⟨start', t, ht, hupto', -⟩ := hupto.puts (ed.right.map charInt ++ [spaceChar])
    (by simp; omega)
    (forall_mem_append.mpr ⟨forall_mem_map.mpr fun d hd =>
      (visible_of_char d (hright d hd)).2.1, forall_mem_singleton.mpr (by unfold Visible; decide)⟩)
  rw [map_append, glyph_map hright, ← append_assoc, ← map_append] at hupto'
  obtain ⟨t', ht', hshown⟩ : ∃ t', t.consputcs
      (List.replicate (ed.right.length + 1) backspaceChar) = some t' ∧
      Shown origin start' after { ed with left := ed.left.dropLast } t' := by
    refine Upto.shown { ed with left := ed.left.dropLast } hupto' fun _ => ?_
    have hcell := hupto'.cells (ed.left.dropLast ++ ed.right).length (by simp)
    rw [Editor.text, hcell]
    simp only [getElem_append_right, length_map, le_refl, Nat.sub_self]
    exact blank_blankCell
  refine ⟨start', t', ?_, hshown⟩
  have hsplit : backspaceChar :: ed.right.map charInt ++ [spaceChar, backspaceChar] ++
      List.replicate ed.right.length backspaceChar =
      backspaceChar :: ((ed.right.map charInt ++ [spaceChar]) ++
        List.replicate (ed.right.length + 1) backspaceChar) := by
    simp [replicate_succ]
  rw [hsplit, Screen.consputcs, cgaputc_back h.pos_lt, Option.bind_some,
    Screen.consputcs_append, ht]
  exact ht'

lemma backspace : ∃ start' t, s.consputcs (ed.echo w .backspace) = some t ∧
      Shown origin start' after (ed.pressAt w .backspace) t := by
  have hempty : ed.left = [] → ({ ed with left := ed.left.dropLast } : Editor) = ed := by
    intro hnil
    rw [hnil, dropLast_nil, ← hnil]
  unfold Editor.echo
  rw [Editor.pressAt]
  by_cases hright : ed.right = []
  · rw [if_pos hright, if_pos (show ed.right = [] ∨ _ from .inl hright)]
    by_cases hleft : ed.left = []
    · rw [if_pos hleft, hempty hleft]
      exact ⟨start, s, rfl, h⟩
    · rw [if_neg hleft]
      exact ⟨start, h.erase hright hleft⟩
  rw [if_neg hright]
  by_cases hleft : ed.left = []
  · rw [if_neg fun hboth => hboth.1 hleft, hempty hleft, ite_self]
    exact ⟨start, s, rfl, h⟩
  by_cases hwrap : w + ed.left.length < 2 ^ 32
  · rw [if_pos ⟨hleft, hwrap⟩, if_pos (.inr hwrap)]
    exact h.eraseMiddle hchars hshort hleft
  · rw [if_neg fun hboth => hwrap hboth.2, if_neg (not_or.mpr ⟨hright, hwrap⟩)]
    exact ⟨start, s, rfl, h⟩

lemma echo (hc : Typing c) : ∃ start' t, s.consputcs (ed.echo w (key c)) = some t ∧
      Shown origin start' (after ∨ key c = .char c) (ed.pressAt w (key c)) t := by
  obtain hkey | hkey | hkey | hkey := hc
  · rw [hkey]
    obtain ⟨start', t, ht, hshown⟩ := h.char hchars hshort hkey
    exact ⟨start', t, ht, hshown.mono fun _ => trivial⟩
  · rw [hkey]
    obtain ⟨start', t, ht, hshown⟩ := h.backspace hchars hshort
    exact ⟨start', t, ht, hshown.mono fun ha => ha.resolve_right nofun⟩
  · rw [hkey]
    obtain ⟨start', t, ht, hshown⟩ := h.home
    exact ⟨start', t, ht, hshown.mono fun ha => ha.resolve_right nofun⟩
  rw [hkey]
  obtain ⟨start', t, ht, hshown⟩ := h.clear hshort
  exact ⟨start', t, ht, hshown.mono fun ha => ha.resolve_right nofun⟩

end
end

end
end Shown

end

/-! ### All sequences of keys -/

/-- A line has only ordinary characters. -/
lemma Editor.chars_pressAt {ed : Editor} {w : ℕ} {c : UInt8}
    (h : ∀ d ∈ ed.text, key d = .char d) (hc : Typing c) :
    ∀ d ∈ (ed.pressAt w (key c)).text, key d = .char d := by
  intro d hd
  obtain hkey | hkey | hkey | hkey := hc
  · rw [hkey] at hd
    simp only [pressAt, press, text, mem_append, mem_singleton] at hd
    rcases hd with (hd | rfl) | hd
    · exact h d (mem_append_left _ hd)
    · exact hkey
    · exact h d (mem_append_right _ hd)
  · rw [hkey, pressAt] at hd
    split at hd
    · simp only [text, mem_append] at hd
      exact h d (mem_append.mpr (hd.imp mem_of_mem_dropLast id))
    · exact h d hd
  · rw [hkey] at hd
    exact h d hd
  · rw [hkey] at hd
    cases hd

lemma Input.HasLine.typing {s : Input} {ed : Editor} {c : UInt8} (mapped : UInt32 → Bool)
    (h : s.HasLine ed) (hr : s.r = s.w) (hc : Typing c)
    (hfits : (ed.pressAt s.w.toNat (key c)).text.length < INPUT_BUF) :
    ∃ t woken, s.consoleintr mapped c = some (t, woken) ∧ t.r = s.r ∧ t.w = s.w ∧
      t.HasLine (ed.pressAt s.w.toNat (key c)) := by
  have hplain : Plain c → ∃ t woken, s.consoleintr mapped c = some (t, woken) ∧ t.r = s.r ∧
      t.w = s.w ∧ t.HasLine (ed.pressAt s.w.toNat (key c)) := by
    intro hplain
    have hread : Readable mapped s c := by
      intro hkey
      obtain hc | hc | hc | hc := hc <;> simp [hc] at hkey
    obtain ⟨⟨t, woken⟩, ht⟩ := Option.isSome_iff_exists.mp ((h.isSome_iff hr).mpr hread)
    exact ⟨t, woken, ht, h.plain hr hplain hfits ht⟩
  obtain hkey | hkey | hkey | hkey := hc
  · exact hplain (.inl (by rw [hkey]; rfl))
  · exact hplain (.inr (.inl hkey))
  · exact hplain (.inr (.inr (.inl hkey)))
  · rw [consoleintr_eq, hkey]
    exact ⟨s.clear, false, rfl, rfl, rfl, clear⟩

section
variable {mapped : UInt32 → Bool} {beyond : UInt32 → UInt8} {t₀ : Terminal}

lemma Terminal.keys_append (t : Terminal) (cs : List UInt8) (c : UInt8) :
    t.keys mapped beyond (cs ++ [c]) =
      (t.keys mapped beyond cs).bind fun t' => t'.key mapped beyond c := by
  induction cs generalizing t with
  | nil =>
    exact Option.bind_fun_some _
  | cons d cs ih =>
    rw [cons_append, keys, keys, Option.bind_assoc]
    exact congrArg (t.key mapped beyond d).bind (funext ih)

/-- The console has the line, and the screen shows it. -/
structure Terminal.Displays (origin start : ℕ) (after : Prop) (ed : Editor) (t : Terminal) :
    Prop where
  read : t.input.r = t.input.w
  line : t.input.HasLine ed
  chars : ∀ d ∈ ed.text, Console.key d = .char d
  shown : Shown origin start after ed t.screen

variable {origin start : ℕ}

lemma Terminal.Displays.key {after : Prop} {ed : Editor} {t : Terminal}
    {c : UInt8} (mapped : UInt32 → Bool) (beyond : UInt32 → UInt8)
    (h : t.Displays origin start after ed) (hc : Typing c)
    (hfits : (ed.pressAt t.input.w.toNat (Console.key c)).text.length < INPUT_BUF) :
    ∃ start' t', t.key mapped beyond c = some t' ∧ t'.input.w = t.input.w ∧
      t'.Displays origin start' (after ∨ Console.key c = .char c)
        (ed.pressAt t.input.w.toNat (Console.key c)) := by
  obtain ⟨input, woken, hinput, hr, hw, hline⟩ := h.line.typing mapped h.read hc hfits
  obtain ⟨start', screen, hscreen, hshown⟩ := h.shown.echo h.chars h.line.short hc
  refine ⟨start', ⟨input, screen⟩, ?_, hw, ?_, hline, Editor.chars_pressAt h.chars hc, hshown⟩
  · rw [Terminal.key, hinput, Option.bind_some,
      h.line.outputs_echo beyond h.read hc hfits, hscreen, Option.map_some]
  · rw [hr, hw]
    exact h.read

lemma Terminal.Displays.keys (mapped : UInt32 → Bool) (beyond : UInt32 → UInt8) {after : Prop}
    {ed : Editor}
    (h : t₀.Displays origin start after ed) {cs : List UInt8} (hcs : ∀ c ∈ cs, Typing c)
    (hfits : Fits t₀.input.w.toNat ed cs) :
    ∃ start' t, t₀.keys mapped beyond cs = some t ∧ t.input.w = t₀.input.w ∧
      t.Displays origin start' (after ∨ ∃ c ∈ cs, Console.key c = .char c)
        (ed.edit t₀.input.w.toNat cs) := by
  induction cs using List.reverseRecOn with
  | nil =>
    refine ⟨start, t₀, rfl, rfl, h.read, h.line, h.chars, h.shown.mono fun ha => ?_⟩
    exact ha.resolve_right fun ⟨c, hc, _⟩ => not_mem_nil hc
  | append_singleton cs c ih =>
    obtain ⟨start₁, t₁, ht₁, hw₁, h₁⟩ := ih (fun c hc => hcs c (by simp [hc]))
      fun pre hpre => hfits pre (hpre.trans (prefix_append _ _))
    have hfits' := hfits _ prefix_rfl
    rw [Editor.edit_append] at hfits' ⊢
    rw [← hw₁] at hfits' h₁ ⊢
    obtain ⟨start', t, ht, hw, h'⟩ := h₁.key mapped beyond (hcs c (by simp)) hfits'
    refine ⟨start', t, ?_, hw, h'.read, h'.line, h'.chars, h'.shown.mono ?_⟩
    · rwa [keys_append, ht₁]
    simp only [mem_append, mem_singleton]
    rintro (ha | ⟨d, hd | rfl, hkey⟩)
    · exact .inl (.inl ha)
    · exact .inl (.inr ⟨d, hd, hkey⟩)
    · exact .inr hkey

/-- On an empty line, any ordinary characters, Backspaces, `{` and `^C` that keep the line shorter
than the ring end without a panic. The line is then on the screen from where it started, less 80
cells for each scroll, and the cursor is at its place and among the 24 lines. The cell behind the
line is blank if the cell at the cursor was blank at first, or once a character has been typed. -/
theorem screen_shows_line (mapped : UInt32 → Bool) (beyond : UInt32 → UInt8)
    (hline : t₀.input.HasLine {}) (hr : t₀.input.r = t₀.input.w) (hpos : t₀.screen.pos < 24 * 80)
    {cs : List UInt8} (hcs : ∀ c ∈ cs, Typing c) (hfits : Fits t₀.input.w.toNat {} cs) :
    ∃ t start ed, t₀.keys mapped beyond cs = some t ∧ t.input.HasLine ed ∧
      ed = ({} : Editor).edit t₀.input.w.toNat cs ∧
      start + 80 * t.screen.scrolls = t₀.screen.pos + 80 * t₀.screen.scrolls ∧
      (∀ i (h : i < ed.text.length), t.screen.crt (start + i) = charCell ed.text[i]) ∧
      t.screen.pos = start + (t.input.e - t.input.w).toNat ∧ t.screen.pos < 24 * 80 ∧
      (Blank (t₀.screen.crt t₀.screen.pos) ∨ (∃ c ∈ cs, key c = .char c) →
        Blank (t.screen.crt (start + ed.text.length))) := by
  have hstart : t₀.Displays (t₀.screen.pos + 80 * t₀.screen.scrolls) t₀.screen.pos
      (Blank (t₀.screen.crt t₀.screen.pos)) {} :=
    ⟨hr, hline, nofun, rfl, nofun, rfl, hpos, id⟩
  obtain ⟨start, t, ht, -, h⟩ := hstart.keys mapped beyond hcs hfits
  refine ⟨t, start, _, ht, h.line, rfl, h.shown.start_eq, h.shown.cells, ?_, h.shown.pos_lt,
    h.shown.blank⟩
  rw [h.line.cursor]
  exact h.shown.pos

end

/-- The machine after its start, with the cursor at the end of the last line that is used. -/
def bottomTerminal : Terminal where
  input := (Sys.init : Sys Unit).input
  screen := ⟨fun _ => blankCell, 24 * 80 - 1, 0⟩

/-- `ab`, then `x` at the start of the line; the screen has scrolled once. -/
theorem screen_shows_xab : ∃ t start ed, bottomTerminal.keys (fun _ => true) (fun _ => 0)
      ['a'.toUInt8, 'b'.toUInt8, startKey, 'x'.toUInt8] = some t ∧ t.input.HasLine ed ∧
    ed = ⟨['x'.toUInt8], ['a'.toUInt8, 'b'.toUInt8]⟩ ∧
    (∀ i (h : i < ed.text.length), t.screen.crt (start + i) = charCell ed.text[i]) ∧
    t.screen.pos = start + (t.input.e - t.input.w).toNat := by
  have hinit : bottomTerminal.input.HasLine {} := .empty rfl rfl
  obtain ⟨t, start, ed, ht, hline, hed, -, hcells, hpos, -⟩ :=
    screen_shows_line (fun _ => true) (fun _ => 0) hinit rfl (by decide)
      (all_iff_forall_prop.mp (show ['a'.toUInt8, 'b'.toUInt8, startKey, 'x'.toUInt8].all
        fun c => decide (Typing c) by decide)) (by decide)
  exact ⟨t, start, ed, ht, hline, hed, hcells, hpos⟩

/-- A program has shown an `x` and a `'\b'`. -/
def overX : Terminal where
  input := (Sys.init : Sys Unit).input
  screen :=
    { crt := update (update (fun _ => blankCell) 0 (charCell 'x'.toUInt8)) 1
        blankCell
      pos := 0
      scrolls := 0 }

/-- Then `{` on the empty line leaves the `x` at the cursor. -/
theorem cell_at_cursor_not_blank :
    (⟨fun _ => blankCell, 0, 0⟩ : Screen).consputcs [charInt 'x'.toUInt8, backspaceChar] =
      some overX.screen ∧
    ∃ t, overX.keys (fun _ => true) (fun _ => 0) [startKey] = some t ∧ t.input.HasLine {} ∧
      t.screen.pos = 0 ∧ ¬ Blank (t.screen.crt 0) :=
  ⟨rfl, _, rfl, .empty rfl rfl, rfl, by decide⟩

end Xv6.Console
