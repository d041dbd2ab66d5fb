import Xv6.Console.Reading

/-!
# The line that is being typed

A line editor is a list of characters with a cursor. `consoleintr` keeps the list in a
ring of 128 cells, from the write index on, and shifts the characters behind the
cursor when one is put in or taken out.

## Implementation notes

The indices are counters that wrap at `2 ^ 32`, and a line may lie across that place. The
only code to notice is the test `input.e > input.w` of a Backspace in the middle of the
line.
-/

namespace Xv6.Console
open Lib List Option UInt32

/-! ### Keys -/

/-- What a key stands for. -/
inductive Key where
  | nothing
  /-- `^U` -/
  | kill
  | backspace
  | clear
  | home
  | toEnd
  | enter
  | eof
  | char (c : UInt8)
  deriving DecidableEq, Repr

def key (c : UInt8) : Key :=
  if c = 0 ∨ c = ctrl 'P' then .nothing
  else if c = ctrl 'U' then .kill
  else if c = ctrl 'H' ∨ c = delete then .backspace
  else if c = ctrl 'C' then .clear
  else if c = startKey then .home
  else if c = endKey then .toEnd
  else if c = newline ∨ c = '\r'.toUInt8 then .enter
  else if c = ctrl 'D' then .eof
  else .char c

/-- The key is a character of the line or ends it. -/
def Key.stored : Key → Bool
  | .enter | .eof | .char _ => true
  | _ => false

/-- The key is a character of the line. -/
def Key.isChar : Key → Bool
  | .char _ => true
  | _ => false

section
variable {s : Input} {mapped : UInt32 → Bool} {c : UInt8}

lemma consoleintr_eq : s.consoleintr mapped c = match key c with
    | .nothing => some (s, false)
    | .kill | .home => some (s.home, false)
    | .backspace => some (s.backspace, false)
    | .clear => some (s.clear, false)
    | .toEnd => (s.toEnd mapped).map fun t => (t, false)
    | .enter | .eof | .char _ => s.typed mapped c := by
  by_cases hzero : c = 0
  · subst hzero
    rfl
  unfold Input.consoleintr key
  simp only [hzero, false_or]
  split_ifs <;> rfl

lemma key_enter (h : key c = .enter) : c = newline ∨ c = '\r'.toUInt8 := by
  unfold key at h
  repeat' split at h
  all_goals first | assumption | cases h

lemma key_eof (h : key c = .eof) : c = ctrl 'D' := by
  unfold key at h
  repeat' split at h
  all_goals first | assumption | cases h

lemma key_char {d : UInt8} (h : key c = .char d) :
    d = c ∧ c ≠ 0 ∧ c ≠ '\r'.toUInt8 ∧ c ≠ newline ∧ c ≠ ctrl 'D' := by
  unfold key at h
  split_ifs at h with hzero _ _ _ _ _ hnewline heof
  obtain rfl := Key.char.inj h
  exact ⟨rfl, fun hc => hzero (.inl hc), fun hc => hnewline (.inr hc), fun hc => hnewline (.inl hc),
    heof⟩

/-- A character that is not dropped, with a carriage return made a newline. -/
lemma typed_eq {d : UInt8} (hzero : c ≠ 0) (hroom : s.e - s.r < ofNat INPUT_BUF)
    (hd : (if c = '\r'.toUInt8 then newline else c) = d) : s.typed mapped c =
    (if s.e = s.last then some (s.store d)
      else if Input.Ends d then (s.toEnd mapped).map (·.store d)
      else some (s.insert d)).bind fun t =>
    if Input.Ends d ∨ t.size = ofNat INPUT_BUF then some (t.commit, true) else some (t, false) := by
  unfold Input.typed
  rw [if_pos ⟨hzero, hroom⟩, hd, ite_not]
  split_ifs <;> rfl

/-- An ordinary character. At the end of the line the loop that makes room for it has no turns. -/
lemma typed_insert (mapped : UInt32 → Bool) (hzero : c ≠ 0)
    (hroom : s.e - s.r < UInt32.ofNat INPUT_BUF) (hreturn : c ≠ '\r'.toUInt8)
    (hc : c ≠ newline ∧ c ≠ ctrl 'D') :
    ∃ t : Input, t.buf = Function.update (shiftUp (2 ^ 32) s.e.toNat
        (s.last - s.e).toInt32.toInt.toNat s.buf) (cell s.e) c ∧
      t.r = s.r ∧ t.w = s.w ∧ t.e = s.e + 1 ∧ t.size = s.size + 1 ∧
      s.typed mapped c = if t.size = UInt32.ofNat INPUT_BUF then some (t.commit, true)
        else some (t, false) := by
  have hends : ¬ Input.Ends c := not_or.mpr hc
  rw [typed_eq hzero hroom (if_neg hreturn)]
  by_cases hend : s.e = s.last
  · refine ⟨s.store c, ?_, rfl, rfl, rfl, rfl, ?_⟩
    · rw [← hend, UInt32.sub_self]
      rfl
    · rw [if_pos hend, bind_some]
      simp only [hends, false_or]
  refine ⟨s.insert c, rfl, rfl, rfl, rfl, rfl, ?_⟩
  rw [if_neg hend, if_neg hends, bind_some]
  simp only [hends, false_or]

end

/-! ### Indices -/

lemma dvd_two_pow : INPUT_BUF ∣ 2 ^ 32 := by decide

lemma cell_add (x : UInt32) (i : ℕ) :
    cell (x + ofNat i) = Fin.ofNat INPUT_BUF ((x.toNat + i) % 2 ^ 32) := by
  simp [cell]

lemma rewind_eq {buf : Fin INPUT_BUF → UInt8} {w : UInt32} {k : ℕ}
    (h : ∀ i < k, buf (cell (w + UInt32.ofNat i)) ≠ newline) :
    rewind buf k (w + UInt32.ofNat k) = w := by
  induction k with
  | zero => simp [rewind]
  | succ k ih =>
    have hprev : w + UInt32.ofNat (k + 1) - 1 = w + UInt32.ofNat k := by
      rw [UInt32.ofNat_add, ← UInt32.add_assoc]
      exact UInt32.add_sub_cancel _ _
    rw [rewind, hprev, if_neg (h k (Nat.lt_succ_self k))]
    exact ih fun i hi => h i (Nat.lt_succ_of_lt hi)

variable {mapped : UInt32 → Bool}

lemma forward_eq {k : ℕ} {e : UInt32} : forward mapped k e =
    if ∀ i < k, mapped (e + UInt32.ofNat i) = true then some (e + UInt32.ofNat k) else none := by
  induction k generalizing e with
  | zero => simp [forward]
  | succ k ih =>
    have hnext : ∀ i, e + 1 + UInt32.ofNat i = e + UInt32.ofNat (i + 1) := by
      intro i
      rw [UInt32.ofNat_add, UInt32.add_assoc, UInt32.add_comm 1]
      rfl
    rw [forward, ih]
    simp only [hnext]
    by_cases he : mapped e = true
    · rw [if_pos he]
      refine if_congr ⟨fun h i hi => ?_, fun h i hi => h (i + 1) (by omega)⟩ rfl rfl
      cases i with
      | zero => simpa using he
      | succ i => exact h i (by omega)
    rw [if_neg he, if_neg]
    intro h
    exact he (by simpa using h 0 (by omega))

variable {s t : Input}

lemma toEnd_some (ht : s.toEnd mapped = some t) : t = s.setEdit s.last := by
  have hlast : s.e + UInt32.ofNat (s.last - s.e).toNat = s.last := by
    rw [UInt32.ofNat_toNat, UInt32.add_comm, UInt32.sub_add_cancel]
  rw [Input.toEnd, forward_eq, hlast] at ht
  split at ht
  · exact (Option.some.inj ht).symm
  · cases ht

/-- Everything that a key can do. -/
inductive Input.Pressed (mapped : UInt32 → Bool) (s : Input) (c : UInt8) : Input → Prop
  | nothing (hkey : key c = .nothing) : Pressed mapped s c s
  | home (hkey : key c = .kill ∨ key c = .home) : Pressed mapped s c s.home
  | backspace (hkey : key c = .backspace) : Pressed mapped s c s.backspace
  | clear (hkey : key c = .clear) : Pressed mapped s c s.clear
  | toEnd (hkey : key c = .toEnd) : Pressed mapped s c (s.setEdit s.last)
  /-- There is no room for the newline or the end of the file. -/
  | dropped (hkey : key c = .enter ∨ key c = .eof) (hroom : ¬ s.e - s.r < UInt32.ofNat INPUT_BUF) :
      Pressed mapped s c s
  | ends {d : UInt8} (hkey : key c = .enter ∨ key c = .eof)
      (hroom : s.e - s.r < UInt32.ofNat INPUT_BUF) (hd : Input.Ends d) :
      Pressed mapped s c ((s.setEdit s.last).store d).commit
  | char {t : Input} {woken : Bool} (hkey : key c = .char c) (hzero : c ≠ 0)
      (hreturn : c ≠ '\r'.toUInt8) (hc : c ≠ newline ∧ c ≠ ctrl 'D')
      (ht : s.typed mapped c = some (t, woken)) : Pressed mapped s c t

lemma Input.Pressed.of_ends {c d : UInt8} {woken : Bool}
    (hkey : key c = .enter ∨ key c = .eof) (hzero : c ≠ 0)
    (hd : (if c = '\r'.toUInt8 then newline else c) = d) (hends : Input.Ends d)
    (ht : s.typed mapped c = some (t, woken)) : s.Pressed mapped c t := by
  by_cases hroom : s.e - s.r < ofNat INPUT_BUF
  · rw [typed_eq hzero hroom hd] at ht
    obtain ⟨t', ht', hcommit⟩ := bind_eq_some_iff.mp ht
    rw [if_pos (.inl hends)] at hcommit
    obtain ⟨rfl, -⟩ := Prod.mk.inj (Option.some.inj hcommit)
    have hstore : t' = (s.setEdit s.last).store d := by
      split at ht'
      · rename_i hend
        rw [← Option.some.inj ht', ← hend]
        rfl
      · obtain ⟨t₁, ht₁, rfl⟩ := map_eq_some_iff.mp ht'
        rw [toEnd_some ht₁]
    rw [hstore]
    exact .ends hkey hroom hends
  rw [Input.typed, if_neg (fun hboth => hroom hboth.2)] at ht
  obtain ⟨rfl, -⟩ := Prod.mk.inj (Option.some.inj ht)
  exact .dropped hkey hroom

lemma Input.Pressed.of_some {c : UInt8} {woken : Bool}
    (ht : s.consoleintr mapped c = some (t, woken)) : s.Pressed mapped c t := by
  rw [consoleintr_eq] at ht
  cases hkey : key c with
  | nothing =>
    rw [hkey] at ht
    obtain ⟨rfl, -⟩ := Prod.mk.inj (Option.some.inj ht)
    exact .nothing hkey
  | kill =>
    rw [hkey] at ht
    obtain ⟨rfl, -⟩ := Prod.mk.inj (Option.some.inj ht)
    exact .home (.inl hkey)
  | home =>
    rw [hkey] at ht
    obtain ⟨rfl, -⟩ := Prod.mk.inj (Option.some.inj ht)
    exact .home (.inr hkey)
  | backspace =>
    rw [hkey] at ht
    obtain ⟨rfl, -⟩ := Prod.mk.inj (Option.some.inj ht)
    exact .backspace hkey
  | clear =>
    rw [hkey] at ht
    obtain ⟨rfl, -⟩ := Prod.mk.inj (Option.some.inj ht)
    exact .clear hkey
  | toEnd =>
    rw [hkey] at ht
    obtain ⟨t', ht', heq⟩ := map_eq_some_iff.mp ht
    obtain ⟨rfl, -⟩ := Prod.mk.inj heq
    obtain rfl := toEnd_some ht'
    exact .toEnd hkey
  | enter =>
    rw [hkey] at ht
    rcases key_enter hkey with rfl | rfl
    · exact .of_ends (.inl hkey) (by decide) rfl (.inl rfl) ht
    · exact .of_ends (.inl hkey) (by decide) rfl (.inl rfl) ht
  | eof =>
    rw [hkey] at ht
    obtain rfl := key_eof hkey
    exact .of_ends (.inr hkey) (by decide) rfl (.inr rfl) ht
  | char d =>
    rw [hkey] at ht
    obtain ⟨rfl, hzero, hreturn, hc⟩ := key_char hkey
    exact .char hkey hzero hreturn hc ht

/-- Two indices that are counted from the same one. -/
lemma toNat_add_sub_add (x : UInt32) {i j : ℕ} (hij : j ≤ i) (hi : i < 2 ^ 32) :
    (x + UInt32.ofNat i - (x + UInt32.ofNat j)).toNat = i - j := by
  rw [UInt32.toNat_sub, UInt32.toNat_add, UInt32.toNat_add, UInt32.toNat_ofNat', toNat_ofNat']
  omega

lemma add_ofNat_inj (x : UInt32) {i j : ℕ} (hi : i < 2 ^ 32) (hj : j < 2 ^ 32) :
    x + UInt32.ofNat i = x + UInt32.ofNat j ↔ i = j := by
  constructor
  · intro heq
    have hij := congrArg UInt32.toNat (UInt32.add_right_inj x |>.mp heq)
    rwa [toNat_ofNat_of_lt' hi, toNat_ofNat_of_lt' hj] at hij
  · rintro rfl
    rfl

/-- What the kernel reads to show the rest of the line is mapped. -/
def Readable (mapped : UInt32 → Bool) (s : Input) (c : UInt8) : Prop :=
  key c = .toEnd ∨ key c = .enter ∨ key c = .eof →
    ∀ i < (s.last - s.e).toNat, mapped (s.e + UInt32.ofNat i) = true

/-! ### The line in the ring -/

/-- A line with a cursor: the characters before it and behind it. -/
structure Editor where
  left : List UInt8 := []
  right : List UInt8 := []
  deriving DecidableEq, Repr

def Editor.text (ed : Editor) : List UInt8 := ed.left ++ ed.right

lemma Editor.length_text (ed : Editor) : ed.text.length = ed.left.length + ed.right.length := by
  rw [text, length_append]

/-- A key, and the line if it is committed. The end of a file is not part of the line. -/
def Editor.press (ed : Editor) : Key → Editor × Option (List UInt8)
  | .nothing | .kill => (ed, none)
  | .backspace => ({ ed with left := ed.left.dropLast }, none)
  | .clear => ({}, none)
  | .home => ({ left := [], right := ed.text }, none)
  | .toEnd => ({ left := ed.text, right := [] }, none)
  | .enter => ({}, some (ed.text ++ [newline]))
  | .eof => ({}, some ed.text)
  | .char c => ({ ed with left := ed.left ++ [c] }, none)

/-- The line is in the ring from the write index on, and the edit index is at the cursor. -/
structure Input.HasLine (s : Input) (ed : Editor) : Prop where
  ring : RingHolds (2 ^ 32) s.buf s.w.toNat ((s.w.toNat + ed.text.length) % 2 ^ 32) ed.text
  e : s.e = s.w + UInt32.ofNat ed.left.length
  size : s.size = UInt32.ofNat ed.text.length
  short : ed.text.length < INPUT_BUF
  clean : ∀ c ∈ ed.text, c ≠ newline ∧ c ≠ ctrl 'D'

namespace Input.HasLine

variable {s : Input} {ed : Editor} {mapped : UInt32 → Bool}

section
variable (h : s.HasLine ed)
include h

lemma text_lt : ed.text.length < 128 := h.short

lemma cursor : (s.e - s.w).toNat = ed.left.length := by
  have hlt := h.text_lt
  have hlength := ed.length_text
  have hcount := toNat_add_sub_add s.w (Nat.zero_le ed.left.length) (by omega)
  rw [h.e]
  simpa using hcount

lemma last_eq (hr : s.r = s.w) : s.last = s.w + ofNat ed.text.length := by
  rw [Input.last, hr, h.size]

lemma behind (hr : s.r = s.w) : (s.last - s.e).toNat = ed.right.length := by
  have hlt := h.text_lt
  have hlength := ed.length_text
  rw [h.last_eq hr, h.e, toNat_add_sub_add s.w (by omega) (by omega)]
  omega

lemma at_end (hr : s.r = s.w) : s.e = s.last ↔ ed.right = [] := by
  have hlt := h.text_lt
  have hlength := ed.length_text
  rw [h.last_eq hr, h.e, add_ofNat_inj s.w (by omega) (by omega), ← length_eq_zero_iff]
  omega

lemma at_start : s.e = s.w ↔ ed.left = [] := by
  have hlt := h.text_lt
  have hlength := ed.length_text
  have hinj := add_ofNat_inj s.w (show ed.left.length < 2 ^ 32 by omega) (show 0 < 2 ^ 32 by decide)
  rw [← length_eq_zero_iff, ← hinj, h.e]
  change _ ↔ _ = s.w + 0
  rw [UInt32.add_zero]

lemma toNat_edit : s.e.toNat = (s.w.toNat + ed.left.length) % 2 ^ 32 := by
  rw [h.e, UInt32.toNat_add, UInt32.toNat_ofNat', Nat.add_mod_mod]

lemma toNat_size : s.size.toNat = ed.text.length := by
  have hlt := h.text_lt
  rw [h.size, toNat_ofNat']
  omega

lemma after_start : s.w < s.e ↔ ed.left ≠ [] ∧ s.w.toNat + ed.left.length < 2 ^ 32 := by
  have he := h.toNat_edit
  have hlt := h.text_lt
  have hlength := ed.length_text
  rw [lt_iff_toNat_lt, ← length_pos_iff]
  omega

lemma cell_edit : cell s.e = Fin.ofNat INPUT_BUF ((s.w.toNat + ed.left.length) % 2 ^ 32) := by
  rw [h.e, cell_add]

lemma setEdit {ed' : Editor} {e : UInt32} (htext : ed'.text = ed.text)
    (he : e = s.w + ofNat ed'.left.length) : (s.setEdit e).HasLine ed' where
  ring := by
    rw [htext]
    exact h.ring
  e := he
  size := by
    rw [htext]
    exact h.size
  short := by
    rw [htext]
    exact h.short
  clean := by
    rw [htext]
    exact h.clean

/-- No newline is before the cursor. -/
lemma left_ne_newline : ∀ i < ed.left.length, s.buf (cell (s.w + ofNat i)) ≠ newline := by
  intro i hi
  have hlength := ed.length_text
  rw [cell_add, h.ring.cell i (by omega)]
  exact (h.clean _ (getElem_mem _)).1

lemma home_eq : s.home = s.setEdit s.w := by
  have hrewind : rewind s.buf (s.e - s.w).toNat s.e = s.w := by
    rw [h.cursor, h.e, rewind_eq h.left_ne_newline]
  rw [Input.home, hrewind]

lemma home : s.home.HasLine { left := [], right := ed.text } := by
  rw [h.home_eq]
  exact h.setEdit rfl (UInt32.add_zero s.w).symm

end

lemma empty (he : s.e = s.w) (hsize : s.size = 0) : s.HasLine {} where
  ring := (RingHolds.nil s.w.toNat_lt).tail_mod
  e := he.trans (UInt32.add_zero s.w).symm
  size := hsize
  short := by decide
  clean := nofun

lemma clear : s.clear.HasLine {} := empty rfl rfl

section
variable (h : s.HasLine ed)
include h

lemma ring_put (c : UInt8) : RingHolds (2 ^ 32)
      (Function.update (shiftUp (2 ^ 32) s.e.toNat ed.right.length s.buf) (cell s.e) c)
      s.w.toNat ((s.w.toNat + (ed.left ++ c :: ed.right).length) % 2 ^ 32)
      (ed.left ++ c :: ed.right) := by
  have hshort := h.short
  rw [ed.length_text] at hshort
  have hring := h.ring.insert dvd_two_pow hshort c
  rw [← h.cell_edit, ← shiftUp_mod, ← h.toNat_edit] at hring
  exact hring.tail_mod

lemma put {c : UInt8} {t : Input}
    (hshort : ed.text.length + 1 < INPUT_BUF) (hc : c ≠ newline ∧ c ≠ ctrl 'D')
    (hbuf : t.buf = Function.update (shiftUp (2 ^ 32) s.e.toNat ed.right.length s.buf) (cell s.e) c)
    (hw : t.w = s.w) (he : t.e = s.e + 1) (hsize : t.size = s.size + 1) :
    t.HasLine { ed with left := ed.left ++ [c] } := by
  have htext : ({ ed with left := ed.left ++ [c] } : Editor).text = ed.left ++ c :: ed.right := by
    simp [Editor.text]
  have hlength : (ed.left ++ c :: ed.right).length = ed.text.length + 1 := by
    rw [ed.length_text, length_append, length_cons]
    omega
  refine ⟨?_, ?_, ?_, ?_, ?_⟩
  · rw [htext, hbuf, hw]
    exact h.ring_put c
  · rw [he, hw, h.e, length_append, length_singleton, ofNat_add, UInt32.add_assoc]
    rfl
  · rw [hsize, htext, hlength, h.size, ofNat_add]
    rfl
  · rwa [htext, hlength]
  intro d hd
  rw [htext, mem_append, mem_cons] at hd
  rcases hd with hd | rfl | hd
  · exact h.clean d (mem_append_left _ hd)
  · exact hc
  · exact h.clean d (mem_append_right _ hd)

section
variable (hr : s.r = s.w)
include hr

/-- The end of the line is reached if what is shown on the way can be read. -/
lemma toEnd : s.toEnd mapped = if ∀ i < ed.right.length, mapped (s.e + UInt32.ofNat i) = true
      then some (s.setEdit s.last) else none := by
  have hlast : s.e + UInt32.ofNat ed.right.length = s.last := by
    rw [← h.behind hr, UInt32.ofNat_toNat, UInt32.add_comm, UInt32.sub_add_cancel]
  rw [Input.toEnd, forward_eq, h.behind hr, hlast]
  split <;> rfl

lemma setEdit_last : (s.setEdit s.last).HasLine { left := ed.text, right := [] } :=
  h.setEdit (append_nil _) (h.last_eq hr)

lemma room : s.e - s.r < ofNat INPUT_BUF := by
  have hlt := h.text_lt
  have hlength := ed.length_text
  rw [lt_iff_toNat_lt, hr, h.cursor]
  change _ < 128
  omega

lemma turns : (s.last - s.e).toInt32.toInt.toNat = ed.right.length := by
  have hbehind := h.behind hr
  have hlt := h.text_lt
  have hlength := ed.length_text
  have hsmall : 2 * (s.last - s.e).toBitVec.toNat < 2 ^ 32 := by
    change 2 * (s.last - s.e).toNat < _
    omega
  change (s.last - s.e).toBitVec.toInt.toNat = _
  rwa [BitVec.toInt_eq_toNat_of_lt hsmall]

end
end

lemma typed_ordinary (mapped : UInt32 → Bool) (h : s.HasLine ed) (hr : s.r = s.w) {c : UInt8}
    (hzero : c ≠ 0) (hreturn : c ≠ '\r'.toUInt8) (hc : c ≠ newline ∧ c ≠ ctrl 'D') :
    ∃ t : Input, t.buf =
        Function.update (shiftUp (2 ^ 32) s.e.toNat ed.right.length s.buf) (cell s.e) c ∧
      t.r = s.r ∧ t.w = s.w ∧ t.e = s.e + 1 ∧ t.size = s.size + 1 ∧
      s.typed mapped c = if t.size = ofNat INPUT_BUF then some (t.commit, true)
        else some (t, false) := by
  have hinsert := typed_insert mapped hzero (h.room hr) hreturn hc
  rwa [h.turns hr] at hinsert

/-- An ordinary character in a line that does not get full. -/
lemma typed_char (mapped : UInt32 → Bool) (h : s.HasLine ed) (hr : s.r = s.w)
    (hshort : ed.text.length + 1 < INPUT_BUF) {c : UInt8} (hzero : c ≠ 0)
    (hreturn : c ≠ '\r'.toUInt8) (hc : c ≠ newline ∧ c ≠ ctrl 'D') :
    ∃ t, s.typed mapped c = some (t, false) ∧ t.r = s.r ∧ t.w = s.w ∧
      t.HasLine { ed with left := ed.left ++ [c] } := by
  obtain ⟨t, hbuf, hr', hw, he, hsize, ht⟩ := h.typed_ordinary mapped hr hzero hreturn hc
  have hput := h.put hshort hc hbuf hw he hsize
  refine ⟨t, ?_, hr', hw, hput⟩
  rw [ht, if_neg]
  intro hfull
  have hlength := hput.size
  rw [hfull] at hlength
  have hlt := hput.text_lt
  have hnat := congrArg toNat hlength
  rw [toNat_ofNat', toNat_ofNat'] at hnat
  unfold INPUT_BUF at hnat
  omega

/-- The bytes that can be read when a line has been committed behind everything that was read. -/
lemma pending_of_ring {t : Input} {q : List UInt8} {tail : ℕ} (hlen : q.length < 2 ^ 32)
    (hring : RingHolds (2 ^ 32) t.buf t.r.toNat tail q) (hw : t.w = t.r + ofNat q.length) :
    t.pending = q := by
  have hcount : (t.w - t.r).toNat = q.length := by
    have := toNat_add_sub_add t.r (Nat.zero_le q.length) hlen
    rw [hw]
    simpa using this
  rw [pending, hcount]
  exact segment_of_holds hring

section
variable (h : s.HasLine ed)
include h

/-- A newline or an end of file ends the line, if what is shown before it can be read. -/
lemma typed_end (hr : s.r = s.w) {c d : UInt8}
    (hzero : c ≠ 0) (hd : (if c = '\r'.toUInt8 then newline else c) = d) (hends : Input.Ends d) :
    s.typed mapped c = if ∀ i < ed.right.length, mapped (s.e + ofNat i) = true
      then some (((s.setEdit s.last).store d).commit, true) else none := by
  have hlast : s.e = s.last → s.setEdit s.last = s := by
    intro heq
    rw [← heq]
    rfl
  rw [typed_eq hzero (h.room hr) hd]
  by_cases hright : ed.right = []
  · have hend := (h.at_end hr).mpr hright
    rw [if_pos hend, hlast hend, if_pos (by simp [hright]), bind_some, if_pos (.inl hends)]
  have hend : s.e ≠ s.last := fun heq => hright ((h.at_end hr).mp heq)
  rw [if_neg hend, if_pos hends, h.toEnd hr]
  by_cases hmapped : ∀ i < ed.right.length, mapped (s.e + ofNat i) = true
  · rw [if_pos hmapped, if_pos hmapped, map_some, bind_some, if_pos (.inl hends)]
  · rw [if_neg hmapped, if_neg hmapped, map_none, bind_none]

/-- The kernel faults exactly if it cannot read what it shows. -/
lemma isSome_iff (hr : s.r = s.w) {c : UInt8} :
    (s.consoleintr mapped c).isSome ↔ Readable mapped s c := by
  have hends : ∀ d, c ≠ 0 → (if c = '\r'.toUInt8 then newline else c) = d → Input.Ends d →
      ((s.typed mapped c).isSome ↔ ∀ i < ed.right.length, mapped (s.e + ofNat i) = true) := by
    intro d hzero hd hends
    rw [h.typed_end hr hzero hd hends, isSome_ite]
  rw [consoleintr_eq, Readable, h.behind hr]
  cases hkey : key c with
  | toEnd =>
    rw [isSome_map, h.toEnd hr, isSome_ite]
    exact (imp_iff_right (.inl rfl)).symm
  | enter =>
    rw [imp_iff_right (.inr (.inl rfl))]
    rcases key_enter hkey with rfl | rfl
    · exact hends newline (by decide) rfl (.inl rfl)
    · exact hends newline (by decide) rfl (.inl rfl)
  | eof =>
    rw [imp_iff_right (.inr (.inr rfl))]
    obtain rfl := key_eof hkey
    exact hends (ctrl 'D') (by decide) rfl (.inr rfl)
  | char d =>
    obtain ⟨rfl, hzero, hreturn, hc⟩ := key_char hkey
    obtain ⟨t, -, -, -, -, -, ht⟩ := h.typed_ordinary mapped hr hzero hreturn hc
    refine iff_of_true ?_ (by simp)
    dsimp only
    rw [ht]
    split <;> rfl
  | _ => exact iff_of_true rfl (by simp)

lemma commit (hr : s.r = s.w) (d : UInt8) : ((s.setEdit s.last).store d).commit.HasLine {} ∧
      ((s.setEdit s.last).store d).commit.pending = ed.text ++ [d] := by
  have hlt := h.text_lt
  refine ⟨empty rfl rfl, ?_⟩
  have hcell : cell s.last = Fin.ofNat INPUT_BUF ((s.w.toNat + ed.text.length) % 2 ^ 32) := by
    rw [h.last_eq hr, cell_add]
  have hring := h.ring.push dvd_two_pow h.short d
  rw [← hcell, ← hr] at hring
  refine pending_of_ring ?_ hring ?_
  · rw [length_append, length_singleton]
    omega
  change s.last + 1 = s.r + _
  rw [h.last_eq hr, hr, length_append, length_singleton, ofNat_add, UInt32.add_assoc]
  rfl

lemma shrunk {t : Input} {l : List UInt8} {b : UInt8} {tail : ℕ}
    (hl : ed.left = l ++ [b]) (hring : RingHolds (2 ^ 32) t.buf s.w.toNat tail (l ++ ed.right))
    (hw : t.w = s.w) (he : t.e = s.e - 1) (hsize : t.size = s.size - 1) :
    t.HasLine { ed with left := l } := by
  have hshort := h.short
  have htext : ({ ed with left := l } : Editor).text = l ++ ed.right := rfl
  have hlength : ed.text.length = (l ++ ed.right).length + 1 := by
    rw [ed.length_text, hl, length_append, length_append, length_singleton]
    omega
  refine ⟨?_, ?_, ?_, ?_, fun c hc => h.clean c ?_⟩
  · rw [hw, htext]
    exact hring.tail_mod
  · rw [he, hw, h.e, hl, length_append, length_singleton, ofNat_add, ← UInt32.add_assoc]
    exact UInt32.add_sub_cancel _ _
  · rw [hsize, htext, h.size, hlength, ofNat_add]
    exact UInt32.add_sub_cancel _ _
  · rw [htext]
    omega
  rw [htext, mem_append] at hc
  rw [Editor.text, hl]
  simp only [mem_append]
  exact hc.imp .inl id

end

/-- What a Backspace leaves of the line. In the middle it tests `input.e > input.w`. -/
def erased (s : Input) (ed : Editor) : Editor :=
  if ed.right = [] ∨ s.w < s.e then { ed with left := ed.left.dropLast } else ed

/-- In a line that does not lie across the place where the counters wrap, a Backspace always does
its work. -/
lemma erased_eq (h : s.HasLine ed) :
    erased s ed = if ed.right = [] ∨ s.w.toNat + ed.left.length < 2 ^ 32
      then { ed with left := ed.left.dropLast } else ed := by
  by_cases hnil : ed.left = []
  · have hsame : ({ ed with left := ed.left.dropLast } : Editor) = ed := by
      rw [hnil, dropLast_nil, ← hnil]
    rw [erased, hsame, ite_self, ite_self]
  · exact if_congr (or_congr Iff.rfl (h.after_start.trans (and_iff_right hnil))) rfl rfl

lemma backspace (h : s.HasLine ed) (hr : s.r = s.w) :
    s.backspace.HasLine (erased s ed) ∧ s.backspace.r = s.r ∧ s.backspace.w = s.w := by
  have hcount := h.cursor
  obtain hnil | ⟨l, b, hl⟩ := eq_nil_or_concat ed.left
  · have hback : s.backspace = s := by simp [Input.backspace, h.at_start.mpr hnil]
    have herased : erased s ed = ed := by
      have hsame : ({ ed with left := ed.left.dropLast } : Editor) = ed := by
        rw [hnil, dropLast_nil, ← hnil]
      rw [erased, hsame, ite_self]
    rw [hback, herased]
    exact ⟨h, rfl, rfl⟩
  rw [concat_eq_append] at hl
  have hshort := h.text_lt
  have hlength := ed.length_text
  have hring := h.ring
  rw [Editor.text, hl, append_assoc, singleton_append] at hring
  rw [hl, length_append, length_singleton] at hcount hlength
  by_cases hright : ed.right = []
  · have hend := (h.at_end hr).mpr hright
    have hne : s.e ≠ s.w := fun heq => by
      have hnil := h.at_start.mp heq
      rw [hl] at hnil
      exact append_ne_nil_of_right_ne_nil _ (cons_ne_nil _ _) hnil
    have hback : s.backspace = s.shrink := by
      rw [Input.backspace, if_neg (not_not.mpr hend), if_pos hne]
    have hring' : RingHolds (2 ^ 32) s.shrink.buf s.w.toNat ((s.w.toNat + l.length) % 2 ^ 32)
        (l ++ ed.right) := by
      rw [hright, append_nil]
      exact hring.take
    rw [hback, erased, if_pos (.inl hright), hl, dropLast_concat]
    exact ⟨h.shrunk hl hring' rfl rfl rfl, rfl, rfl⟩
  have hend : s.e ≠ s.last := fun heq => hright ((h.at_end hr).mp heq)
  by_cases hlt : s.w < s.e
  · have hedit : s.shrink.e = s.w + UInt32.ofNat l.length := by
      rw [Input.shrink_e, h.e, hl, length_append, length_singleton,
        UInt32.ofNat_add, ← UInt32.add_assoc]
      exact UInt32.add_sub_cancel _ _
    have hlast : s.shrink.last = s.w + UInt32.ofNat (l ++ ed.right).length := by
      have hsize : s.size - 1 = UInt32.ofNat (l ++ ed.right).length := by
        have hsucc : ed.text.length = (l ++ ed.right).length + 1 := by
          rw [hlength, length_append]
          omega
        rw [h.size, hsucc, ofNat_add]
        exact UInt32.add_sub_cancel _ _
      rw [Input.last, Input.shrink_r, Input.shrink_size, hr, hsize]
    have hbehind : (s.shrink.last - s.shrink.e).toNat = ed.right.length := by
      rw [hlast, hedit, toNat_add_sub_add s.w _ _, length_append, Nat.add_sub_cancel_left]
      · rw [length_append]
        omega
      · rw [length_append]
        omega
    -- the space behind the line is not part of it
    have hring' := (hring.erase dvd_two_pow).write dvd_two_pow le_rfl
      (by rw [length_append]; unfold INPUT_BUF; omega) ' '.toUInt8
    rw [← cell_add, ← hlast, ← shiftDown_mod, ← hbehind] at hring'
    have htoNat : s.shrink.e.toNat = (s.w.toNat + l.length) % 2 ^ 32 := by
      rw [hedit, UInt32.toNat_add, UInt32.toNat_ofNat', Nat.add_mod_mod]
    rw [← htoNat] at hring'
    rw [Input.backspace, if_pos hend, if_pos hlt, erased, if_pos (.inr hlt), hl, dropLast_concat]
    exact ⟨h.shrunk hl hring' rfl rfl rfl, rfl, rfl⟩
  · rw [Input.backspace, if_pos hend, if_neg hlt, erased, if_neg (not_or.mpr ⟨hright, hlt⟩)]
    exact ⟨h, rfl, rfl⟩

end Input.HasLine
end Xv6.Console
