import Mathlib.Data.Bool.AllAny
import Mathlib.Data.List.Infix
import Xv6.Console.Line

/-!
# Killing a line

`^U` takes the edit index to the start of the line and erases the characters on the
screen, but `input.size` still counts them. To the indices it is the same key as `{`:
the old line is behind the cursor, and comes back with the next character, `}` or
Enter. It is gone only if the keys that follow delete it.

## Implementation notes

The old line and an empty line are compared under the same keys. A Backspace may do its
work on one and not on the other where the line lies across the place at which the
counters wrap, so the editor of this module knows at which index the line starts.
-/

namespace Xv6.Console
open Lib List

/-- Handle keys in turn. There is no result if the kernel faults. -/
def Input.consoleintrs (mapped : UInt32 → Bool) (s : Input) : List UInt8 → Option Input
  | [] => some s
  | c :: cs => (s.consoleintr mapped c).bind fun r => r.1.consoleintrs mapped cs

/-- The bytes that can be read after some keys and Enter. -/
def committed (mapped : UInt32 → Bool) (s : Input) (cs : List UInt8) : Option (List UInt8) :=
  (s.consoleintrs mapped (cs ++ [newline])).map Input.pending

/-- Ordinary characters, Backspace, `{` and `}`. -/
def Plain (c : UInt8) : Prop :=
  (key c).isChar = true ∨ key c = .backspace ∨ key c = .home ∨ key c = .toEnd

instance : DecidablePred Plain := fun _ => inferInstanceAs (Decidable (_ ∨ _))

/-- A key on a line that starts at index `w`. -/
def Editor.pressAt (w : ℕ) (ed : Editor) : Key → Editor
  | .backspace =>
    if ed.right = [] ∨ w + ed.left.length < 2 ^ 32 then { ed with left := ed.left.dropLast }
    else ed
  | k => (ed.press k).1

/-- The line after some keys. -/
def Editor.edit (w : ℕ) (ed : Editor) (cs : List UInt8) : Editor :=
  cs.foldl (fun ed c => ed.pressAt w (key c)) ed

variable {w : ℕ} {a b ed : Editor} {c : UInt8} {cs : List UInt8}

lemma Editor.length_pressAt_char (w : ℕ) (ed : Editor) (c : UInt8) :
    (ed.pressAt w (.char c)).text.length = ed.text.length + 1 := by
  rw [length_text, length_text]
  simp only [pressAt, press, length_append, length_singleton]
  omega

lemma Editor.edit_append : ed.edit w (cs ++ [c]) = (ed.edit w cs).pressAt w (key c) := by
  rw [edit, foldl_append]
  rfl

/-! ### Two lines under the same keys -/

/-- The line `b` is the shorter one. The cursors are behind the same characters; or `b` is at its
end, and `a` is as well, or where a Backspace does nothing. -/
structure Trails (w : ℕ) (a b : Editor) : Prop where
  shorter : b.text.length < a.text.length
  cursors : a.left = b.left ∨ b.right = [] ∧ (a.right = [] ∨ 2 ^ 32 ≤ w + a.left.length)

namespace Trails

section
variable (h : Trails w a b)
include h

lemma text_ne : a.text ≠ [] := by
  intro hnil
  have hshorter := h.shorter
  rw [hnil] at hshorter
  exact Nat.not_lt_zero _ hshorter

/-- Cursors behind the same characters. -/
lemma backspace_same (hleft : a.left = b.left) :
    Trails w (a.pressAt w .backspace) (b.pressAt w .backspace) := by
  have hshorter := h.shorter
  have hdrop : b.left.dropLast.length = b.left.length - 1 := length_dropLast
  rw [a.length_text, b.length_text, hleft] at hshorter
  have hright : a.right ≠ [] := by
    intro hnil
    rw [hnil, length_nil] at hshorter
    omega
  by_cases hwrap : w + b.left.length < 2 ^ 32
  · rw [Editor.pressAt, if_pos (.inr (hleft ▸ hwrap)), Editor.pressAt, if_pos (.inr hwrap)]
    refine ⟨?_, .inl (congrArg List.dropLast hleft)⟩
    rw [Editor.length_text, Editor.length_text, hleft]
    change b.left.dropLast.length + b.right.length < b.left.dropLast.length + a.right.length
    omega
  rw [Editor.pressAt, if_neg (by rw [hleft]; exact not_or.mpr ⟨hright, hwrap⟩), Editor.pressAt]
  split
  · -- only the shorter line is at its end
    rename_i hb
    have hnil := hb.resolve_right hwrap
    refine ⟨?_, .inr ⟨hnil, .inr (by rw [hleft]; omega)⟩⟩
    rw [Editor.length_text, Editor.length_text, hleft]
    change b.left.dropLast.length + b.right.length < _
    omega
  · exact h

lemma backspace_ends (ha : a.right = []) (hb : b.right = []) :
    (a.pressAt w .backspace = {} ∧ b.pressAt w .backspace = {}) ∨
      Trails w (a.pressAt w .backspace) (b.pressAt w .backspace) := by
  have hshorter := h.shorter
  rw [a.length_text, b.length_text, ha, hb] at hshorter
  simp only [length_nil, Nat.add_zero] at hshorter
  rw [Editor.pressAt, if_pos (.inl ha), Editor.pressAt, if_pos (.inl hb)]
  by_cases hone : a.left.length = 1
  · -- the last character of the longer line, when the other one is empty
    have hb' : b.left = [] := length_eq_zero_iff.mp (by omega)
    obtain ⟨x, hx⟩ := length_eq_one_iff.mp hone
    exact .inl ⟨by rw [hx, ha]; rfl, by rw [hb', hb]; rfl⟩
  refine .inr ⟨?_, .inr ⟨hb, .inl ha⟩⟩
  rw [Editor.length_text, Editor.length_text, length_dropLast, length_dropLast]
  rw [ha, hb]
  omega

/-- Only the shorter line is at its end, and the Backspace does nothing to the other one. -/
lemma backspace_stuck (ha : a.right ≠ []) (hb : b.right = [])
    (hwrap : 2 ^ 32 ≤ w + a.left.length) :
    Trails w (a.pressAt w .backspace) (b.pressAt w .backspace) := by
  have hshorter := h.shorter
  have hdrop : b.left.dropLast.length = b.left.length - 1 := length_dropLast
  rw [Editor.pressAt, if_neg (not_or.mpr ⟨ha, by omega⟩), Editor.pressAt, if_pos (.inl hb)]
  refine ⟨?_, .inr ⟨hb, .inr hwrap⟩⟩
  rw [b.length_text] at hshorter
  rw [Editor.length_text]
  change b.left.dropLast.length + b.right.length < _
  omega

lemma backspace : (a.pressAt w .backspace = {} ∧ b.pressAt w .backspace = {}) ∨
      Trails w (a.pressAt w .backspace) (b.pressAt w .backspace) := by
  obtain hleft | ⟨hb, hwrap⟩ := h.cursors
  · exact .inr (h.backspace_same hleft)
  by_cases ha : a.right = []
  · exact h.backspace_ends ha hb
  · exact .inr (h.backspace_stuck ha hb (hwrap.resolve_left ha))

lemma char (d : UInt8) : Trails w (a.pressAt w (.char d)) (b.pressAt w (.char d)) := by
  have hshorter := h.shorter
  refine ⟨?_, h.cursors.imp (congrArg (· ++ [d])) fun hb => ⟨hb.1, hb.2.imp id fun hwrap => ?_⟩⟩
  · rw [a.length_text, b.length_text] at hshorter
    rw [Editor.length_text, Editor.length_text]
    simp only [Editor.pressAt, Editor.press, length_append, length_singleton]
    omega
  · simp only [Editor.pressAt, Editor.press, length_append, length_singleton]
    omega

lemma press (hc : Plain c) : (a.pressAt w (key c) = {} ∧ b.pressAt w (key c) = {}) ∨
      Trails w (a.pressAt w (key c)) (b.pressAt w (key c)) := by
  obtain hchar | hkey | hkey | hkey := hc
  · cases hkey : key c with
    | char d => exact .inr (h.char d)
    | _ => rw [hkey] at hchar; cases hchar
  · rw [hkey]
    exact h.backspace
  · rw [hkey]
    exact .inr ⟨h.shorter, .inl rfl⟩
  rw [hkey]
  refine .inr ⟨?_, .inr ⟨rfl, .inl rfl⟩⟩
  simp only [Editor.pressAt, Editor.press, Editor.text, append_nil]
  exact h.shorter

end
end Trails

/-- As long as the longer line has not been empty, the other one trails it; and from then on they
are the same. -/
lemma edit_meets (h : a = b ∧ a.text = [] ∨ Trails w a b) (hcs : ∀ c ∈ cs, Plain c) :
    ((∃ pre, pre <+: cs ∧ (a.edit w pre).text = []) ∧ a.edit w cs = b.edit w cs) ∨
      ((∀ pre, pre <+: cs → (a.edit w pre).text ≠ []) ∧ Trails w (a.edit w cs) (b.edit w cs)) := by
  induction cs using List.reverseRecOn with
  | nil =>
    refine h.imp (fun h => ⟨⟨[], prefix_rfl, h.2⟩, h.1⟩) fun h => ⟨fun pre hpre => ?_, h⟩
    rw [prefix_nil.mp hpre]
    exact h.text_ne
  | append_singleton cs c ih =>
    rw [Editor.edit_append, Editor.edit_append]
    obtain ⟨⟨pre, hpre, hempty⟩, heq⟩ | ⟨hnever, htrails⟩ := ih fun c hc => hcs c (by simp [hc])
    · exact .inl ⟨⟨pre, hpre.trans (prefix_append _ _), hempty⟩, by rw [heq]⟩
    obtain ⟨ha, hb⟩ | htrails' := htrails.press (hcs c (by simp))
    · refine .inl ⟨⟨cs ++ [c], prefix_rfl, ?_⟩, by rw [ha, hb]⟩
      rw [Editor.edit_append, ha]
      rfl
    refine .inr ⟨fun pre hpre => ?_, htrails'⟩
    obtain heq | hlt := prefix_concat_iff.mp hpre
    · rw [heq, Editor.edit_append]
      exact htrails'.text_ne
    · exact hnever pre hlt

lemma start_meets (w : ℕ) (xs : List UInt8) :
    (⟨[], xs⟩ : Editor) = {} ∧ (⟨[], xs⟩ : Editor).text = [] ∨ Trails w ⟨[], xs⟩ {} := by
  cases xs with
  | nil => exact .inl ⟨rfl, rfl⟩
  | cons x xs => exact .inr ⟨Nat.zero_lt_succ _, .inl rfl⟩

/-- Under the same keys a line ends up as an empty line does exactly if it gets empty. -/
lemma edit_text_eq_iff (xs : List UInt8) (hcs : ∀ c ∈ cs, Plain c) :
    ((⟨[], xs⟩ : Editor).edit w cs).text = (({} : Editor).edit w cs).text ↔
      ∃ pre, pre <+: cs ∧ ((⟨[], xs⟩ : Editor).edit w pre).text = [] := by
  obtain ⟨hempty, heq⟩ | ⟨hnever, htrails⟩ := edit_meets (start_meets w xs) hcs
  · exact iff_of_true (congrArg Editor.text heq) hempty
  refine iff_of_false (fun heq => ?_) fun ⟨pre, hpre, hempty⟩ => hnever pre hpre hempty
  have hshorter := htrails.shorter
  rw [heq] at hshorter
  exact Nat.lt_irrefl _ hshorter

lemma edit_length_le (xs : List UInt8) (hcs : ∀ c ∈ cs, Plain c) :
    (({} : Editor).edit w cs).text.length ≤ ((⟨[], xs⟩ : Editor).edit w cs).text.length := by
  obtain ⟨-, heq⟩ | ⟨-, htrails⟩ := edit_meets (start_meets w xs) hcs
  · rw [heq]
  · exact htrails.shorter.le

/-! ### The console under the keys -/

/-- The line is shorter than the ring after each of the keys. -/
def Fits (w : ℕ) (ed : Editor) (cs : List UInt8) : Prop :=
  ∀ pre, pre <+: cs → (ed.edit w pre).text.length < INPUT_BUF

instance : Decidable (Fits w ed cs) :=
  decidable_of_iff (∀ pre ∈ cs.inits, (ed.edit w pre).text.length < INPUT_BUF)
    (forall_congr' fun _ => imp_congr_left (mem_inits _ _))

/-- What the kernel reads behind the cursor to show it, for `}` and Enter, is mapped. -/
def Shows (mapped : UInt32 → Bool) (w : UInt32) (ed : Editor) (c : UInt8) : Prop :=
  key c = .toEnd ∨ key c = .enter →
    ∀ i < ed.right.length, mapped (w + UInt32.ofNat ed.left.length + UInt32.ofNat i) = true

/-- It is at each of the keys, and at the Enter after them. -/
def ShowsAll (mapped : UInt32 → Bool) (w : UInt32) (ed : Editor) (cs : List UInt8) : Prop :=
  ∀ pre c, pre ++ [c] <+: cs ++ [newline] → Shows mapped w (ed.edit w.toNat pre) c

namespace Input

variable {s t : Input} {mapped : UInt32 → Bool}

lemma HasLine.plain (h : s.HasLine ed) (hr : s.r = s.w) (hc : Plain c)
    (hfits : (ed.pressAt s.w.toNat (key c)).text.length < INPUT_BUF) {woken : Bool}
    (ht : s.consoleintr mapped c = some (t, woken)) :
    t.r = s.r ∧ t.w = s.w ∧ t.HasLine (ed.pressAt s.w.toNat (key c)) := by
  cases Pressed.of_some ht with
  | home hkey =>
    obtain hkey | hkey := hkey
    · simp [Plain, hkey, Key.isChar] at hc
    rw [hkey]
    exact ⟨rfl, rfl, h.home⟩
  | backspace hkey =>
    rw [hkey]
    obtain ⟨hline, hr', hw'⟩ := h.backspace hr
    rw [h.erased_eq] at hline
    exact ⟨hr', hw', hline⟩
  | toEnd hkey =>
    rw [hkey]
    exact ⟨rfl, rfl, h.setEdit_last hr⟩
  | char hkey hzero hreturn hend htyped =>
    rw [hkey] at hfits ⊢
    rw [Editor.length_pressAt_char] at hfits
    obtain ⟨t', ht', hr', hw', hline⟩ := h.typed_char mapped hr hfits hzero hreturn hend
    obtain ⟨rfl, -⟩ := Prod.mk.inj (Option.some.inj (htyped.symm.trans ht'))
    exact ⟨hr', hw', hline⟩
  | nothing hkey | clear hkey => simp [Plain, hkey, Key.isChar] at hc
  | dropped hkey | ends hkey => obtain hkey | hkey := hkey <;> simp [Plain, hkey, Key.isChar] at hc

lemma forall_prefix_concat {P : List UInt8 → UInt8 → Prop} :
    (∀ pre d, pre ++ [d] <+: cs ++ [c] → P pre d) ↔
      (∀ pre d, pre ++ [d] <+: cs → P pre d) ∧ P cs c := by
  simp only [prefix_concat_iff, append_singleton_inj]
  grind

lemma consoleintrs_append (cs : List UInt8) : s.consoleintrs mapped (cs ++ [c]) =
      (s.consoleintrs mapped cs).bind fun t => (t.consoleintr mapped c).map Prod.fst := by
  induction cs generalizing s with
  | nil =>
    change (s.consoleintr mapped c).bind (fun r => some r.1) = (s.consoleintr mapped c).map Prod.fst
    cases s.consoleintr mapped c <;> rfl
  | cons d cs ih =>
    rw [cons_append, consoleintrs, consoleintrs]
    cases s.consoleintr mapped d with
    | none => rfl
    | some r => exact ih

section
variable (h : s.HasLine ed) (hr : s.r = s.w) (hcs : ∀ c ∈ cs, Plain c)
  (hfits : Fits s.w.toNat ed cs)
include h hr hcs hfits

lemma HasLine.run (ht : s.consoleintrs mapped cs = some t) :
    t.r = t.w ∧ t.w = s.w ∧ t.HasLine (ed.edit s.w.toNat cs) := by
  induction cs using List.reverseRecOn generalizing t with
  | nil =>
    cases ht
    exact ⟨hr, rfl, h⟩
  | append_singleton cs c ih =>
    rw [consoleintrs_append] at ht
    obtain ⟨t₁, ht₁, ht⟩ := Option.bind_eq_some_iff.mp ht
    obtain ⟨⟨t', woken⟩, ht₂, rfl⟩ := Option.map_eq_some_iff.mp ht
    obtain ⟨hr₁, hw₁, hline₁⟩ := ih (fun c hc => hcs c (by simp [hc]))
      (fun pre hpre => hfits pre (hpre.trans (prefix_append _ _))) ht₁
    have hfits' := hfits _ prefix_rfl
    rw [Editor.edit_append, ← hw₁] at hfits' ⊢
    rw [← hw₁] at hline₁
    obtain ⟨hr', hw', hline'⟩ := hline₁.plain hr₁ (hcs c (by simp)) hfits' ht₂
    exact ⟨by rw [hr', hw', hr₁], hw', hline'⟩

lemma HasLine.isSome_append (hc : key c ≠ .eof) : (s.consoleintrs mapped (cs ++ [c])).isSome ↔
    (s.consoleintrs mapped cs).isSome ∧ Shows mapped s.w (ed.edit s.w.toNat cs) c := by
  rw [consoleintrs_append]
  cases ht : s.consoleintrs mapped cs with
  | none => simp
  | some t =>
    obtain ⟨hr', hw', hline⟩ := h.run hr hcs hfits ht
    rw [Option.bind_some, Option.isSome_map, hline.isSome_iff hr', Readable, hline.behind hr',
      hline.e, hw', Shows]
    simp [hc]

lemma HasLine.isSome_consoleintrs : (s.consoleintrs mapped cs).isSome ↔
    ∀ pre c, pre ++ [c] <+: cs → Shows mapped s.w (ed.edit s.w.toNat pre) c := by
  induction cs using List.reverseRecOn with
  | nil => exact iff_of_true rfl fun pre c hpre => by simp at hpre
  | append_singleton cs c ih =>
    have hcs' : ∀ c ∈ cs, Plain c := fun c hc => hcs c (by simp [hc])
    have hfits' : Fits s.w.toNat ed cs := fun pre hpre => hfits pre (hpre.trans (prefix_append _ _))
    have hc : key c ≠ .eof := fun hkey => by simpa [Plain, hkey, Key.isChar] using hcs c (by simp)
    rw [h.isSome_append hr hcs' hfits' hc, ih hcs' hfits', forall_prefix_concat]

/-- The kernel faults on the keys exactly if it cannot read what it shows for one of them. -/
lemma HasLine.isSome_committed : (committed mapped s cs).isSome ↔ ShowsAll mapped s.w ed cs := by
  rw [committed, Option.isSome_map, h.isSome_append hr hcs hfits (by decide),
    h.isSome_consoleintrs hr hcs hfits, ShowsAll, forall_prefix_concat]

lemma HasLine.committed_eq {line : List UInt8}
    (hline : committed mapped s cs = some line) :
    line = (ed.edit s.w.toNat cs).text ++ [newline] := by
  rw [committed, consoleintrs_append] at hline
  obtain ⟨t', ht', rfl⟩ := Option.map_eq_some_iff.mp hline
  obtain ⟨t, ht, ht'⟩ := Option.bind_eq_some_iff.mp ht'
  obtain ⟨hr', hw', hline'⟩ := h.run hr hcs hfits ht
  obtain ⟨⟨t'', woken⟩, henter, rfl⟩ := Option.map_eq_some_iff.mp ht'
  have hkey : key newline = .enter := by decide
  rw [consoleintr_eq, hkey] at henter
  change t.typed mapped newline = _ at henter
  rw [hline'.typed_end hr' (by decide) (if_neg (by decide)) (.inl rfl)] at henter
  split at henter
  · obtain ⟨rfl, -⟩ := Prod.mk.inj (Option.some.inj henter)
    exact (hline'.commit hr' newline).2
  · cases henter

end

end Input

section
variable {s : Input} {mapped : UInt32 → Bool} {xs : List UInt8}

/-- What is committed after `^U` and some keys is what the keys commit on an empty line exactly if
the kernel can read what it shows for them and they delete the old line. -/
theorem kill_iff (h : s.HasLine ⟨xs, []⟩) (hr : s.r = s.w) (hcs : ∀ c ∈ cs, Plain c)
    (hfits : Fits s.w.toNat ⟨[], xs⟩ cs) :
    (∃ line, committed mapped s (ctrl 'U' :: cs) = some line ∧
      committed mapped s.clear cs = some line) ↔
    ShowsAll mapped s.w ⟨[], xs⟩ cs ∧ ShowsAll mapped s.w {} cs ∧
      ∃ pre, pre <+: cs ∧ ((⟨[], xs⟩ : Editor).edit s.w.toNat pre).text = [] := by
  have hhome : s.home.HasLine ⟨[], xs⟩ := by
    have hhome := h.home
    rwa [Editor.text, append_nil] at hhome
  have hkill : committed mapped s (ctrl 'U' :: cs) = committed mapped s.home cs := rfl
  have hempty : Fits s.w.toNat {} cs := fun pre hpre =>
    (edit_length_le xs fun c hc => hcs c (hpre.subset hc)).trans_lt (hfits pre hpre)
  have hshows : _ ↔ ShowsAll mapped s.w _ _ := hhome.isSome_committed hr hcs hfits
  have hshows' : _ ↔ ShowsAll mapped s.w _ _ := Input.HasLine.clear.isSome_committed hr hcs hempty
  rw [hkill, ← edit_text_eq_iff xs hcs, ← hshows, ← hshows']
  rcases hline : committed mapped s.home cs with _ | line
  · simp
  rcases hline' : committed mapped s.clear cs with _ | line'
  · simp
  have heq := hhome.committed_eq hr hcs hfits hline
  have heq' := (Input.HasLine.clear).committed_eq hr hcs hempty hline'
  rw [heq, heq']
  simp [Input.home, eq_comm]

end

/-- `ab` has been typed since the start of the machine. -/
def abInput : Input where
  buf := Function.update (Function.update (fun _ => 0) 0 'a'.toUInt8) 1 'b'.toUInt8
  r := 0
  w := 0
  e := 2
  size := 2

lemma abInput_typed : (Sys.init : Sys Unit).input.consoleintrs (fun _ => true)
    ['a'.toUInt8, 'b'.toUInt8] = some abInput := rfl

lemma abInput_hasLine : abInput.HasLine ⟨['a'.toUInt8, 'b'.toUInt8], []⟩ := by
  have hinit : (Sys.init : Sys Unit).input.HasLine {} := .empty rfl rfl
  exact (hinit.run rfl (List.all_iff_forall_prop.mp (by decide)) (by decide) abInput_typed).2.2

/-- `ab`, `^U`, then `}`, two Backspaces and `c` commit `c`. -/
theorem kill_deletes_ab : ∃ line,
    committed (fun _ => true) abInput [ctrl 'U', endKey, delete, delete, 'c'.toUInt8] = some line ∧
    committed (fun _ => true) abInput.clear [endKey, delete, delete, 'c'.toUInt8] = some line :=
  (kill_iff abInput_hasLine rfl (List.all_iff_forall_prop.mp (by decide)) (by decide)).mpr
    ⟨fun _ _ _ _ _ _ => rfl, fun _ _ _ _ _ _ => rfl, [endKey, delete, delete], by decide,
      by decide⟩

/-- `ab`, `^U`, `c` and Enter commit `cab`. -/
theorem kill_keeps_ab : abInput.HasLine ⟨['a'.toUInt8, 'b'.toUInt8], []⟩ ∧
    committed (fun _ => true) abInput [ctrl 'U', 'c'.toUInt8] =
      some ("cab\n".toList.map Char.toUInt8) ∧
    committed (fun _ => true) abInput.clear ['c'.toUInt8] = some ("c\n".toList.map Char.toUInt8) :=
  ⟨abInput_hasLine, by decide, by decide⟩

end Xv6.Console
