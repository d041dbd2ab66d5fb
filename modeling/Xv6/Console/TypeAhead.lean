import Xv6.Console.Reading

/-!
# Typing ahead

The line editor takes `input.r + input.size` for the end of the line, which is right
only when everything that has been committed has been read. So what is delivered
does not depend on when it is read as long as the keys that use the end of the line
wait for the readers.
-/

namespace Xv6.Console
open Lib

/-- The key has no use for the end of the line. -/
def Harmless (s : Input) (c : UInt8) : Prop :=
  c = ctrl 'P' ∨ c = ctrl 'U' ∨ c = ctrl 'C' ∨ c = startKey ∨ c = 0 ∨
    (c = ctrl 'H' ∨ c = delete) ∧ s.e = s.w

/-- Other keys than these arrive when everything that has been committed has been read. -/
def Patient {ι : Type} (s : Sys ι) : Move ι → Prop
  | .key c => s.input.r = s.input.w ∨ Harmless s.input c
  | _ => True

/-- A console that is read at once after every key, and what has been read from it. -/
structure Prompt where
  input : Input
  out : List UInt8

/-- Everything is read. -/
@[simps]
def Input.drain (s : Input) : Input := { s with r := s.w }

/-- A key, and then everything is read. -/
def Prompt.key (mapped : UInt32 → Bool) (p : Prompt) (c : UInt8) : Prompt :=
  match p.input.consoleintr mapped c with
  | none => p
  | some (t, _) => ⟨t.drain, p.out ++ t.shown⟩

def Prompt.init : Prompt := ⟨{ buf := fun _ => 0, r := 0, w := 0, e := 0, size := 0 }, []⟩

section
variable {ι : Type} {mapped : UInt32 → Bool}

/-- What has been delivered and what can be read are what the prompt console has given. -/
structure Agrees (s : Sys ι) (p : Prompt) : Prop where
  input : p.input = s.input.drain
  out : p.out = s.delivered.flatten ++ s.input.shown
  delivered : s.delivered ≠ []

/-- A harmless key does the same whether or not everything has been read. -/
lemma consoleintr_of_harmless (mapped : UInt32 → Bool) {s : Input} {c : UInt8}
    (h : Harmless s c) : ∃ t, s.consoleintr mapped c = some (t, false) ∧
      s.drain.consoleintr mapped c = some (t.drain, false) ∧ t.shown = s.shown := by
  have hback : s.e = s.w → s.backspace = s ∧ s.drain.backspace = s.drain := by
    intro he
    simp [Input.backspace, he]
  rcases h with rfl | rfl | rfl | rfl | rfl | ⟨rfl | rfl, he⟩
  · exact ⟨s, rfl, rfl, rfl⟩
  · exact ⟨s.home, rfl, rfl, rfl⟩
  · exact ⟨s.clear, rfl, rfl, rfl⟩
  · exact ⟨s.home, rfl, rfl, rfl⟩
  · exact ⟨s, rfl, rfl, rfl⟩
  · refine ⟨s, ?_, ?_, rfl⟩
    · exact congrArg (fun t => some (t, false)) (hback he).1
    · exact congrArg (fun t => some (t, false)) (hback he).2
  refine ⟨s, ?_, ?_, rfl⟩
  · exact congrArg (fun t => some (t, false)) (hback he).1
  · exact congrArg (fun t => some (t, false)) (hback he).2

variable {s : Sys ι}

lemma Agrees.key {p : Prompt} (h : Agrees s p) {c : UInt8}
    (hc : s.input.r = s.input.w ∨ Harmless s.input c) :
    Agrees (s.key mapped c) (p.key mapped c) := by
  rcases hc with hr | hc
  · have hinput : p.input = s.input := by
      rw [h.input]
      cases hs : s.input
      simp_all [Input.drain]
    have hout := h.out
    rw [Input.shown_of_eq hr, List.append_nil] at hout
    unfold Sys.key Prompt.key
    rw [hinput]
    rcases s.input.consoleintr mapped c with _ | ⟨t, wakeup⟩
    · refine ⟨h.input, ?_, h.delivered⟩
      rw [hout]
      simp [Input.shown_of_eq hr]
    refine ⟨rfl, ?_, ?_⟩
    · cases wakeup <;> simp [hout]
    · cases wakeup <;> simp [h.delivered]
  obtain ⟨t, hs, hp, hshown⟩ := consoleintr_of_harmless mapped hc
  unfold Sys.key Prompt.key
  rw [h.input, hs, hp]
  refine ⟨rfl, ?_, h.delivered⟩
  rw [h.out]
  simp [hshown, Input.shown_of_eq (s := t.drain) rfl]

variable [DecidableEq ι]

lemma Agrees.run {p : Prompt} (h : Agrees s p) (i : ι) (killed : Bool)
    (target n : ℕ) : Agrees (s.run i killed target n) p := by
  have hreads := consoleread_spec target n s.input
  have hdeliver : Agrees (s.deliver (consoleread target n s.input).1
      (consoleread target n s.input).2.1) p := by
    obtain ⟨hflatten, hne⟩ := addLast_flatten h.delivered (consoleread target n s.input).2.1
    refine ⟨?_, ?_, hne⟩
    · rw [h.input]
      simp [Input.drain, hreads.buf, hreads.w, hreads.e, hreads.size]
    · rw [h.out, hreads.shown, Sys.deliver_delivered, hflatten, List.append_assoc]
      rfl
  unfold Sys.run
  dsimp only
  split
  · exact ⟨hdeliver.input, hdeliver.out, hdeliver.delivered⟩
  · exact ⟨hdeliver.input, hdeliver.out, hdeliver.delivered⟩

/-- In a run with patient keys the state is that of the prompt console with the same keys. -/
lemma agrees_of_patient (h : Reaches (Sys.step mapped) Patient Sys.init s) :
    Agrees s (s.keys.foldl (Prompt.key mapped) Prompt.init) := by
  refine h.invariant (I := fun s => Agrees s (s.keys.foldl (Prompt.key mapped) Prompt.init)) ?_
    ⟨rfl, (Input.shown_of_eq rfl).symm, List.cons_ne_nil _ _⟩
  intro s s' m hs hok hstep
  cases Moved.of_step hstep with
  | @key c =>
    have hkeys : (s.key mapped c).keys = s.keys ++ [c] := by
      unfold Sys.key
      split <;> rfl
    rw [hkeys, List.foldl_append]
    exact hs.key hok
  | read => exact ⟨hs.input, hs.out, hs.delivered⟩
  | @run i killed target n =>
    have hkeys : (s.run i killed target n).keys = s.keys := by
      unfold Sys.run
      dsimp only
      split <;> rfl
    rw [hkeys]
    exact hs.run i killed target n

/-- Two runs with the same keys, all of them patient, deliver the same bytes. -/
theorem delivered_eq_of_patient {s₁ s₂ : Sys ι} (h₁ : Reaches (Sys.step mapped) Patient Sys.init s₁)
    (h₂ : Reaches (Sys.step mapped) Patient Sys.init s₂) (hkeys : s₁.keys = s₂.keys)
    (hr₁ : s₁.input.r = s₁.input.w) (hr₂ : s₂.input.r = s₂.input.w) :
    s₁.delivered.flatten = s₂.delivered.flatten := by
  have hout₁ := (agrees_of_patient h₁).out
  have hout₂ := (agrees_of_patient h₂).out
  rw [Input.shown_of_eq hr₁, List.append_nil] at hout₁
  rw [Input.shown_of_eq hr₂, List.append_nil] at hout₂
  rw [← hout₁, ← hout₂, hkeys]

end

instance (s : Input) (c : UInt8) : Decidable (Harmless s c) :=
  inferInstanceAs (Decidable (_ ∨ _ ∨ _ ∨ _ ∨ _ ∨ _))

instance {ι : Type} (s : Sys ι) (m : Move ι) : Decidable (Patient s m) :=
  match m with
  | .key c => inferInstanceAs (Decidable (s.input.r = s.input.w ∨ Harmless s.input c))
  | .read _ _ | .run _ _ => inferInstanceAs (Decidable True)

/-- `{` is typed before or after the line has been read. -/
theorem delivered_eq_home : ∃ s₁ s₂ : Sys Unit,
    Reaches (Sys.step fun _ => true) Patient Sys.init s₁ ∧
      Reaches (Sys.step fun _ => true) Patient Sys.init s₂ ∧ s₁.keys = s₂.keys ∧
      s₁.delivered.flatten = ['a'.toUInt8, newline] ∧
      s₁.delivered.flatten = s₂.delivered.flatten := by
  obtain ⟨s₁, hreach₁, hkeys₁, hr₁, hbytes⟩ := exists_of_execAll (Sys.step fun _ => true) Patient
    (Sys.init : Sys Unit)
    [.key 'a'.toUInt8, .key newline, .read () 10, .run () false, .key startKey]
    (fun s => s.keys = ['a'.toUInt8, newline, startKey] ∧ s.input.r = s.input.w ∧
      s.delivered.flatten = ['a'.toUInt8, newline]) (by decide +kernel)
  obtain ⟨s₂, hreach₂, hkeys₂, hr₂⟩ := exists_of_execAll (Sys.step fun _ => true) Patient
    (Sys.init : Sys Unit)
    [.key 'a'.toUInt8, .key newline, .key startKey, .read () 10, .run () false]
    (fun s => s.keys = ['a'.toUInt8, newline, startKey] ∧ s.input.r = s.input.w)
    (by decide +kernel)
  have hkeys := hkeys₁.trans hkeys₂.symm
  exact ⟨s₁, s₂, hreach₁, hreach₂, hkeys, hbytes,
    delivered_eq_of_patient hreach₁ hreach₂ hkeys hr₁ hr₂⟩

/-- No end of file is typed, and there is room for everything that has been typed. -/
def Roomy {ι : Type} [DecidableEq ι] (s : Sys ι) (m : Move ι) : Prop :=
  m ≠ .key (ctrl 'D') ∧ s.input.e - s.input.r ≤ UInt32.ofNat INPUT_BUF

instance {ι : Type} [DecidableEq ι] (s : Sys ι) (m : Move ι) : Decidable (Roomy s m) :=
  inferInstanceAs (Decidable (_ ∧ _))

/-- The line `xbcd` is typed, with `x` put in at its start. If the line before has not been read
until then, it is delivered as `xbd` and a zero byte. -/
theorem delivered_ne_typeAhead : ∃ s₁ s₂ : Sys Unit,
    Reaches (Sys.step fun _ => true) Roomy Sys.init s₁ ∧
      Reaches (Sys.step fun _ => true) Roomy Sys.init s₂ ∧ s₁.keys = s₂.keys ∧
      s₁.input.r = s₁.input.w ∧ s₂.input.r = s₂.input.w ∧
      s₁.delivered.flatten ≠ s₂.delivered.flatten := by
  obtain ⟨s₁, hreach₁, hkeys₁, hr₁, hbytes₁⟩ := exists_of_execAll (Sys.step fun _ => true) Roomy
    (Sys.init : Sys Unit)
    [.key 'a'.toUInt8, .key newline, .read () 10, .run () false, .key 'b'.toUInt8,
      .key 'c'.toUInt8, .key 'd'.toUInt8, .key startKey, .key 'x'.toUInt8, .key newline,
      .read () 10, .run () false]
    (fun s => s.keys = "a\nbcd\x7bx\n".toList.map Char.toUInt8 ∧ s.input.r = s.input.w ∧
      s.delivered.flatten = "a\nxbcd\n".toList.map Char.toUInt8) (by decide +kernel)
  obtain ⟨s₂, hreach₂, hkeys₂, hr₂, hbytes₂⟩ := exists_of_execAll (Sys.step fun _ => true) Roomy
    (Sys.init : Sys Unit)
    [.key 'a'.toUInt8, .key newline, .key 'b'.toUInt8, .key 'c'.toUInt8, .key 'd'.toUInt8,
      .key startKey, .key 'x'.toUInt8, .read () 10, .run () false, .key newline,
      .read () 10, .run () false]
    (fun s => s.keys = "a\nbcd\x7bx\n".toList.map Char.toUInt8 ∧ s.input.r = s.input.w ∧
      s.delivered.flatten = "a\nxbd\x00\n".toList.map Char.toUInt8) (by decide +kernel)
  refine ⟨s₁, s₂, hreach₁, hreach₂, hkeys₁.trans hkeys₂.symm, hr₁, hr₂, ?_⟩
  rw [hbytes₁, hbytes₂]
  decide

end Xv6.Console
