import Xv6.Console.Line
import Xv6.Vm.Memory

/-!
# The console as a line editor

As long as fewer than `2 ^ 32` characters are typed, the indices do not wrap, and
`consoleintr` does with the line what a line editor does.
-/

namespace Xv6.Console
open Lib Function List UInt32

/-! ### The reference editor -/

/-- The editor after some keys, and the lines that have been committed. -/
structure Reference where
  editor : Editor := {}
  lines : List (List UInt8) := []
  deriving DecidableEq, Repr

def Reference.press (ref : Reference) (c : UInt8) : Reference where
  editor := (ref.editor.press (key c)).1
  lines := ref.lines ++ (ref.editor.press (key c)).2.toList

def reference (keys : List UInt8) : Reference := keys.foldl Reference.press {}

/-- How many characters have been typed. -/
def characters (keys : List UInt8) : ℕ := keys.countP fun c => (key c).stored

/-! ### The line in the ring -/

/-- The line of the editor is in the ring; `n` characters have been typed. -/
structure Input.Shows (n : ℕ) (s : Input) (ed : Editor) : Prop where
  ring : RingHolds (2 ^ 32) s.buf s.w.toNat ((s.w.toNat + ed.text.length) % 2 ^ 32) ed.text
  e : s.e.toNat = s.w.toNat + ed.left.length
  size : s.size.toNat = ed.text.length
  short : ed.text.length < INPUT_BUF
  bound : s.w.toNat + ed.text.length ≤ n
  clean : ∀ c ∈ ed.text, c ≠ newline ∧ c ≠ ctrl 'D'

section Keys
variable {n : ℕ} {s : Input} {ed : Editor} {mapped : UInt32 → Bool}

lemma Input.Shows.hasLine (h : s.Shows n ed) : s.HasLine ed where
  ring := h.ring
  e := by
    have he := h.e
    have hlt := s.e.toNat_lt
    apply UInt32.toNat_inj.mp
    rw [he, UInt32.toNat_add, UInt32.toNat_ofNat']
    omega
  size := by
    rw [← h.size, UInt32.ofNat_toNat]
  short := h.short
  clean := h.clean

/-- A line that has not wrapped. -/
lemma Input.HasLine.shows (h : s.HasLine ed) (hn : n < 2 ^ 32)
    (hbound : s.w.toNat + ed.text.length ≤ n) : s.Shows n ed where
  ring := h.ring
  e := by
    have hlength := ed.length_text
    rw [h.toNat_edit]
    omega
  size := by
    rw [h.size, toNat_ofNat']
    omega
  short := h.short
  bound := hbound
  clean := h.clean

/-- Where the indices do not wrap, a Backspace always does its work. -/
lemma Input.Shows.erased_eq (h : s.Shows n ed) :
    Input.HasLine.erased s ed = { ed with left := ed.left.dropLast } := by
  have he := h.e
  have hlt := s.e.toNat_lt
  rw [h.hasLine.erased_eq, if_pos (.inr (by omega))]

variable {c : UInt8}

/-- The characters that a key adds. -/
def Key.cost (k : Key) : ℕ := if k.stored then 1 else 0

/-- The console has committed a line, or has not. -/
def Input.Follows (t : Input) (wakeup : Bool) : Option (List UInt8) → Prop
  | none => wakeup = false ∧ t.r = t.w
  | some line => wakeup = true ∧ t.shown = line

lemma Input.Shows.press_end (h : s.Shows n ed) (hr : s.r = s.w) (hn : n + 1 < 2 ^ 32) {d : UInt8}
    (hzero : c ≠ 0) (hd : (if c = '\r'.toUInt8 then newline else c) = d) (hends : Input.Ends d)
    (hread : ∀ i < ed.right.length, mapped (s.e + UInt32.ofNat i) = true) :
    ∃ t, s.typed mapped c = some (t, true) ∧ t.Shows (n + 1) {} ∧
      t.shown = ed.text ++ [d].filter (· ≠ ctrl 'D') := by
  have hbound := h.bound
  obtain ⟨hempty, hpending⟩ := h.hasLine.commit hr d
  refine ⟨_, by rw [h.hasLine.typed_end hr hzero hd hends, if_pos hread], hempty.shows hn ?_, ?_⟩
  · change (s.last + 1).toNat + 0 ≤ n + 1
    rw [h.hasLine.last_eq hr, UInt32.toNat_add, UInt32.toNat_add, UInt32.toNat_ofNat',
      UInt32.toNat_one]
    omega
  have hclean : ed.text.filter (· ≠ ctrl 'D') = ed.text := by
    refine filter_eq_self.mpr fun b hb => ?_
    simpa using (h.clean b hb).2
  rw [Input.shown, hpending, filter_append, hclean]

lemma Input.Shows.press (h : s.Shows n ed) (hr : s.r = s.w) (hn : n + (key c).cost < 2 ^ 32)
    (hkill : key c ≠ .kill) (hroom : (key c).isChar = true → ed.text.length + 1 < INPUT_BUF)
    (hread : Readable mapped s c) : ∃ t wakeup, s.consoleintr mapped c = some (t, wakeup) ∧
      t.Shows (n + (key c).cost) (ed.press (key c)).1 ∧ t.Follows wakeup (ed.press (key c)).2 := by
  have hn' : n < 2 ^ 32 := by omega
  have hline := h.hasLine
  have hbound := h.bound
  have hlength := ed.length_text
  have hread' := hread
  rw [Readable, hline.behind hr] at hread'
  rw [consoleintr_eq]
  cases hkey : key c with
  | nothing => exact ⟨s, false, rfl, h, rfl, hr⟩
  | kill => exact absurd hkey hkill
  | backspace =>
    obtain ⟨hback, hr', hw'⟩ := hline.backspace hr
    rw [h.erased_eq] at hback
    refine ⟨_, _, rfl, hback.shows hn' ?_, rfl, by rw [hr', hw', hr]⟩
    rw [hw', Editor.length_text, length_dropLast]
    change _ + (_ + ed.right.length) ≤ n
    omega
  | clear =>
    refine ⟨_, _, rfl, Input.HasLine.clear.shows hn' ?_, rfl, hr⟩
    change s.w.toNat + 0 ≤ n
    omega
  | home =>
    refine ⟨_, _, rfl, hline.home.shows hn' ?_, rfl, hr⟩
    rwa [hline.home_eq]
  | toEnd =>
    refine ⟨s.setEdit s.last, false, ?_, (hline.setEdit_last hr).shows hn' ?_, rfl, hr⟩
    · rw [hline.toEnd hr, if_pos (hread' (.inl hkey))]
      rfl
    · rwa [Editor.text, append_nil]
  | enter =>
    have hends : Input.Ends newline := .inl rfl
    rw [hkey] at hn
    obtain ⟨t, ht, hshows, hshown⟩ : ∃ t, s.typed mapped c = some (t, true) ∧
        t.Shows (n + 1) {} ∧ t.shown = ed.text ++ [newline].filter (· ≠ ctrl 'D') := by
      rcases key_enter hkey with rfl | rfl
      · exact h.press_end hr hn (by decide) rfl hends (hread' (.inr (.inl hkey)))
      · exact h.press_end hr hn (by decide) rfl hends (hread' (.inr (.inl hkey)))
    exact ⟨t, true, ht, hshows, rfl, hshown⟩
  | eof =>
    rw [hkey] at hn
    obtain rfl := key_eof hkey
    obtain ⟨t, ht, hshows, hshown⟩ := h.press_end (c := ctrl 'D') hr hn
      (by decide) rfl (.inr rfl) (hread' (.inr (.inr hkey)))
    refine ⟨t, true, ht, hshows, rfl, hshown.trans ?_⟩
    exact append_nil _
  | char d =>
    rw [hkey] at hn
    obtain ⟨rfl, hzero, hreturn, hc⟩ := key_char hkey
    obtain ⟨t, ht, hr', hw', hput⟩ :=
      hline.typed_char mapped hr (hroom (by rw [hkey]; rfl)) hzero hreturn hc
    refine ⟨t, false, ht, hput.shows hn ?_, rfl, by rw [hr', hw', hr]⟩
    rw [hw', Editor.length_text, length_append, length_singleton]
    change _ + (_ + ed.right.length) ≤ n + 1
    omega

end Keys

/-! ### All runs -/

section Runs
variable {ι : Type} {mapped : UInt32 → Bool} {s s' : Sys ι} {c : UInt8}

/-- Each line has been read before the next key, `^U` is not used, and lines and the session are
not too long. -/
def Tidy (s : Sys ι) : Move ι → Prop
  | .key c => s.input.r = s.input.w ∧ key c ≠ .kill ∧
      ((key c).isChar = true → (reference s.keys).editor.text.length + 1 < INPUT_BUF) ∧
      characters (s.keys ++ [c]) < 2 ^ 32
  | _ => True

/-- What the kernel reads to show the rest of the line is mapped. -/
def InMemory (mapped : UInt32 → Bool) (s : Sys ι) : Move ι → Prop
  | .key c => Readable mapped s.input c
  | _ => True

/-- The console is where the reference editor is. -/
structure Edits (s : Sys ι) : Prop where
  alive : s.panicked = false
  shows : s.input.Shows (characters s.keys) (reference s.keys).editor
  idle : s.input.r = s.input.w ∨ (reference s.keys).editor = {}
  lines : ∃ ls part, s.delivered = ls ++ [part] ∧
    [] :: (reference s.keys).lines = ls ++ [part ++ s.input.shown]

lemma characters_append (keys : List UInt8) :
    characters (keys ++ [c]) = characters keys + (key c).cost := by
  rw [characters, countP_append, countP_singleton]
  rfl

lemma reference_append (keys : List UInt8) :
    reference (keys ++ [c]) = (reference keys).press c := by
  rw [reference, foldl_append]
  rfl

lemma Edits.delivered_eq (h : Edits s) (hr : s.input.r = s.input.w) :
    s.delivered = [] :: (reference s.keys).lines := by
  obtain ⟨ls, part, hdelivered, hlines⟩ := h.lines
  rw [hlines, Input.shown_of_eq hr, append_nil, hdelivered]

lemma Edits.key (h : Edits s) (hc : Tidy s (.key c)) (hread : Readable mapped s.input c) :
    Edits (s.key mapped c) := by
  obtain ⟨hr, hkill, hroom, hchars⟩ := hc
  rw [characters_append] at hchars
  have hdelivered := h.delivered_eq hr
  obtain ⟨t, wakeup, ht, hshows, hfollows⟩ := h.shows.press hr hchars hkill hroom hread
  unfold Sys.key
  rw [ht]
  refine ⟨h.alive, ?_, ?_, ?_⟩
  · rwa [Sys.handled_keys, characters_append, reference_append]
  · rw [Sys.handled_keys, reference_append]
    change t.r = t.w ∨ ((reference s.keys).editor.press (Console.key c)).1 = {}
    cases hkey : Console.key c with
    | enter | eof => exact .inr rfl
    | _ =>
      rw [hkey] at hfollows
      exact .inl hfollows.2
  rw [Sys.handled_keys, reference_append]
  change ∃ ls part, (if wakeup then s.delivered ++ [[]] else s.delivered) = ls ++ [part] ∧
    [] :: ((reference s.keys).lines ++ ((reference s.keys).editor.press (Console.key c)).2.toList) =
      ls ++ [part ++ t.shown]
  cases hpress : ((reference s.keys).editor.press (Console.key c)).2 with
  | none =>
    rw [hpress] at hfollows
    obtain ⟨rfl, hr'⟩ := hfollows
    obtain ⟨ls, part, hls, hlines⟩ := h.lines
    refine ⟨ls, part, hls, ?_⟩
    rw [Input.shown_of_eq hr] at hlines
    rwa [Input.shown_of_eq hr', Option.toList_none, append_nil]
  | some line =>
    rw [hpress] at hfollows
    obtain ⟨rfl, rfl⟩ := hfollows
    refine ⟨s.delivered, [], rfl, ?_⟩
    rw [hdelivered]
    rfl

lemma consoleread_of_eq {t : Input} (target n : ℕ) (h : t.r = t.w) :
    (consoleread target n t).1 = t := by
  cases n with
  | zero => rfl
  | succ n => rw [consoleread, if_pos h]

variable [DecidableEq ι]

lemma Edits.run (h : Edits s) (i : ι) (killed : Bool) (target n : ℕ) :
    Edits (s.run i killed target n) := by
  have hreads := consoleread_spec target n s.input
  have hdeliver : Edits (s.deliver (consoleread target n s.input).1
      (consoleread target n s.input).2.1) := by
    refine ⟨h.alive, ?_, ?_, ?_⟩
    · obtain ⟨hring, he, hsize, hshort, hbound, hclean⟩ := h.shows
      refine ⟨?_, ?_, ?_, hshort, ?_, hclean⟩
      · rwa [Sys.deliver_input, hreads.buf, hreads.w]
      · rwa [Sys.deliver_input, hreads.e, hreads.w]
      · rwa [Sys.deliver_input, hreads.size]
      · rwa [Sys.deliver_input, hreads.w]
    · refine h.idle.imp (fun hr => ?_) id
      rwa [Sys.deliver_input, consoleread_of_eq target n hr]
    obtain ⟨ls, part, hls, hlines⟩ := h.lines
    refine ⟨ls, part ++ (consoleread target n s.input).2.1, ?_, ?_⟩
    · rw [Sys.deliver_delivered, hls, addLast_append]
    · rwa [append_assoc, Sys.deliver_input, ← hreads.shown]
  unfold Sys.run
  dsimp only
  split
  · exact ⟨hdeliver.alive, hdeliver.shows, hdeliver.idle, hdeliver.lines⟩
  · exact ⟨hdeliver.alive, hdeliver.shows, hdeliver.idle, hdeliver.lines⟩

lemma Edits.step (h : Edits s) {m : Move ι} (hm : Tidy s m ∧ InMemory mapped s m)
    (hstep : s.step mapped m = some s') : Edits s' := by
  cases Moved.of_step hstep with
  | key => exact h.key hm.1 hm.2
  | read => exact ⟨h.alive, h.shows, h.idle, h.lines⟩
  | run => exact h.run _ _ _ _

/-- In a tidy run in which the kernel can read what it shows, the lines that are delivered are
those of the reference editor; and a key for which it cannot ends in a panic. -/
theorem console_edits_lines
    (h : Reaches (Sys.step mapped) (fun s m => Tidy s m ∧ InMemory mapped s m) Sys.init s) :
    s.panicked = false ∧ (s.input.r = s.input.w → s.delivered = [] :: (reference s.keys).lines) ∧
      ∀ c, Tidy s (.key c) → ((s.key mapped c).panicked = true ↔ ¬ InMemory mapped s (.key c)) := by
  have hedits : Edits s := by
    refine h.invariant (fun s s' m hs hm hstep => hs.step hm hstep) ?_
    refine ⟨rfl, ?_, .inl rfl, [], [], rfl, by rw [Input.shown_of_eq rfl]; rfl⟩
    have hpos : 0 < INPUT_BUF := by decide
    exact ⟨(RingHolds.nil (toNat_lt _)).tail_mod, rfl, rfl, hpos, Nat.zero_le _, nofun⟩
  refine ⟨hedits.alive, hedits.delivered_eq, fun c hc => ⟨fun hpanic hread => ?_, fun hread => ?_⟩⟩
  · have hkey : Edits (s.key mapped c) := hedits.key hc hread
    have halive := hkey.alive
    rw [halive] at hpanic
    cases hpanic
  obtain ⟨hr, -⟩ := hc
  unfold Sys.key
  have hnone : s.input.consoleintr mapped c = none := by
    rwa [InMemory, ← hedits.shows.hasLine.isSome_iff hr, Option.not_isSome_iff_eq_none] at hread
  rw [hnone]
  rfl

end Runs

instance {ι : Type} (s : Sys ι) (m : Move ι) : Decidable (Tidy s m) :=
  match m with
  | .key _ => inferInstanceAs (Decidable (_ ∧ _ ∧ (_ → _) ∧ _))
  | .read _ _ | .run _ _ => inferInstanceAs (Decidable True)

/-- `ab`, then `x` at the start of the line and a newline. -/
theorem console_edits_line_xab : ∃ s : Sys Unit,
    Reaches (Sys.step fun _ => true) (fun s m => Tidy s m ∧ InMemory (fun _ => true) s m)
      Sys.init s ∧ (reference s.keys).lines = ["xab\n".toList.map Char.toUInt8] ∧
      s.delivered = [] :: (reference s.keys).lines := by
  obtain ⟨s, hreach, hr, hlines⟩ := exists_of_execAll (Sys.step fun _ => true) Tidy
    (Sys.init : Sys Unit)
    [.key 'a'.toUInt8, .key 'b'.toUInt8, .key startKey, .key 'x'.toUInt8, .key newline, .read () 9,
      .run () false]
    (fun s => s.input.r = s.input.w ∧
      (reference s.keys).lines = ["xab\n".toList.map Char.toUInt8]) (by decide +kernel)
  have hreach' : Reaches (Sys.step fun _ => true)
      (fun s m => Tidy s m ∧ InMemory (fun _ => true) s m) Sys.init s := by
    refine hreach.mono fun s m hm => ⟨hm, ?_⟩
    cases m with
    | key c => exact fun _ _ _ => rfl
    | read | run => trivial
  exact ⟨s, hreach', hlines, (console_edits_lines hreach').2.1 hr⟩

/-! ### A fault -/

/-- What the kernel maps from `input.buf` on, if that is at address `buf`: physical memory up to
`PHYSTOP`, and the devices. -/
def kernelMapped (buf : UInt32) (e : UInt32) : Bool :=
  let a := (buf + e).toNat
  Vm.KERNBASE ≤ a ∧ a < Vm.KERNBASE + Vm.PHYSTOP ∨ Vm.DEVSPACE ≤ a

/-- Nothing has been typed in the line, and everything has been read. -/
def fresh (buf : Fin INPUT_BUF → UInt8) (p : UInt32) : Input := ⟨buf, p, p, p, 0⟩

section Fault
variable (mapped : UInt32 → Bool) (buf : Fin INPUT_BUF → UInt8) (p : UInt32) {c : UInt8}

lemma fresh_last : (fresh buf p).last = p := UInt32.add_zero p

lemma fresh_typed (hzero : c ≠ 0) (hreturn : c ≠ '\r'.toUInt8) : (fresh buf p).typed mapped c =
      if Input.Ends c then some (⟨update buf (cell p) c, p, p + 1, p + 1, 0⟩, true)
      else some (⟨update buf (cell p) c, p, p, p + 1, 1⟩, false) := by
  have hroom : (fresh buf p).e - (fresh buf p).r < ofNat INPUT_BUF := by
    simp [fresh, INPUT_BUF]
  have hend : (fresh buf p).e = (fresh buf p).last := (fresh_last buf p).symm
  have hsize : ((fresh buf p).store c).size ≠ ofNat INPUT_BUF :=
    show (0 : UInt32) + 1 ≠ ofNat INPUT_BUF by decide
  rw [typed_eq hzero hroom (if_neg hreturn), if_pos hend, Option.bind_some]
  by_cases hends : Input.Ends c
  · rw [if_pos hends, if_pos (.inl hends)]
    rfl
  · rw [if_neg hends, if_neg (not_or.mpr ⟨hends, hsize⟩)]
    rfl

lemma one_back : (p + 1 - p).toNat = 1 := by
  rw [UInt32.add_comm, UInt32.add_sub_cancel]
  rfl

lemma home_one (hc : c ≠ newline) :
    Input.home ⟨update buf (cell p) c, p, p, p + 1, 1⟩ = ⟨update buf (cell p) c, p, p, p, 1⟩ := by
  have hprev : p + 1 - 1 = p := UInt32.add_sub_cancel p 1
  have hone := one_back p
  simp_all [Input.home, Input.setEdit, rewind]

lemma toEnd_one (hp : mapped p = false) : Input.toEnd mapped ⟨buf, p, p, p, 1⟩ = none := by
  have hone := one_back p
  simp_all [Input.toEnd, Input.last, forward]

lemma consoleread_newline : consoleread 1 1 ⟨update buf (cell p) newline, p, p + 1, p + 1, 0⟩ =
      (fresh (update buf (cell p) newline) (p + 1), [newline], .done) := by
  have hne : p ≠ p + 1 := by
    intro heq
    have hone := one_back p
    rw [← heq, UInt32.sub_self] at hone
    cases hone
  have hfront : newline ≠ ctrl 'D' := by decide
  simp [consoleread, hne, Input.front, Input.drop, fresh, hfront]

lemma exists_fresh {k : ℕ} (hk : k < 2 ^ 32) : ∃ (s : Sys Unit) (buf : Fin INPUT_BUF → UInt8),
    Reaches (Sys.step mapped) Tidy Sys.init s ∧ s.panicked = false ∧
      s.input = fresh buf (ofNat k) ∧ s.place () = .outside ∧ characters s.keys = k ∧
      (reference s.keys).editor = {} := by
  induction k with
  | zero => exact ⟨Sys.init, fun _ => 0, .refl, rfl, rfl, rfl, rfl, rfl⟩
  | succ k ih =>
    obtain ⟨s, buf, hreach, halive, hinput, hplace, hchars, heditor⟩ := ih (by omega)
    have hintr : s.input.consoleintr mapped newline =
        some (⟨update buf (cell (ofNat k)) newline, ofNat k,
          ofNat k + 1, ofNat k + 1, 0⟩, true) := by
      rw [hinput, consoleintr_eq]
      exact (fresh_typed mapped buf _ (by decide) (by decide)).trans (if_pos (.inl rfl))
    have htidy : Tidy s (.key newline) := by
      refine ⟨by rw [hinput]; rfl, by decide, fun h => absurd h (by decide), ?_⟩
      rwa [characters_append, hchars]
    generalize hbuf : update buf (cell (ofNat k)) newline = buf' at hintr
    let s₁ := s.handled newline ⟨buf', ofNat k, ofNat k + 1, ofNat k + 1, 0⟩ true
    let s₂ := s₁.go () (.reading 1 1)
    let s₃ := (s₂.deliver (fresh buf' (ofNat k + 1)) [newline]).go () .outside
    have h₁ : s.step mapped (.key newline) = some s₁ := by
      simp [Sys.step, halive, Sys.key, hintr, s₁]
    have h₂ : s₁.step mapped (.read () 1) = some s₂ := by
      simp [Sys.step, halive, hplace, Place.wakeup, s₁, s₂]
    have h₃ : s₂.step mapped (.run () false) = some s₃ := by
      have hread := consoleread_newline buf (ofNat k)
      rw [hbuf] at hread
      simp [Sys.step, halive, Sys.run, hread, s₁, s₂, s₃]
    have hreach₃ := ((hreach.tail ⟨_, htidy, h₁⟩).tail ⟨.read () 1, trivial, h₂⟩).tail
        ⟨.run () false, trivial, h₃⟩
    have hkeys : s₃.keys = s.keys ++ [newline] := rfl
    refine ⟨s₃, buf', hreach₃, halive, ?_, rfl, ?_, ?_⟩
    · rw [ofNat_add]
      rfl
    · rw [hkeys, characters_append, hchars]
      rfl
    · rw [hkeys, reference_append]
      rfl

/-- A letter is typed, and then `{` and `}`, when the next cell of `input.buf` without the
remainder is not mapped. -/
lemma exists_panic {k : ℕ} (hk : k + 1 < 2 ^ 32) (hmapped : mapped (ofNat k) = false) :
    ∃ s : Sys Unit, Reaches (Sys.step mapped) Tidy Sys.init s ∧ s.panicked = true := by
  obtain ⟨s, buf, hreach, halive, hinput, -, hchars, heditor⟩ :=
    exists_fresh mapped (by omega : k < _)
  generalize ofNat k = p at hinput hmapped
  have hintr₁ : s.input.consoleintr mapped 'a'.toUInt8 =
      some (⟨update buf (cell p) 'a'.toUInt8, p, p, p + 1, 1⟩, false) := by
    rw [hinput, consoleintr_eq]
    exact (fresh_typed mapped buf p (by decide) (by decide)).trans (if_neg (by decide))
  generalize hbuf : update buf (cell p) 'a'.toUInt8 = buf' at hintr₁
  let s₁ := s.handled 'a'.toUInt8 ⟨buf', p, p, p + 1, 1⟩ false
  let s₂ := s₁.handled startKey ⟨buf', p, p, p, 1⟩ false
  let s₃ := s₂.panic endKey
  have h₁ : s.step mapped (.key 'a'.toUInt8) = some s₁ := by
    simp [Sys.step, halive, Sys.key, hintr₁, s₁]
  have h₂ : s₁.step mapped (.key startKey) = some s₂ := by
    have hhome := home_one buf p (c := 'a'.toUInt8) (by decide)
    rw [hbuf] at hhome
    have hintr : s₁.input.consoleintr mapped startKey = some (⟨buf', p, p, p, 1⟩, false) := by
      rw [consoleintr_eq]
      exact congrArg (fun t => some (t, false)) hhome
    simp only [Sys.step, Sys.key, hintr]
    simp [halive, s₁, s₂]
  have h₃ : s₂.step mapped (.key endKey) = some s₃ := by
    have hintr : s₂.input.consoleintr mapped endKey = none := by
      rw [consoleintr_eq]
      exact congrArg (Option.map fun t => (t, false)) (toEnd_one mapped buf' p hmapped)
    simp only [Sys.step, Sys.key, hintr]
    simp [halive, s₁, s₂, s₃]
  have htidy₁ : Tidy s (.key 'a'.toUInt8) := by
    refine ⟨by rw [hinput]; rfl, by decide, fun _ => ?_, ?_⟩
    · rw [heditor]
      decide
    · rwa [characters_append, hchars]
  have hchars₁ : characters s₁.keys = k + 1 := by
    rw [Sys.handled_keys, characters_append, hchars]
    rfl
  have htidy₂ : Tidy s₁ (.key startKey) := by
    refine ⟨rfl, by decide, fun h => absurd h (by decide), ?_⟩
    rwa [characters_append, hchars₁]
  have htidy₃ : Tidy s₂ (.key endKey) := by
    refine ⟨rfl, by decide, fun h => absurd h (by decide), ?_⟩
    rwa [characters_append, Sys.handled_keys, characters_append, hchars₁]
  exact ⟨s₃, ((hreach.tail ⟨_, htidy₁, h₁⟩).tail ⟨_, htidy₂, h₂⟩).tail ⟨_, htidy₃, h₃⟩, rfl⟩

end Fault

/-- After `0xE000000` characters the end of the line is shown from an address behind the memory
of the machine. -/
theorem console_faults : ∃ s : Sys Unit,
    Reaches (Sys.step (kernelMapped 0x8010b520)) Tidy Sys.init s ∧ s.panicked = true :=
  exists_panic _ (k := 0xE000000) (by decide) (by decide)

end Xv6.Console
