import Xv6.Console.Kill

/-!
# Full lines and unread input

A line is committed when it has as many characters as the ring has cells. The write
index is then put at the cursor, so that the characters behind it are lost. And the end
of the line is taken to be at `input.r + input.size`, which is among the bytes that have
not been read if there are more of them than characters in the line.
-/

namespace Xv6.Console
open Lib UInt32

variable {s t : Input} {ed : Editor} {mapped : UInt32 → Bool} {c : UInt8} {woken : Bool}

/-! ### Lines when everything has been read -/

/-- The line with the character that makes it full. -/
def Editor.completed (ed : Editor) (c : UInt8) : List UInt8 :=
  match key c with
  | .enter => ed.text ++ [newline]
  | .eof => ed.text ++ [ctrl 'D']
  | .char d => ed.left ++ d :: ed.right
  | _ => ed.text

/-- The cursor is at the end of the line, or is taken there and what is shown on the way can be
read. -/
def Whole (mapped : UInt32 → Bool) (s : Input) (ed : Editor) (c : UInt8) : Prop :=
  if (key c).isChar then ed.right = []
  else ∀ i < ed.right.length, mapped (s.e + UInt32.ofNat i) = true

namespace Input.HasLine

lemma typed_full (mapped : UInt32 → Bool) (h : s.HasLine ed) (hr : s.r = s.w)
    (hfull : ed.text.length + 1 = INPUT_BUF)
    (hzero : c ≠ 0) (hreturn : c ≠ '\r'.toUInt8) (hc : c ≠ newline ∧ c ≠ ctrl 'D') :
    ∃ t, s.typed mapped c = some (t, true) ∧ t.HasLine {} ∧ t.pending = ed.left ++ [c] := by
  obtain ⟨t, hbuf, hr', hw, he, hsize, ht⟩ := h.typed_ordinary mapped hr hzero hreturn hc
  have hlt := h.text_lt
  have hlength := ed.length_text
  refine ⟨t.commit, ?_, empty rfl rfl, ?_⟩
  · rw [ht, if_pos]
    rw [hsize, h.size, ← hfull, ofNat_add]
    rfl
  have hring := h.ring_put c
  rw [← hbuf, ← hr, ← hr', ← List.singleton_append, ← List.append_assoc] at hring
  refine pending_of_ring ?_ hring.take ?_
  · rw [List.length_append, List.length_singleton]
    omega
  change t.e = t.r + _
  rw [he, h.e, hr', hr, List.length_append, List.length_singleton, ofNat_add, UInt32.add_assoc]
  rfl

/-- A line that gets full is committed whole only if the cursor is at its end. -/
lemma completed_iff (h : s.HasLine ed) (hr : s.r = s.w) (hfull : ed.text.length + 1 = INPUT_BUF)
    (hc : (key c).stored = true) :
    (∃ t, s.consoleintr mapped c = some (t, true) ∧ t.pending = ed.completed c) ↔
      Whole mapped s ed c := by
  have hends : ∀ d, c ≠ 0 → (if c = '\r'.toUInt8 then newline else c) = d → Input.Ends d →
      ((∃ t, s.typed mapped c = some (t, true) ∧ t.pending = ed.text ++ [d]) ↔
        ∀ i < ed.right.length, mapped (s.e + ofNat i) = true) := by
    intro d hzero hd hends
    rw [h.typed_end hr hzero hd hends]
    split
    · rename_i hmapped
      exact iff_of_true ⟨_, rfl, (h.commit hr d).2⟩ hmapped
    · rename_i hmapped
      exact iff_of_false (fun ⟨t, ht, _⟩ => nomatch ht) hmapped
  rw [consoleintr_eq, Whole, Editor.completed]
  cases hkey : key c with
  | enter =>
    rcases key_enter hkey with rfl | rfl
    · exact hends newline (by decide) rfl (.inl rfl)
    · exact hends newline (by decide) rfl (.inl rfl)
  | eof =>
    obtain rfl := key_eof hkey
    exact hends (ctrl 'D') (by decide) rfl (.inr rfl)
  | char d =>
    obtain ⟨rfl, hzero, hreturn, hc⟩ := key_char hkey
    obtain ⟨t, ht, -, hpending⟩ := h.typed_full mapped hr hfull hzero hreturn hc
    rw [ht]
    constructor
    · rintro ⟨t', ht', hwhole⟩
      obtain ⟨rfl, -⟩ := Prod.mk.inj (Option.some.inj ht')
      rw [hpending, List.append_cancel_left_eq] at hwhole
      exact (List.cons.inj hwhole).2.symm
    intro hright
    refine ⟨t, rfl, ?_⟩
    rw [hpending, show ed.right = [] from hright]
  | _ => rw [hkey] at hc; cases hc

/-- There is a line after every key. -/
lemma after_key (h : s.HasLine ed) (hr : s.r = s.w)
    (ht : s.consoleintr mapped c = some (t, woken)) : ∃ ed', t.HasLine ed' := by
  cases Input.Pressed.of_some ht with
  | nothing | dropped => exact ⟨ed, h⟩
  | home => exact ⟨_, h.home⟩
  | backspace => exact ⟨_, (h.backspace hr).1⟩
  | clear => exact ⟨_, clear⟩
  | toEnd => exact ⟨_, h.setEdit_last hr⟩
  | ends => exact ⟨_, (h.commit hr _).1⟩
  | char hkey hzero hreturn hc htyped =>
    by_cases hfull : ed.text.length + 1 = INPUT_BUF
    · obtain ⟨t', ht', hline, -⟩ := h.typed_full mapped hr hfull hzero hreturn hc
      obtain ⟨rfl, -⟩ := Prod.mk.inj (Option.some.inj (htyped.symm.trans ht'))
      exact ⟨_, hline⟩
    obtain ⟨t', ht', -, -, hline⟩ := h.typed_char mapped hr
      (Nat.lt_of_le_of_ne h.short hfull) hzero hreturn hc
    obtain ⟨rfl, -⟩ := Prod.mk.inj (Option.some.inj (htyped.symm.trans ht'))
    exact ⟨_, hline⟩

lemma of_reads {bytes : List UInt8} (h : s.HasLine ed) (hreads : s.Reads bytes t) :
    t.HasLine ed where
  ring := by
    rw [hreads.buf, hreads.w]
    exact h.ring
  e := by
    rw [hreads.e, hreads.w]
    exact h.e
  size := hreads.size.trans h.size
  short := h.short
  clean := h.clean

end Input.HasLine

/-- A key arrives when everything that has been committed has been read. -/
def Drained {ι : Type} (s : Sys ι) : Move ι → Prop
  | .key _ => s.input.r = s.input.w
  | _ => True

section Runs
variable {ι : Type} [DecidableEq ι]

lemma Sys.run_input (s : Sys ι) (i : ι) (killed : Bool) (target n : ℕ) :
    (s.run i killed target n).input = (consoleread target n s.input).1 := by
  unfold Sys.run
  dsimp only
  split <;> rfl

lemma drained_hasLine {s : Sys ι} (h : Reaches (Sys.step mapped) Drained Sys.init s) :
    ∃ ed, s.input.HasLine ed := by
  refine h.invariant (I := fun s => ∃ ed, s.input.HasLine ed) ?_ ⟨{}, .empty rfl rfl⟩
  rintro s s' m ⟨ed, hline⟩ hok hstep
  cases Moved.of_step hstep with
  | @key c =>
    unfold Sys.key
    split
    · exact ⟨ed, hline⟩
    rename_i ht
    exact hline.after_key hok ht
  | read => exact ⟨ed, hline⟩
  | @run i killed target n =>
    rw [Sys.run_input]
    exact ⟨ed, hline.of_reads (consoleread_spec target n s.input)⟩

end Runs

/-! ### Unread input -/

lemma turns_add_sub_add (x : UInt32) {a b : ℕ} (ha : a < 2 ^ 31) (hb : b < 2 ^ 31) :
    (x + UInt32.ofNat a - (x + UInt32.ofNat b)).toInt32.toInt.toNat = a - b := by
  change (x + UInt32.ofNat a - (x + UInt32.ofNat b)).toBitVec.toInt.toNat = _
  by_cases hle : b ≤ a
  · have hcount : (x + UInt32.ofNat a - (x + UInt32.ofNat b)).toBitVec.toNat = a - b :=
      toNat_add_sub_add x hle (by omega)
    rw [BitVec.toInt_eq_toNat_of_lt (by omega), hcount]
    rfl
  have hcount : (x + UInt32.ofNat a - (x + UInt32.ofNat b)).toBitVec.toNat = 2 ^ 32 - (b - a) := by
    change (x + UInt32.ofNat a - (x + UInt32.ofNat b)).toNat = _
    rw [UInt32.toNat_sub, UInt32.toNat_add, UInt32.toNat_add, UInt32.toNat_ofNat', toNat_ofNat']
    omega
  rw [BitVec.toInt_eq_toNat_cond, if_neg (by omega), hcount]
  omega

/-- The write index is `u` places behind the read index, and the edit index `k` behind that. -/
structure Input.Spans (s : Input) (u k n : ℕ) : Prop where
  w : s.w = s.r + UInt32.ofNat u
  e : s.e = s.r + UInt32.ofNat (u + k)
  size : s.size = UInt32.ofNat n
  room : u + k ≤ INPUT_BUF
  cursor : k ≤ n
  short : n < INPUT_BUF

/-- The first `u` bytes from index `r` on are the same. -/
def Same (r : UInt32) (u : ℕ) (buf buf' : Fin INPUT_BUF → UInt8) : Prop :=
  ∀ i < u, buf' (cell (r + UInt32.ofNat i)) = buf (cell (r + UInt32.ofNat i))

section
variable {r : UInt32} {u : ℕ} {buf buf' buf'' : Fin INPUT_BUF → UInt8}

lemma Same.trans (h : Same r u buf buf') (h' : Same r u buf' buf'') : Same r u buf buf'' :=
  fun i hi => (h' i hi).trans (h i hi)

lemma same_update {j : ℕ} (hj : u ≤ j) (hlt : j < INPUT_BUF) (c : UInt8) :
    Same r u buf (Function.update buf (cell (r + ofNat j)) c) := by
  intro i hi
  rw [cell_add, cell_add]
  exact Function.update_of_ne (RingHolds.ofNat_mod_ne dvd_two_pow (by omega) hlt) _ _

lemma same_shiftUp {a n : ℕ} (ha : u ≤ a) (hlt : a + n < INPUT_BUF) :
    Same r u buf (shiftUp (2 ^ 32) (r + UInt32.ofNat a).toNat n buf) := by
  intro i hi
  rw [UInt32.toNat_add, UInt32.toNat_ofNat', Nat.add_mod_mod, shiftUp_mod, cell_add,
    RingHolds.shiftUp_apply dvd_two_pow hlt (by omega), if_neg (by omega)]

lemma same_shiftDown {a n : ℕ} (ha : u ≤ a) (hlt : a + n < INPUT_BUF) :
    Same r u buf (shiftDown (2 ^ 32) (r + UInt32.ofNat a).toNat n buf) := by
  intro i hi
  rw [UInt32.toNat_add, UInt32.toNat_ofNat', Nat.add_mod_mod, shiftDown_mod, cell_add,
    RingHolds.shiftDown_apply dvd_two_pow hlt (by omega), if_neg (by omega)]

end

/-- The unread bytes stay where they are, and unread. -/
structure Input.Keeps (s : Input) (u : ℕ) (t : Input) : Prop where
  r : t.r = s.r
  same : Same s.r u s.buf t.buf
  spans : ∃ u' k n, u ≤ u' ∧ t.Spans u' k n

namespace Input.Spans

variable {u k n : ℕ}

section
variable (h : s.Spans u k n)
include h

lemma cursor_lt : k ≤ n ∧ n < 128 ∧ u + k ≤ 128 := ⟨h.cursor, h.short, h.room⟩

lemma last_eq : s.last = s.r + ofNat n := by
  rw [Input.last, h.size]

lemma unread : (s.w - s.r).toNat = u := by
  have hlt := h.cursor_lt
  have hcount := toNat_add_sub_add s.r (Nat.zero_le u) (by omega)
  rw [h.w]
  simpa using hcount

lemma edit_sub : (s.e - s.r).toNat = u + k := by
  have hlt := h.cursor_lt
  have hcount := toNat_add_sub_add s.r (Nat.zero_le (u + k)) (by omega)
  rw [h.e]
  simpa using hcount

lemma size_toNat : s.size.toNat = n := by
  have hlt := h.cursor_lt
  rw [h.size, toNat_ofNat_of_lt']
  change n < 2 ^ 32
  omega

lemma at_start : s.e = s.w ↔ k = 0 := by
  have hlt := h.cursor_lt
  rw [h.w, h.e, add_ofNat_inj s.r (by omega) (by omega)]
  omega

lemma setEdit {j : ℕ} {e : UInt32} (he : e = s.r + ofNat (u + j))
    (hroom : u + j ≤ INPUT_BUF) (hj : j ≤ n) : (s.setEdit e).Spans u j n :=
  ⟨h.w, he, h.size, hroom, hj, h.short⟩

end

/-- No cell is written to, and nothing is committed. -/
lemma keeps {k' n' : ℕ} (h : t.Spans u k' n') (hr : t.r = s.r) (hbuf : t.buf = s.buf) :
    s.Keeps u t :=
  ⟨hr, fun _ _ => by rw [hbuf], u, k', n', le_rfl, h⟩

lemma clear (h : s.Spans u k n) : s.Keeps u s.clear := by
  have hlt := h.cursor_lt
  have hclear : s.clear.Spans u 0 0 := by
    refine ⟨h.w, h.w, rfl, ?_, le_rfl, by decide⟩
    change u + 0 ≤ 128
    omega
  exact hclear.keeps rfl rfl

lemma shrink (h : s.Spans u (k + 1) (n + 1)) : s.shrink.Spans u k n := by
  have hlt := h.cursor_lt
  refine ⟨h.w, ?_, ?_, ?_, ?_, ?_⟩
  · rw [Input.shrink_e, h.e, ← Nat.add_assoc, UInt32.ofNat_add, ← UInt32.add_assoc]
    exact UInt32.add_sub_cancel _ _
  · rw [Input.shrink_size, h.size, ofNat_add]
    exact UInt32.add_sub_cancel _ _
  · change u + k ≤ 128
    omega
  · omega
  · change n < 128
    omega

end Input.Spans

lemma rewind_le (buf : Fin INPUT_BUF → UInt8) (x : UInt32) (j : ℕ) :
    ∃ i ≤ j, rewind buf j (x + UInt32.ofNat j) = x + UInt32.ofNat i := by
  induction j with
  | zero => exact ⟨0, le_rfl, rfl⟩
  | succ j ih =>
    have hprev : x + UInt32.ofNat (j + 1) - 1 = x + UInt32.ofNat j := by
      rw [UInt32.ofNat_add, ← UInt32.add_assoc]
      exact UInt32.add_sub_cancel _ _
    rw [rewind, hprev]
    split
    · exact ⟨j + 1, le_rfl, rfl⟩
    obtain ⟨i, hi, heq⟩ := ih
    exact ⟨i, by omega, heq⟩

namespace Input.Spans

variable {u k n : ℕ}

section
variable (h : s.Spans u k n)
include h

lemma home : s.Keeps u s.home := by
  have hlt := h.cursor_lt
  have hcount : (s.e - s.w).toNat = k := by
    rw [h.e, h.w, toNat_add_sub_add s.r (by omega) (by omega)]
    omega
  have he : s.e = s.w + UInt32.ofNat k := by
    rw [h.e, h.w, UInt32.ofNat_add, UInt32.add_assoc]
  obtain ⟨i, hi, hrewind⟩ := rewind_le s.buf s.w k
  refine (h.setEdit (j := i) ?_ ?_ (by omega)).keeps rfl rfl
  · rw [hcount, he, hrewind, h.w, UInt32.ofNat_add, UInt32.add_assoc]
  · change u + i ≤ 128
    omega

lemma setEdit_last (hcalm : u + k ≤ n) : (s.setEdit s.last).Spans u (n - u) n := by
  have hlt := h.cursor_lt
  have hsum : u + (n - u) = n := by omega
  refine h.setEdit ?_ ?_ (Nat.sub_le n u)
  · rw [hsum]
    exact h.last_eq
  · change u + (n - u) ≤ 128
    omega

/-- A newline or the end of the file is put behind the line, which is then committed. -/
lemma commit (hcalm : u + k ≤ n) (d : UInt8) : s.Keeps u ((s.setEdit s.last).store d).commit := by
  refine ⟨rfl, ?_, n + 1, 0, 0, by omega, ?_⟩
  · have hsame : Same s.r u s.buf (Function.update s.buf (cell (s.r + UInt32.ofNat n)) d) :=
      same_update (by omega) h.short d
    rwa [← h.last_eq] at hsame
  have hnext : s.last + 1 = s.r + UInt32.ofNat (n + 1) := by
    rw [h.last_eq, UInt32.ofNat_add, UInt32.add_assoc]
    rfl
  exact ⟨hnext, hnext, rfl, h.short, le_rfl, by decide⟩

lemma char (hzero : c ≠ 0) (hreturn : c ≠ '\r'.toUInt8)
    (hc : c ≠ newline ∧ c ≠ ctrl 'D') (ht : s.typed mapped c = some (t, woken)) : s.Keeps u t := by
  have hlt := h.cursor_lt
  by_cases hroom : s.e - s.r < UInt32.ofNat INPUT_BUF
  · obtain ⟨t', hbuf, hr, hw, he, hsize, ht'⟩ := typed_insert mapped hzero hroom hreturn hc
    rw [lt_iff_toNat_lt, h.edit_sub] at hroom
    change u + k < 128 at hroom
    have hturns : (s.last - s.e).toInt32.toInt.toNat = n - (u + k) := by
      rw [h.last_eq, h.e, turns_add_sub_add s.r (by omega) (by omega)]
    have hsame : Same s.r u s.buf t'.buf := by
      rw [hbuf, hturns, h.e]
      refine (same_shiftUp (Nat.le_add_right u k) ?_).trans
        (same_update (Nat.le_add_right u k) hroom c)
      change u + k + (n - (u + k)) < 128
      omega
    have he' : t'.e = t'.r + UInt32.ofNat (u + (k + 1)) := by
      rw [he, hr, h.e, ← Nat.add_assoc, UInt32.ofNat_add (u + k), UInt32.add_assoc]
      rfl
    have hsize' : t'.size = UInt32.ofNat (n + 1) := by
      rw [hsize, h.size, ofNat_add]
      rfl
    rw [ht'] at ht
    split at ht
    · -- the line is full
      obtain ⟨rfl, -⟩ := Prod.mk.inj (Option.some.inj ht)
      exact ⟨hr, hsame, u + (k + 1), 0, 0, by omega, he', he', rfl, hroom, le_rfl, by decide⟩
    rename_i hfull
    obtain ⟨rfl, -⟩ := Prod.mk.inj (Option.some.inj ht)
    have hn : n + 1 ≠ 128 := by
      intro heq
      rw [hsize', heq] at hfull
      exact hfull rfl
    have hw' : t'.w = t'.r + UInt32.ofNat u := by rw [hw, hr, h.w]
    refine ⟨hr, hsame, u, k + 1, n + 1, le_rfl, hw', he', hsize', hroom, by omega, ?_⟩
    change n + 1 < 128
    omega
  rw [Input.typed, if_neg (fun hboth => hroom hboth.2)] at ht
  obtain ⟨rfl, -⟩ := Prod.mk.inj (Option.some.inj ht)
  exact h.keeps rfl rfl

/-- Backspace does not reach the unread bytes if the cursor is in the line. -/
lemma backspace (hcalm : s.w < s.e → u + k ≤ n) : s.Keeps u s.backspace := by
  have hlt := h.cursor_lt
  unfold Input.backspace
  split
  · rename_i hend
    split
    · rename_i hafter
      have hcalm := hcalm hafter
      have hk : k ≠ 0 := by
        intro hk
        rw [h.at_start.mpr hk] at hafter
        exact absurd hafter (UInt32.lt_irrefl _)
      obtain ⟨k, rfl⟩ := Nat.exists_eq_succ_of_ne_zero hk
      obtain ⟨n, rfl⟩ := Nat.exists_eq_succ_of_ne_zero (show n ≠ 0 by omega)
      have hshrink : s.shrink.Spans u k n := h.shrink
      have hturns : (s.shrink.last - s.shrink.e).toNat = n - (u + k) := by
        rw [hshrink.last_eq, hshrink.e, toNat_add_sub_add _ (by omega) (by omega)]
      dsimp only
      rw [hturns, hshrink.e, hshrink.last_eq]
      refine ⟨rfl, ?_, u, k, n, le_rfl, h.w, hshrink.e, hshrink.size, hshrink.room,
        hshrink.cursor, hshrink.short⟩
      refine (same_shiftDown (Nat.le_add_right u k) ?_).trans
        (same_update (show u ≤ n by omega) hshrink.short _)
      change u + k + (n - (u + k)) < 128
      omega
    · exact h.keeps rfl rfl
  rename_i hend
  split
  · rename_i hstart
    have hk : k ≠ 0 := fun hk => hstart (h.at_start.mpr hk)
    obtain ⟨k, rfl⟩ := Nat.exists_eq_succ_of_ne_zero hk
    obtain ⟨n, rfl⟩ := Nat.exists_eq_succ_of_ne_zero (show n ≠ 0 by omega)
    exact h.shrink.keeps rfl rfl
  · exact h.keeps rfl rfl

end
end Input.Spans

/-- The keys that use the end of the line are typed only when the edit index is not behind
`input.r + input.size`. -/
def Input.Calm (s : Input) (c : UInt8) : Prop :=
  key c = .toEnd ∨ key c = .enter ∨ key c = .eof ∨ (key c = .backspace ∧ s.w < s.e) →
    (s.e - s.r).toNat ≤ s.size.toNat

variable {u k n : ℕ}

lemma Input.Spans.after_key (h : s.Spans u k n) (hcalm : s.Calm c)
    (ht : s.consoleintr mapped c = some (t, woken)) : s.Keeps u t := by
  rw [Input.Calm, h.edit_sub, h.size_toNat] at hcalm
  cases Input.Pressed.of_some ht with
  | nothing | dropped => exact h.keeps rfl rfl
  | home => exact h.home
  | backspace hkey => exact h.backspace fun hafter => hcalm (.inr (.inr (.inr ⟨hkey, hafter⟩)))
  | clear => exact h.clear
  | toEnd hkey => exact (h.setEdit_last (hcalm (.inl hkey))).keeps rfl rfl
  | ends hkey => exact h.commit (hcalm (.inr (hkey.imp id .inl))) _
  | char hkey hzero hreturn hc htyped => exact h.char hzero hreturn hc htyped

lemma Input.Spans.drop (h : s.Spans (u + 1) k n) : s.drop.Spans u k n := by
  have hlt := h.cursor_lt
  have hnext : ∀ i, s.r + UInt32.ofNat (i + 1) = s.r + 1 + UInt32.ofNat i := by
    intro i
    rw [UInt32.ofNat_add, UInt32.add_comm (UInt32.ofNat i), ← UInt32.add_assoc]
    rfl
  refine ⟨?_, ?_, h.size, ?_, h.cursor, h.short⟩
  · rw [Input.drop_w, Input.drop_r, h.w, hnext]
  · rw [Input.drop_e, Input.drop_r, h.e, Nat.add_right_comm, hnext]
  · change u + k ≤ 128
    omega

lemma consoleread_spans (target m : ℕ) (h : s.Spans u k n) :
    ∃ u', (consoleread target m s).1.Spans u' k n := by
  induction m generalizing s u with
  | zero => exact ⟨u, h⟩
  | succ m ih =>
    unfold consoleread
    split
    · exact ⟨u, h⟩
    rename_i hne
    -- there is an unread byte
    have hu : u ≠ 0 := by
      rintro rfl
      exact hne (by rw [h.w]; exact (UInt32.add_zero s.r).symm)
    obtain ⟨u, rfl⟩ := Nat.exists_eq_succ_of_ne_zero hu
    split
    · split
      · exact ⟨_, h⟩
      · exact ⟨_, h.drop⟩
    split
    · exact ⟨_, h.drop⟩
    · exact ih h.drop

/-- Every key is calm. -/
def Calm {ι : Type} (s : Sys ι) : Move ι → Prop
  | .key c => s.input.Calm c
  | _ => True

section Runs
variable {ι : Type} [DecidableEq ι]

lemma calm_spans {s : Sys ι} (h : Reaches (Sys.step mapped) Calm Sys.init s) :
    ∃ u k n, s.input.Spans u k n := by
  refine h.invariant (I := fun s => ∃ u k n, s.input.Spans u k n) ?_
    ⟨0, 0, 0, rfl, rfl, rfl, by decide, le_rfl, by decide⟩
  rintro s s' m ⟨u, k, n, hspans⟩ hok hstep
  cases Moved.of_step hstep with
  | @key c =>
    unfold Sys.key
    split
    · exact ⟨u, k, n, hspans⟩
    rename_i ht
    obtain ⟨u', k', n', -, hspans'⟩ := (hspans.after_key hok ht).spans
    exact ⟨u', k', n', hspans'⟩
  | read => exact ⟨u, k, n, hspans⟩
  | @run i killed target m =>
    rw [Sys.run_input]
    obtain ⟨u', hspans'⟩ := consoleread_spans target m hspans
    exact ⟨u', k, n, hspans'⟩

/-- When keys wait for the readers, a line that gets full is committed whole exactly if the cursor
is at its end, or is taken there. And calm keys do not overwrite unread bytes, whenever these are
read. -/
theorem full_lines_and_unread_bytes (ι : Type) [DecidableEq ι] (mapped : UInt32 → Bool) :
    (∀ s : Sys ι, Reaches (Sys.step mapped) Drained Sys.init s → s.input.r = s.input.w →
      ∃ ed, s.input.HasLine ed ∧ ∀ c, (key c).stored = true → ed.text.length + 1 = INPUT_BUF →
          ((∃ t, s.input.consoleintr mapped c = some (t, true) ∧ t.pending = ed.completed c) ↔
            Whole mapped s.input ed c)) ∧ (∀ s : Sys ι, Reaches (Sys.step mapped) Calm Sys.init s →
      ∀ c t woken, s.input.Calm c → s.input.consoleintr mapped c = some (t, woken) →
        Same s.input.r (s.input.w - s.input.r).toNat s.input.buf t.buf) := by
  refine ⟨fun s h hr => ?_, fun s h c t woken hcalm ht => ?_⟩
  · obtain ⟨ed, hline⟩ := drained_hasLine h
    exact ⟨ed, hline, fun c hc hfull => hline.completed_iff hr hfull hc⟩
  · obtain ⟨u, k, n, hspans⟩ := calm_spans h
    rw [hspans.unread]
    exact (hspans.after_key hcalm ht).same

end Runs

/-- 127 characters, `{` and one more character commit only that one. And a Backspace behind `b`,
when `a` and a newline have not been read, makes the `a` a space. -/
theorem full_line_is_cut_and_unread_is_overwritten :
    ((Sys.init : Sys Unit).input.consoleintrs (fun _ => true)
        (List.replicate 127 'a'.toUInt8 ++ [startKey, 'b'.toUInt8])).map Input.pending =
      some ['b'.toUInt8] ∧ ∃ s, (Sys.init : Sys Unit).input.consoleintrs (fun _ => true)
        ['a'.toUInt8, newline, 'b'.toUInt8] = some s ∧
      s.pending = ['a'.toUInt8, newline] ∧
      s.consoleintr (fun _ => true) delete = some (s.backspace, false) ∧
      s.backspace.buf (cell s.r) = ' '.toUInt8 :=
  ⟨by decide +kernel, _, rfl, by decide, rfl, by decide⟩

end Xv6.Console
