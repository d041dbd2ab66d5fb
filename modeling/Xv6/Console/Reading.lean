import Xv6.Console.Machine

/-!
# What `consoleread` takes from the console

Between the read index and the write index are the bytes that have been committed
and not been read. A section of `consoleread` delivers some of them, and takes an end
of file without delivering it.
-/

namespace Xv6.Console
open Lib

/-- The `n` bytes from index `p` on. -/
def segment (buf : Fin INPUT_BUF → UInt8) : UInt32 → ℕ → List UInt8
  | _, 0 => []
  | p, n + 1 => buf (cell p) :: segment buf (p + 1) n

lemma segment_of_holds {buf : Fin INPUT_BUF → UInt8} {p : UInt32} {tail : ℕ} {q : List UInt8}
    (h : RingHolds (2 ^ 32) buf p.toNat tail q) : segment buf p q.length = q := by
  induction q generalizing p with
  | nil => rfl
  | cons b q ih =>
    obtain ⟨hb, hrest⟩ := h.pop
    have hp : (p + 1).toNat = (p.toNat + 1) % 2 ^ 32 := UInt32.toNat_add p 1
    rw [← hp] at hrest
    rw [List.length_cons, segment, ih hrest]
    exact congrArg (· :: q) hb

namespace Input

variable (s : Input)

/-- The bytes that have been committed and not been read. -/
def pending : List UInt8 := segment s.buf s.r (s.w - s.r).toNat

/-- Those of them that are delivered. -/
def shown : List UInt8 := s.pending.filter (· ≠ ctrl 'D')

variable {s}

lemma shown_of_eq (h : s.r = s.w) : s.shown = [] := by
  simp [shown, pending, h, segment]

lemma pending_cons (h : s.r ≠ s.w) : s.pending = s.front :: s.drop.pending := by
  have hcount : (s.w - s.r).toNat = (s.w - (s.r + 1)).toNat + 1 := by
    have hne : s.r.toNat ≠ s.w.toNat := fun heq => h (UInt32.toNat_inj.mp heq)
    have hr := s.r.toNat_lt
    have hw := s.w.toNat_lt
    simp only [UInt32.toNat_sub, UInt32.toNat_add, UInt32.toNat_one]
    omega
  rw [pending, hcount, segment]
  rfl

/-- The bytes from `s` to `s'` have been delivered, and nothing else has changed. -/
structure Reads (s : Input) (bytes : List UInt8) (s' : Input) : Prop where
  buf : s'.buf = s.buf
  w : s'.w = s.w
  e : s'.e = s.e
  size : s'.size = s.size
  shown : s.shown = bytes ++ s'.shown

lemma Reads.refl : s.Reads [] s := ⟨rfl, rfl, rfl, rfl, rfl⟩

lemma Reads.drop_of_eq (hne : s.r ≠ s.w) (hfront : s.front = ctrl 'D') : s.Reads [] s.drop := by
  refine ⟨rfl, rfl, rfl, rfl, ?_⟩
  rw [Input.shown, pending_cons hne, List.filter_cons_of_neg (by simp [hfront])]
  rfl

lemma Reads.cons {s' : Input} {bytes : List UInt8} (hne : s.r ≠ s.w) (hfront : s.front ≠ ctrl 'D')
    (h : s.drop.Reads bytes s') : s.Reads (s.front :: bytes) s' := by
  refine ⟨h.buf, h.w, h.e, h.size, ?_⟩
  rw [Input.shown, pending_cons hne, List.filter_cons_of_pos (by simp [hfront]), List.cons_append,
    ← h.shown]
  rfl

end Input

lemma consoleread_spec (target n : ℕ) (s : Input) :
    s.Reads (consoleread target n s).2.1 (consoleread target n s).1 := by
  induction n generalizing s with
  | zero => exact .refl
  | succ n ih =>
    unfold consoleread
    split
    · exact .refl
    rename_i hne
    split
    · rename_i hfront
      split
      · exact .refl
      · exact .drop_of_eq hne hfront
    rename_i hfront
    split
    · rename_i hnewline
      rw [← hnewline]
      exact .cons hne hfront .refl
    · exact .cons hne hfront (ih s.drop)

lemma addLast_append {α : Type} (ls : List (List α)) (l bs : List α) :
    addLast (ls ++ [l]) bs = ls ++ [l ++ bs] := by
  induction ls with
  | nil => rfl
  | cons l' ls ih =>
    cases ls with
    | nil => rfl
    | cons l'' ls => exact congrArg (l' :: ·) ih

lemma addLast_flatten {α : Type} {ls : List (List α)} (h : ls ≠ []) (bs : List α) :
    (addLast ls bs).flatten = ls.flatten ++ bs ∧ addLast ls bs ≠ [] := by
  obtain ⟨ls, l, rfl⟩ := List.eq_nil_or_concat ls |>.resolve_left h
  rw [List.concat_eq_append, addLast_append]
  simp

end Xv6.Console
