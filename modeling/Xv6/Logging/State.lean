import Xv6.Fs.Layout

/-!
# The in-memory log and its critical sections

`struct log` of `log.c` and what `begin_op`, `log_write` and `end_op` do to it
while they hold `log.lock`.

## Implementation notes

The header `lh` is the list of its first `n` block numbers: no function reads
`lh.block` at or behind `lh.n`, and `lh.n` is the length of the list.
-/

namespace Xv6.Logging
open Fs

/-- `struct log`, without its spinlock. -/
structure Log where
  start : ℕ
  size : ℕ
  outstanding : ℤ := 0
  committing : Bool := false
  dev : ℕ
  lh : List ℕ := []
  deriving DecidableEq, Repr

/-- `initlog` on a disk whose log is empty. -/
def initlog (dev : ℕ) (sb : Superblock) : Log :=
  { start := sb.logstart, size := sb.nlog, dev := dev }

/-- One turn of the loop of `begin_op`; `none` is the call of `sleep`. -/
def Log.beginOp (l : Log) : Option Log :=
  if l.committing then none
  else if l.lh.length + (l.outstanding + 1) * MAXOPBLOCKS > LOGSIZE then none
  else some { l with outstanding := l.outstanding + 1 }

/-- The critical section of `end_op`, with the value of `do_commit`. -/
def Log.endOp (l : Log) : Except Panic (Log × Bool) :=
  let l := { l with outstanding := l.outstanding - 1 }
  if l.committing then .error .committing
  else if l.outstanding = 0 then .ok ({ l with committing := true }, true)
  else .ok (l, false)

/-- The first test of `log_write`: the header has no more room. -/
def Log.headerFull (l : Log) : Prop := LOGSIZE ≤ l.lh.length

/-- The second test of `log_write`: the log area has no more room. -/
def Log.areaFull (l : Log) : Prop := (l.size : ℤ) - 1 ≤ l.lh.length

instance (l : Log) : Decidable l.headerFull := inferInstanceAs (Decidable (_ ≤ _))

instance (l : Log) : Decidable l.areaFull := inferInstanceAs (Decidable (_ ≤ _))

/-- The critical section of `log_write`: a block number that is there already is absorbed. -/
def Log.record (l : Log) (b : ℕ) : Log := if b ∈ l.lh then l else { l with lh := l.lh ++ [b] }

section Record
variable (l : Log) (b : ℕ)

@[simp]
lemma record_outstanding : (l.record b).outstanding = l.outstanding := by
  unfold Log.record
  split <;> rfl

@[simp]
lemma record_committing : (l.record b).committing = l.committing := by
  unfold Log.record
  split <;> rfl

@[simp]
lemma record_size : (l.record b).size = l.size := by
  unfold Log.record
  split <;> rfl

@[simp]
lemma record_dev : (l.record b).dev = l.dev := by
  unfold Log.record
  split <;> rfl

lemma mem_record {x : ℕ} : x ∈ (l.record b).lh ↔ x ∈ l.lh ∨ x = b := by
  unfold Log.record
  split
  · rename_i hb
    refine ⟨Or.inl, fun h => h.elim id ?_⟩
    rintro rfl
    exact hb
  · simp

lemma length_record_le : (l.record b).lh.length ≤ l.lh.length + 1 := by
  unfold Log.record
  split
  · omega
  · simp

lemma record_of_mem (h : b ∈ l.lh) : l.record b = l := if_pos h

end Record

section Operations
variable {l l' : Log}

lemma beginOp_some (h : l.beginOp = some l') :
    l.committing = false ∧ l.lh.length + (l.outstanding + 1) * MAXOPBLOCKS ≤ LOGSIZE ∧
      l' = { l with outstanding := l.outstanding + 1 } := by
  unfold Log.beginOp at h
  split at h
  · cases h
  rename_i hc
  split at h
  · cases h
  rename_i hfit
  exact ⟨Bool.eq_false_iff.mpr hc, Int.not_lt.mp hfit, (Option.some.inj h).symm⟩

/-- `begin_op` sleeps for a commit, or because the reservations of the operations in
progress and the blocks they have logged leave no room. -/
lemma beginOp_none (h : l.beginOp = none) : l.committing = true ∨
      (l.committing = false ∧ LOGSIZE < l.lh.length + (l.outstanding + 1) * MAXOPBLOCKS) := by
  unfold Log.beginOp at h
  split at h
  · exact Or.inl ‹_›
  rename_i hc
  split at h
  · exact Or.inr ⟨Bool.eq_false_iff.mpr hc, ‹_›⟩
  · cases h

lemma endOp_true (h : l.endOp = .ok (l', true)) : l.committing = false ∧ l.outstanding = 1 ∧
      l' = { l with outstanding := 0, committing := true } := by
  simp only [Log.endOp] at h
  split at h
  · cases h
  rename_i hc
  split at h
  · rename_i hone
    obtain rfl := (Prod.mk.inj (Except.ok.inj h)).1
    exact ⟨Bool.eq_false_iff.mpr hc, by omega, by rw [hone]⟩
  · cases h

lemma endOp_false (h : l.endOp = .ok (l', false)) : l.committing = false ∧ l.outstanding ≠ 1 ∧
      l' = { l with outstanding := l.outstanding - 1 } := by
  simp only [Log.endOp] at h
  split at h
  · cases h
  rename_i hc
  split at h
  · cases h
  rename_i hne
  exact ⟨Bool.eq_false_iff.mpr hc, by omega, (Prod.mk.inj (Except.ok.inj h)).1.symm⟩

lemma endOp_error {e : Panic} (h : l.endOp = .error e) : l.committing = true := by
  simp only [Log.endOp] at h
  split at h
  · assumption
  · split at h <;> cases h

end Operations
end Xv6.Logging
