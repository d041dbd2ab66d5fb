import Xv6.Logging.GroupCommit

/-!
# Log space

`begin_op` admits an operation when the blocks in the header and `MAXOPBLOCKS`
for each operation in progress fit into the `LOGSIZE` entries of the header.
`log_write` gives up earlier: the log area of a file system laid out by `mkfs`
has `LOGSIZE` blocks, one of them is the header block, and the test is made
before the block number is looked up, so that the last entry that it lets pass
is entry `LOGSIZE - 2`.
-/

namespace Xv6.Logging
open Fs

/-- The block numbers that an operation in progress may still add to those it has logged. -/
def Thread.reserve (t : Thread) : ℕ := if t.pc.inOp then MAXOPBLOCKS - t.writes.card else 0

lemma reserve_of_not_inOp {t : Thread} (h : t.pc.inOp = false) : t.reserve = 0 :=
  if_neg (by simp [h])

lemma reserve_of_inOp {t : Thread} (h : t.pc.inOp = true) :
    t.reserve = MAXOPBLOCKS - t.writes.card := if_pos h

/-- An operation calls `log_write` on at most `MAXOPBLOCKS` different block numbers. -/
def WithinBudget {ι : Type} (s : Sys ι) (p : ι) : Action → Prop
  | .logWrite b => (insert b (s.threads p).writes).card ≤ MAXOPBLOCKS
  | _ => True

instance {ι : Type} (s : Sys ι) (p : ι) (a : Action) : Decidable (WithinBudget s p a) := by
  unfold WithinBudget
  split <;> infer_instance

variable {ι : Type} [Fintype ι]

/-- The blocks in the header and all that the operations in progress may still add, with
`extra` more, leave the last two blocks of the log area free. -/
def Room (s : Sys ι) (extra : ℕ) : Prop :=
  s.log.lh.length + ∑ p, (s.threads p).reserve + extra + 2 ≤ s.log.size

instance (s : Sys ι) (extra : ℕ) : Decidable (Room s extra) := inferInstanceAs (Decidable (_ ≤ _))

/-- An operation is only admitted if there is room for it. -/
def Roomy (s : Sys ι) (p : ι) (a : Action) : Prop :=
  a = .run → (s.threads p).pc = .entry → s.log.beginOp.isSome = true → Room s MAXOPBLOCKS

instance (s : Sys ι) (p : ι) (a : Action) : Decidable (Roomy s p a) :=
  inferInstanceAs (Decidable (_ → _ → _ → _))

/-- The invariant of the processes and the log under `WithinBudget` and `Roomy`. -/
structure Fits (s : Sys ι) : Prop where
  group : GroupCommit s
  size : s.log.size = LOGSIZE
  budget : ∀ p, (s.threads p).writes.card ≤ MAXOPBLOCKS
  pending : ∀ p stage b, (s.threads p).pc = .logWrite stage b →
    (insert b (s.threads p).writes).card ≤ MAXOPBLOCKS
  logged : ∀ p, (s.threads p).pc.inOp = true → ∀ b ∈ (s.threads p).writes, b ∈ s.log.lh
  room : ∀ p, (s.threads p).pc.inOp = true → Room s 0
  running : s.stopped = none

namespace Fits

lemma boot (dev : ℕ) : Fits (boot dev mkfsSuperblock : Sys ι) :=
  ⟨GroupCommit.boot dev _, rfl, fun _ => Nat.zero_le _, nofun, nofun, nofun, rfl⟩

variable {s : Sys ι} {p : ι}

/-- With an operation in progress the header and the log area have room for one more block. -/
lemma not_full (h : Fits s) (hp : (s.threads p).pc.inOp = true) :
    ¬ s.log.headerFull ∧ ¬ s.log.areaFull := by
  have hroom := h.room p hp
  have hsize := h.size
  unfold Room at hroom
  constructor
  · unfold Log.headerFull
    omega
  · unfold Log.areaFull
    omega

/-- Logging a block takes from the reserve of its operation what it adds to the header. -/
lemma record_le (h : Fits s) {stage : WriteStage} {b : ℕ}
    (hpc : (s.threads p).pc = .logWrite stage b) :
    (s.log.record b).lh.length + (MAXOPBLOCKS - (insert b (s.threads p).writes).card) ≤
      s.log.lh.length + (s.threads p).reserve := by
  have hop : (s.threads p).pc.inOp = true := by rw [hpc]; rfl
  have hres := reserve_of_inOp hop
  by_cases hb : b ∈ (s.threads p).writes
  · rw [record_of_mem _ _ (h.logged p hop b hb), Finset.insert_eq_of_mem hb, hres]
  have hle := length_record_le s.log b
  have hpend := h.pending p stage b hpc
  rw [Finset.card_insert_of_notMem hb] at hpend ⊢
  omega

variable [DecidableEq ι]

/-- A step that keeps the room there is, and whose own process stays within its budget,
keeps the invariant. -/
lemma go (h : Fits s) {l : Log} {t : Thread} {wakes : Bool}
    (hgroup : GroupCommit (s.apply p (.go l t wakes)))
    (hsize : l.size = s.log.size) (hbudget : t.writes.card ≤ MAXOPBLOCKS)
    (hpending : ∀ stage b, t.pc = .logWrite stage b → (insert b t.writes).card ≤ MAXOPBLOCKS)
    (hlogged : t.pc.inOp = true → ∀ b ∈ t.writes, b ∈ l.lh)
    (hothers : ∀ q ≠ p, (s.threads q).pc.inOp = true → ∀ b ∈ s.log.lh, b ∈ l.lh)
    (hroom : (t.pc.inOp = true ∨ ∃ q, (s.threads q).pc.inOp = true) →
      l.lh.length + (∑ q, (s.threads q).reserve + t.reserve) + 2 ≤ l.size + (s.threads p).reserve) :
    Fits (s.apply p (.go l t wakes)) := by
  have hsum := sum_apply Thread.reserve (fun t => by
    unfold Thread.reserve Thread.woken
    split <;> simp_all [Pc.inOp]) s p l t wakes
  have hthread : ∀ q, q ≠ p → ((s.apply p (.go l t wakes)).threads q).pc.inOp =
      (s.threads q).pc.inOp ∧
      ((s.apply p (.go l t wakes)).threads q).writes = (s.threads q).writes ∧
      ∀ stage b, ((s.apply p (.go l t wakes)).threads q).pc = .logWrite stage b →
        (s.threads q).pc = .logWrite stage b := by
    intro q hq
    rcases wakes with _ | _
    · simp [Sys.apply, Function.update_of_ne hq]
    simp only [Sys.apply, Function.update_of_ne hq, if_true]
    refine ⟨woken_pc Pc.inOp rfl _, ?_, ?_⟩
    · unfold Thread.woken
      split <;> rfl
    intro stage b
    unfold Thread.woken
    split
    · simp
    · exact id
  have hself : (s.apply p (.go l t wakes)).threads p = t := by simp [Sys.apply]
  refine ⟨hgroup, hsize.trans h.size, ?_, ?_, ?_, ?_, h.running⟩
  · intro q
    by_cases hq : q = p
    · subst hq
      rw [hself]
      exact hbudget
    · rw [(hthread q hq).2.1]
      exact h.budget q
  · intro q stage b hpc
    by_cases hq : q = p
    · subst hq
      rw [hself] at hpc ⊢
      exact hpending stage b hpc
    · rw [(hthread q hq).2.1]
      exact h.pending q stage b ((hthread q hq).2.2 stage b hpc)
  · intro q hop b hb
    by_cases hq : q = p
    · subst hq
      rw [hself] at hop hb
      exact hlogged hop b hb
    rw [(hthread q hq).1] at hop
    rw [(hthread q hq).2.1] at hb
    exact hothers q hq hop b (h.logged q hop b hb)
  intro q hop
  have hex : t.pc.inOp = true ∨ ∃ q, (s.threads q).pc.inOp = true := by
    by_cases hq : q = p
    · subst hq
      rw [hself] at hop
      exact Or.inl hop
    · rw [(hthread q hq).1] at hop
      exact Or.inr ⟨q, hop⟩
  have hle := hroom hex
  change l.lh.length + ∑ q, ((s.apply p (.go l t wakes)).threads q).reserve + 0 + 2 ≤ l.size
  omega

/-- A step behind which its process has no operation in progress. -/
lemma leaves (h : Fits s) {l : Log} {t : Thread} {wakes : Bool}
    (hgroup : GroupCommit (s.apply p (.go l t wakes))) (hlh : l.lh = s.log.lh)
    (hsize : l.size = s.log.size) (hwrites : t.writes = (s.threads p).writes)
    (hop : t.pc.inOp = false) : Fits (s.apply p (.go l t wakes)) := by
  refine h.go hgroup hsize (hwrites ▸ h.budget p) ?_ (fun hin => ?_) ?_ fun hex => ?_
  · intro stage b hpc
    rw [hpc] at hop
    cases hop
  · rw [hop] at hin
    cases hin
  · exact fun _ _ _ b hb => hlh ▸ hb
  obtain ⟨q, hq⟩ := hex.resolve_left (by simp [hop])
  have hle := h.room q hq
  unfold Room at hle
  rw [hlh, hsize, reserve_of_not_inOp hop]
  omega

lemma move (h : Fits s) {a : Action} {e : Effect} (hbudget : WithinBudget s p a)
    (hroomy : Roomy s p a) (hm : Move s.log (s.threads p) a e) : Fits (s.apply p e) := by
  have hgroup := h.group.move hm
  have hroom : (∃ q, (s.threads q).pc.inOp = true) →
      s.log.lh.length + ∑ q, (s.threads q).reserve + 2 ≤ s.log.size := by
    rintro ⟨q, hq⟩
    exact h.room q hq
  cases hm with
  | quiet _ hop' => exact h.leaves hgroup rfl rfl rfl hop'
  | @call b hpc =>
    apply h.go hgroup rfl (h.budget p)
    · rintro stage b' heq
      cases heq
      exact hbudget
    · intro _
      exact h.logged p (by rw [hpc]; rfl)
    · exact fun _ _ _ _ hb => hb
    intro _
    have hle := hroom ⟨p, by rw [hpc]; rfl⟩
    simp only [Thread.reserve, hpc, Pc.inOp, if_true] at hle ⊢
    omega
  | @next stage stage' b hpc =>
    apply h.go hgroup rfl (h.budget p)
    · rintro stage₁ b' heq
      cases heq
      exact h.pending p stage b hpc
    · intro _
      exact h.logged p (by rw [hpc]; rfl)
    · exact fun _ _ _ _ hb => hb
    intro _
    have hle := hroom ⟨p, by rw [hpc]; rfl⟩
    simp only [Thread.reserve, hpc, Pc.inOp, if_true] at hle ⊢
    omega
  | sleep | leave => exact h.leaves hgroup rfl rfl rfl rfl
  | @enter l' hpc hsome =>
    have hadm := hroomy rfl hpc (by rw [hsome]; rfl)
    obtain ⟨_, _, rfl⟩ := beginOp_some hsome
    apply h.go hgroup rfl (Nat.zero_le _)
    · simp
    · exact fun _ _ hb => absurd hb (Finset.notMem_empty _)
    · exact fun _ _ _ _ hb => hb
    intro _
    have hself : Thread.reserve { pc := .op } = MAXOPBLOCKS := rfl
    unfold Room at hadm
    dsimp only
    omega
  | @record b hpc _ =>
    have hle := h.record_le hpc
    have hpend := h.pending p _ b hpc
    apply h.go hgroup (record_size _ _) hpend
    · simp
    · intro _ x hx
      rw [mem_record]
      rcases Finset.mem_insert.mp hx with rfl | hx
      · exact Or.inr rfl
      · exact Or.inl (h.logged p (by rw [hpc]; rfl) x hx)
    · intro _ _ _ x hx
      exact (mem_record _ _).mpr (Or.inl hx)
    intro _
    have hroom := hroom ⟨p, by rw [hpc]; rfl⟩
    rw [reserve_of_inOp (t := { pc := .op, writes := insert b (s.threads p).writes }) rfl,
      record_size]
    dsimp only
    omega
  | endLast _ hend =>
    obtain ⟨_, _, rfl⟩ := endOp_true hend
    exact h.leaves hgroup rfl rfl rfl rfl
  | endOther _ hend =>
    obtain ⟨_, _, rfl⟩ := endOp_false hend
    exact h.leaves hgroup rfl rfl rfl rfl
  | clear hpc =>
    have hc := h.group.of_inCommit (p := p) (by rw [hpc]; rfl)
    have hno : ¬ ∃ q, (s.threads q).pc.inOp = true := by
      rintro ⟨q, hq⟩
      rw [(h.group.of_inOp hq).2] at hc
      cases hc
    apply h.go hgroup rfl (h.budget p)
    · simp
    · simp [Pc.inOp]
    · exact fun q _ hq => absurd ⟨q, hq⟩ hno
    · exact fun hex => absurd (hex.resolve_left (by simp [Pc.inOp])) hno
  | tooBig hpc hfull =>
    have hnot := h.not_full (p := p) (by rw [hpc]; rfl)
    exact absurd hfull (not_or.mpr hnot)
  | overrun hpc _ hfull =>
    exact absurd hfull (h.not_full (p := p) (by rw [hpc]; rfl)).1
  | outsideTrans hpc hlt =>
    have hge := (h.group.of_inOp (p := p) (by rw [hpc]; rfl)).1
    omega
  | endPanic hpc herr =>
    have hc := (h.group.of_inOp (p := p) (by rw [hpc]; rfl)).2
    rw [endOp_error herr] at hc
    cases hc

end Fits

/-- On a file system laid out by `mkfs`, processes that log at most `MAXOPBLOCKS` blocks in
an operation never run out of log space, as long as `begin_op` admits an operation only
when the header, all that the operations in progress may still log and `MAXOPBLOCKS` more
blocks leave two blocks of the log area free. -/
theorem logWrite_fits [DecidableEq ι] (dev : ℕ) {s : Sys ι}
    (hr : Sys.Reaches (fun s p a => WithinBudget s p a ∧ Roomy s p a)
      (boot dev mkfsSuperblock) s) : s.stopped ≠ some (.panic .tooBig) := by
  have h : Fits s := hr.invariant (I := Fits) (fun s s' p a hs hok hstep => by
    obtain ⟨_, e, hm, rfl⟩ := move_of_step hstep
    exact hs.move hok.1 hok.2 hm) (Fits.boot dev)
  rw [h.running]
  exact nofun

/-- The steps of one call of `log_write` that is not stopped. -/
def logWriteRun {ι : Type} (p : ι) (b : ℕ) : List (ι × Action) :=
  [(p, .logWrite b), (p, .run), (p, .run), (p, .run), (p, .run)]

/-- Two operations that share a block, on a log with room for both. -/
def sharedRun : List (Bool × Action) :=
  [(false, .beginOp), (false, .run), (true, .beginOp), (true, .run)] ++
    logWriteRun false 60 ++ logWriteRun true 61 ++ logWriteRun true 60

/-- The state that `sharedRun` leads to. -/
def sharedState : Sys Bool :=
  ((boot ROOTDEV mkfsSuperblock).exec (fun s p a => WithinBudget s p a ∧ Roomy s p a)
    sharedRun).get (by decide +kernel)

theorem sharedState_fits : sharedState.log.lh = [60, 61] ∧
    sharedState.stopped ≠ some (.panic .tooBig) := by
  refine ⟨by decide +kernel, ?_⟩
  apply logWrite_fits ROOTDEV
  exact Sys.reaches_of_exec (Option.some_get _).symm

/-- Three operations are admitted, and each logs ten blocks of its own. -/
def fullRun : List (Fin 3 × Action) :=
  [(0, .beginOp), (0, .run), (1, .beginOp), (1, .run), (2, .beginOp), (2, .run)] ++
    (List.range 10).flatMap (fun k => logWriteRun 0 (100 + k)) ++
    (List.range 10).flatMap (fun k => logWriteRun 1 (110 + k)) ++
    (List.range 9).flatMap (fun k => logWriteRun 2 (120 + k)) ++
    [(2, .logWrite 129), (2, .run), (2, .run)]

/-- The last block of the third operation is within its budget, and `log_write` panics. -/
theorem logWrite_tooBig : ∃ s : Sys (Fin 3),
    Sys.Reaches WithinBudget (boot ROOTDEV mkfsSuperblock) s ∧
      s.stopped = some (.panic .tooBig) := by
  have hrun : (((boot ROOTDEV mkfsSuperblock).exec WithinBudget fullRun).map Sys.stopped) =
      some (some (.panic .tooBig)) := by decide +kernel
  obtain ⟨s, hexec, hs⟩ := Option.map_eq_some_iff.mp hrun
  exact ⟨s, Sys.reaches_of_exec hexec, hs⟩

end Xv6.Logging
