import Mathlib.Algebra.Order.BigOperators.Group.Finset
import Xv6.Logging.Threads

/-!
# Group commit

While a process commits, no operation is in progress and none can start, so the
header that `commit` works on without the lock cannot change under it. The
invariant counts: `outstanding` is the number of operations in progress, and
`committing` the number of processes in `commit`.
-/

namespace Xv6.Logging
open Fs

/-- One for a process with an operation in progress. -/
def Thread.opens (t : Thread) : ℕ := if t.pc.inOp then 1 else 0

/-- One for a process in `commit`. -/
def Thread.commits (t : Thread) : ℕ := if t.pc.inCommit then 1 else 0

/-- `wakeup` moves a process from the sleep in `begin_op` to the next turn of its loop. -/
lemma woken_pc {α : Type} (f : Pc → α) (hf : f .entry = f .asleep) (t : Thread) :
    f t.woken.pc = f t.pc := by
  unfold Thread.woken
  split
  · rename_i h
    rwa [h]
  · rfl

lemma woken_not_asleep (t : Thread) : t.woken.pc ≠ .asleep := by
  unfold Thread.woken
  split
  · nofun
  · assumption

lemma inCommit_of_cleared {pc : Pc} (h : pc.cleared = true) : pc.inCommit = true := by
  cases pc with
  | commit stage => rfl
  | _ => cases h

section Invariant
variable {ι : Type} [Fintype ι]

/-- The invariant of the processes and the log. -/
structure GroupCommit (s : Sys ι) : Prop where
  outstanding : s.log.outstanding = ((∑ p, (s.threads p).opens : ℕ) : ℤ)
  committing : ∑ p, (s.threads p).commits = if s.log.committing then 1 else 0
  excl : s.log.committing = true → s.log.outstanding = 0
  empty : s.log.committing = false → s.log.outstanding = 0 → s.log.lh = []
  cleared : ∀ p, (s.threads p).pc.cleared = true → s.log.lh = []
  asleep : ∀ p, (s.threads p).pc = .asleep → 1 ≤ s.log.outstanding ∨ s.log.committing = true
  stopped : s.stopped ≠ some (.panic .committing) ∧ s.stopped ≠ some (.panic .outsideTrans)

namespace GroupCommit

lemma boot (dev : ℕ) (sb : Superblock) : GroupCommit (boot dev sb : Sys ι) := by
  constructor
  · simp [Logging.boot, initlog, Thread.opens, Pc.inOp]
  · simp [Logging.boot, initlog, Thread.commits, Pc.inCommit]
  · exact nofun
  · exact fun _ _ => rfl
  · exact fun _ _ => rfl
  · exact nofun
  · exact ⟨nofun, nofun⟩

variable {s : Sys ι} {p : ι}

section
variable (h : GroupCommit s)
include h

lemma of_inOp (hp : (s.threads p).pc.inOp = true) :
    1 ≤ s.log.outstanding ∧ s.log.committing = false := by
  have hle := Finset.single_le_sum (f := fun q => (s.threads q).opens) (fun _ _ => Nat.zero_le _)
      (Finset.mem_univ p)
  have hone : (s.threads p).opens = 1 := if_pos hp
  have hout := h.outstanding
  refine ⟨by omega, Bool.eq_false_iff.mpr fun hc => ?_⟩
  have hzero := h.excl hc
  omega

/-- A process in `commit` has set `committing`, and no other one is there. -/
lemma of_inCommit (hp : (s.threads p).pc.inCommit = true) : s.log.committing = true := by
  by_contra hc
  have hle := Finset.single_le_sum (f := fun q => (s.threads q).commits) (fun _ _ => Nat.zero_le _)
      (Finset.mem_univ p)
  have hone : (s.threads p).commits = 1 := if_pos hp
  have hsum := h.committing
  rw [if_neg hc] at hsum
  omega

/-- No other process has emptied the header while `p` has an operation in progress. -/
lemma not_cleared_of_inOp (hp : (s.threads p).pc.inOp = true) (q : ι) :
    (s.threads q).pc.cleared ≠ true := by
  intro hq
  have hc := h.of_inCommit (inCommit_of_cleared hq)
  rw [(h.of_inOp hp).2] at hc
  cases hc

lemma exists_active (ha : 1 ≤ s.log.outstanding ∨ s.log.committing = true) :
    ∃ q, (s.threads q).pc.inOp = true ∨ (s.threads q).pc.inCommit = true := by
  by_contra hnone
  push Not at hnone
  have hopens : ∑ q, (s.threads q).opens = 0 := Finset.sum_eq_zero fun q _ => if_neg (hnone q).1
  have hcommits : ∑ q, (s.threads q).commits = 0 := Finset.sum_eq_zero fun q _ => if_neg (hnone q).2
  have hout := h.outstanding
  have hcom := h.committing
  rcases ha with ha | ha
  · omega
  rw [if_pos ha] at hcom
  omega

end

variable [DecidableEq ι]

lemma go (h : GroupCommit s) {l : Log} {t : Thread} {wakes : Bool}
    (hout : l.outstanding + (s.threads p).opens = s.log.outstanding + t.opens)
    (hcom : (if l.committing then 1 else 0) + (s.threads p).commits =
      (if s.log.committing then 1 else 0) + t.commits)
    (hexcl : l.committing = true → l.outstanding = 0)
    (hempty : l.committing = false → l.outstanding = 0 → l.lh = [])
    (hcleared : t.pc.cleared = true → l.lh = [])
    (hothers : ∀ q ≠ p, (s.threads q).pc.cleared = true → l.lh = [])
    (hasleep : t.pc = .asleep → 1 ≤ l.outstanding ∨ l.committing = true)
    (hwait : wakes = true ∨ (1 ≤ s.log.outstanding ∨ s.log.committing = true →
      1 ≤ l.outstanding ∨ l.committing = true)) : GroupCommit (s.apply p (.go l t wakes)) := by
  have hopens := sum_apply Thread.opens (woken_pc (fun pc => if pc.inOp then 1 else 0) rfl)
    s p l t wakes
  have hcommits := sum_apply Thread.commits (woken_pc (fun pc => if pc.inCommit then 1 else 0) rfl)
    s p l t wakes
  have hs := h.outstanding
  have hc := h.committing
  refine ⟨?_, ?_, hexcl, hempty, ?_, ?_, h.stopped⟩
  · change l.outstanding = _
    omega
  · change _ = if l.committing then 1 else 0
    omega
  · intro q hq
    by_cases hqp : q = p
    · subst hqp
      exact hcleared (by simpa [Sys.apply] using hq)
    apply hothers q hqp
    cases wakes with
    | false => simpa [Sys.apply, Function.update_of_ne hqp] using hq
    | true => simpa [Sys.apply, Function.update_of_ne hqp, woken_pc Pc.cleared rfl] using hq
  intro q hq
  by_cases hqp : q = p
  · subst hqp
    exact hasleep (by simpa [Sys.apply] using hq)
  rcases wakes with _ | _
  · refine (hwait.resolve_left (by decide)) (h.asleep q ?_)
    simpa [Sys.apply, Function.update_of_ne hqp] using hq
  exact absurd (by simpa [Sys.apply, Function.update_of_ne hqp] using hq)
    (woken_not_asleep (s.threads q))

lemma stay (h : GroupCommit s) {t : Thread} (hop : t.pc.inOp = (s.threads p).pc.inOp)
    (hcommit : t.pc.inCommit = (s.threads p).pc.inCommit)
    (hcleared : t.pc.cleared = true → s.log.lh = [])
    (hasleep : t.pc = .asleep → 1 ≤ s.log.outstanding ∨ s.log.committing = true) :
    GroupCommit (s.apply p (.go s.log t false)) :=
  h.go (by simp [Thread.opens, hop]) (by simp [Thread.commits, hcommit]) h.excl h.empty hcleared
    (fun q _ => h.cleared q) hasleep (.inr id)

variable {a : Action} {s' : Sys ι}

lemma move (h : GroupCommit s) {e : Effect} (hm : Move s.log (s.threads p) a e) :
    GroupCommit (s.apply p e) := by
  cases hm with
  | @quiet _ pc hop hop' hcommit hasleep hcleared =>
    exact h.stay (hop'.trans hop.symm) hcommit (fun hc => (hcleared hc).elim (h.cleared p) id)
      fun hc => absurd hc hasleep
  | call hpc | next hpc => exact h.stay (by rw [hpc]; rfl) (by rw [hpc]; rfl) nofun nofun
  | sleep hpc hnone =>
    refine h.stay (by rw [hpc]; rfl) (by rw [hpc]; rfl) nofun fun _ => ?_
    rcases beginOp_none hnone with hc | ⟨hc, hfull⟩
    · exact Or.inr hc
    left
    by_contra hlt
    have hout := h.outstanding
    have hzero : s.log.outstanding = 0 := by omega
    rw [h.empty hc hzero, hzero] at hfull
    exact absurd hfull (by decide)
  | @enter l' hpc hsome =>
    obtain ⟨hc, _, rfl⟩ := beginOp_some hsome
    have hout := h.outstanding
    apply h.go
    · simp [Thread.opens, hpc, Pc.inOp]
    · simp [Thread.commits, hpc, Pc.inCommit]
    · intro htrue
      rw [hc] at htrue
      cases htrue
    · intro _ hzero
      dsimp only at hzero
      omega
    · exact nofun
    · exact fun q _ => h.cleared q
    · exact nofun
    refine Or.inr fun _ => Or.inl ?_
    dsimp only
    omega
  | @record b hpc hroom =>
    have hin : (s.threads p).pc.inOp = true := by rw [hpc]; rfl
    obtain ⟨hone, hc⟩ := h.of_inOp hin
    apply h.go
    · simp [Thread.opens, hpc, Pc.inOp]
    · simp [Thread.commits, hpc, Pc.inCommit]
    · rw [record_committing, hc]
      exact nofun
    · intro _ hzero
      rw [record_outstanding] at hzero
      omega
    · exact nofun
    · exact fun q _ hq => absurd hq (h.not_cleared_of_inOp hin q)
    · exact nofun
    · refine Or.inr fun _ => Or.inl ?_
      rwa [record_outstanding]
  | @endLast l' hpc hend =>
    have hin : (s.threads p).pc.inOp = true := by rw [hpc]; rfl
    obtain ⟨hc, hone, rfl⟩ := endOp_true hend
    apply h.go
    · simp [Thread.opens, hpc, Pc.inOp, hone]
    · simp [Thread.commits, hpc, Pc.inCommit, hc]
    · exact fun _ => rfl
    · exact nofun
    · exact nofun
    · exact fun q _ hq => absurd hq (h.not_cleared_of_inOp hin q)
    · exact nofun
    · exact Or.inr fun _ => Or.inr rfl
  | @endOther l' hpc hend =>
    have hin : (s.threads p).pc.inOp = true := by rw [hpc]; rfl
    have hge := (h.of_inOp hin).1
    obtain ⟨hc, hne, rfl⟩ := endOp_false hend
    apply h.go
    · simp [Thread.opens, hpc, Pc.inOp]
    · simp [Thread.commits, hpc, Pc.inCommit]
    · intro htrue
      rw [hc] at htrue
      cases htrue
    · intro _ hzero
      dsimp only at hzero
      omega
    · exact nofun
    · exact fun q _ hq => absurd hq (h.not_cleared_of_inOp hin q)
    · exact nofun
    · exact Or.inl rfl
  | clear hpc =>
    have hc := h.of_inCommit (by rw [hpc]; rfl)
    apply h.go
    · simp [Thread.opens, hpc, Pc.inOp]
    · simp [Thread.commits, hpc, Pc.inCommit]
    · exact h.excl
    · exact fun _ _ => rfl
    · exact fun _ => rfl
    · exact fun _ _ _ => rfl
    · exact nofun
    · exact Or.inr id
  | leave hpc =>
    have hc := h.of_inCommit (by rw [hpc]; rfl)
    have hlh := h.cleared p (by rw [hpc]; rfl)
    apply h.go
    · simp [Thread.opens, hpc, Pc.inOp]
    · simp [Thread.commits, hpc, Pc.inCommit, hc]
    · exact nofun
    · exact fun _ _ => hlh
    · exact nofun
    · exact fun _ _ _ => hlh
    · exact nofun
    · exact Or.inl rfl
  | tooBig hpc hfull | overrun hpc hb hfull =>
    exact ⟨h.outstanding, h.committing, h.excl, h.empty, h.cleared, h.asleep, nofun, nofun⟩
  | outsideTrans hpc hlt =>
    have hge := (h.of_inOp (by rw [hpc]; rfl)).1
    omega
  | endPanic hpc herr =>
    have hc := (h.of_inOp (by rw [hpc]; rfl)).2
    rw [endOp_error herr] at hc
    cases hc

/-- One step of any process keeps the invariant. -/
lemma step (h : GroupCommit s) (hstep : s.step p a = some s') : GroupCommit s' := by
  obtain ⟨_, e, hm, rfl⟩ := move_of_step hstep
  exact h.move hm

/-- So does every run. -/
lemma reaches {ok : Sys ι → ι → Action → Prop} (hr : Sys.Reaches ok s s') (h : GroupCommit s) :
    GroupCommit s' :=
  hr.invariant (fun _ _ _ _ hs _ hstep => hs.step hstep) h

/-- While `committing` is set, a step admits no operation and puts no block into the header. -/
lemma frozen (h : GroupCommit s) (hc : s.log.committing = true) (hstep : s.step p a = some s') :
    s'.log.outstanding = 0 ∧ (s'.log.lh = s.log.lh ∨ s'.log.lh = []) := by
  have hzero := h.excl hc
  have hnot : (s.threads p).pc.inOp ≠ true := by
    intro hin
    have hge := (h.of_inOp hin).1
    omega
  obtain ⟨_, e, hm, rfl⟩ := move_of_step hstep
  cases hm with
  | quiet | sleep | leave => exact ⟨hzero, Or.inl rfl⟩
  | clear => exact ⟨hzero, Or.inr rfl⟩
  | enter _ hsome =>
    rw [(beginOp_some hsome).1] at hc
    cases hc
  | call hpc | next hpc | record hpc _ | endLast hpc _ | endOther hpc _ | tooBig hpc _
  | outsideTrans hpc _ | overrun hpc _ _ | endPanic hpc _ =>
    rw [hpc] at hnot
    exact absurd rfl hnot

end GroupCommit

/-- Group commit isolates a commit from the operations: in every state that is reached,
`committing` excludes operations in progress, and then no step admits one or adds to the
header; the panic of `end_op` does not happen; an idle log is empty; and whoever sleeps in
`begin_op` has an operation or a commit to wait for. -/
theorem commit_isolated [DecidableEq ι] (dev : ℕ) (sb : Superblock) {s : Sys ι}
    (hr : Sys.Reaches (fun _ _ _ => True) (boot dev sb) s) :
    (s.log.committing = true → s.log.outstanding = 0) ∧
    (s.log.committing = true → ∀ p a s', s.step p a = some s' →
      s'.log.outstanding = 0 ∧ (s'.log.lh = s.log.lh ∨ s'.log.lh = [])) ∧
    s.stopped ≠ some (.panic .committing) ∧
    (s.log.outstanding = 0 → s.log.committing = false → s.log.lh = []) ∧
    ∀ p, (s.threads p).pc = .asleep → (1 ≤ s.log.outstanding ∨ s.log.committing = true) ∧
        ∃ q, (s.threads q).pc.inOp = true ∨ (s.threads q).pc.inCommit = true := by
  have h : GroupCommit s := GroupCommit.reaches hr (GroupCommit.boot dev sb)
  refine ⟨h.excl, ?_, h.stopped.1, ?_, ?_⟩
  · intro hc p a s' hstep
    exact h.frozen hc hstep
  · intro hzero hc
    exact h.empty hc hzero
  · intro p hp
    exact ⟨h.asleep p hp, h.exists_active (h.asleep p hp)⟩

end Invariant

/-- Process 0 has logged a block and commits; process 1 has called `begin_op` meanwhile. -/
def committingState : Sys (Fin 2) :=
  ((boot ROOTDEV mkfsSuperblock).exec (fun _ _ _ => True)
    [(0, .beginOp), (0, .run), (0, .logWrite 60), (0, .run), (0, .run), (0, .run), (0, .run),
      (0, .endOp), (0, .run), (1, .beginOp), (1, .run), (0, .run)]).get (by decide +kernel)

theorem committingState_isolated : committingState.log.committing = true ∧
    committingState.log.lh = [60] ∧ (committingState.threads 1).pc = .asleep ∧
    committingState.log.outstanding = 0 := by
  refine ⟨by decide +kernel, by decide +kernel, by decide +kernel, ?_⟩
  have hr : Sys.Reaches (fun _ _ _ => True) (boot ROOTDEV mkfsSuperblock) committingState :=
    Sys.reaches_of_exec (Option.some_get _).symm
  exact (commit_isolated ROOTDEV mkfsSuperblock hr).1 (by decide +kernel)

end Xv6.Logging
