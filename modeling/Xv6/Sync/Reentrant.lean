import Mathlib.Algebra.BigOperators.Group.List.Basic
import Mathlib.Algebra.Ring.Int.Defs
import Mathlib.Data.List.Induction
import Xv6.Sync.Nesting

/-!
# `acquire_reentrant`

A process that holds the lock may call `acquire_reentrant` again: the call finds
the pid of the process in the lock and returns. Nothing counts how often that has
happened, so the first `release` frees the lock, whatever the depth.

## Implementation notes

The functions run on the CPU of `Nesting`, with the field `pid` of the locks
beside it. `initlock` does not set that field. The process is given by its pid.
-/

namespace Xv6.Sync.Reentrant
open Lib Nesting Function Exec

/-- The CPU with its locks, and the field `lk->pid`. -/
structure State (L : Type) where
  cpu : Cpu L
  pid : L → Int32

/-- Functions that also work on `lk->pid`. -/
abbrev Code (L : Type) := Exec Panic (State L)

variable {L : Type}

/-- A function that does not touch `lk->pid`. -/
def onCpu {α : Type} (x : Nesting.Code L α) : Code L α :=
  Exec.zoom State.cpu (fun s c => { s with cpu := c }) x

variable [DecidableEq L]

/-- `acquire_reentrant`, called by the process `pid`. As in `acquire`, nobody can unlock the lock
while the only CPU is in the loop. -/
def acquireReentrant (pid : Int32) (lk : L) : Code L Unit := do
  onCpu pushcli
  let held ← onCpu (holding lk)
  if held then
    onCpu myproc
    let s ← Exec.get
    if s.pid lk = pid then onCpu popcli else Exec.stop .acquire
  else
    let s ← Exec.get
    stopIf (s.cpu.locked lk = true) .spin
    onCpu (Exec.modify fun c => { c with locked := update c.locked lk true })
    onCpu mycpu
    onCpu (Exec.modify fun c => { c with cpu := update c.cpu lk true })
    onCpu myproc
    Exec.modify fun s => { s with pid := update s.pid lk pid }

/-- `release`, with its write to `lk->pid`. -/
def release (lk : L) : Code L Unit := do
  let held ← onCpu (holding lk)
  stopIf (held = false) .release
  onCpu (Exec.modify fun c => { c with cpu := update c.cpu lk false })
  Exec.modify fun s => { s with pid := update s.pid lk 0 }
  onCpu (Exec.modify fun c => { c with locked := update c.locked lk false })
  onCpu popcli

inductive Call
  | acquireReentrant
  | release
  deriving DecidableEq, Repr

def Call.code (pid : Int32) (lk : L) : Call → Code L Unit
  | acquireReentrant => Reentrant.acquireReentrant pid lk
  | release => Reentrant.release lk

/-- One process makes the calls in turn. -/
def calls (pid : Int32) (lk : L) : List Call → Code L Unit := Exec.each (Call.code pid lk)

/-! ### Nested calls -/

def Call.weight : Call → ℤ
  | acquireReentrant => 1
  | release => -1

/-- How many calls of `acquire_reentrant` have not been undone. -/
def depth (w : List Call) : ℤ := (w.map Call.weight).sum

@[simp] lemma depth_append (w w' : List Call) : depth (w ++ w') = depth w + depth w' := by
  simp [depth]

@[simp] lemma depth_singleton (c : Call) : depth [c] = c.weight := by
  simp [depth]

/-- Every `release` undoes an `acquire_reentrant`, and all of them are undone. -/
structure Nested (w : List Call) : Prop where
  nonneg : ∀ pre, pre <+: w → 0 ≤ depth pre
  undone : depth w = 0

/-- The lock is held by the process, so that an `acquire` of anybody else does not return. -/
structure HeldBy (pid : Int32) (lk : L) (s : State L) : Prop where
  locked : s.cpu.locked lk = true
  cpu : s.cpu.cpu lk = true
  pid : s.pid lk = pid
  others : ∀ c, acquire lk s.cpu ≠ .ok () c

/-- The lock is free, and `ncli` and the interrupt flag are as before. -/
structure FreeAs (s₀ : State L) (lk : L) (s : State L) : Prop where
  locked : s.cpu.locked lk = false
  ncli : s.cpu.ncli = s₀.cpu.ncli
  flag : s.cpu.flag = s₀.cpu.flag

/-- Behind `initlock`, with interrupts off where a `pushcli` is pending. -/
structure Start (lk : L) (s : State L) : Prop where
  locked : s.cpu.locked lk = false
  ncli : 0 ≤ s.cpu.ncli
  off : 0 < s.cpu.ncli → s.cpu.flag = false

/-- No call panics or spins, the lock is held from the first `acquire_reentrant` to the outermost
`release`, and it is free outside. -/
def Nests (pid : Int32) (lk : L) (s₀ : State L) (w : List Call) : Prop :=
  ∀ pre, pre <+: w → ∃ s, calls pid lk pre s₀ = .ok () s ∧
    (0 < depth pre → HeldBy pid lk s) ∧ (depth pre = 0 → FreeAs s₀ lk s)

section Calls
variable {pid : Int32} {lk : L} {s : State L}

/-- The state behind the first `acquire_reentrant`. -/
def State.taken (s : State L) (pid : Int32) (lk : L) : State L where
  cpu := { s.cpu with
    flag := false
    intena := if s.cpu.ncli = 0 then s.cpu.flag else s.cpu.intena
    ncli := s.cpu.ncli + 1
    locked := update s.cpu.locked lk true
    cpu := update s.cpu.cpu lk true }
  pid := update s.pid lk pid

lemma acquireReentrant_run (hncli : 0 ≤ s.cpu.ncli) (hlocked : s.cpu.locked lk = false) :
    acquireReentrant pid lk s = .ok () (s.taken pid lk) := by
  have hpos : 0 < s.cpu.ncli + 1 := by omega
  simp only [acquireReentrant, bind, onCpu, Exec.zoom, pushcli_run, holding_run, hpos, hlocked,
    Bool.false_and, Bool.false_eq_true]
  simp [stopIf, Exec.get, Exec.modify, pure, hlocked, mycpu_run, myproc_run, hpos, State.taken]

lemma release_run (hflag : s.cpu.flag = false) (hncli : 0 < s.cpu.ncli)
    (hlocked : s.cpu.locked lk = true) (hcpu : s.cpu.cpu lk = true) : release lk s = .ok () {
      cpu := { s.cpu with
        ncli := s.cpu.ncli - 1
        flag := decide (s.cpu.ncli = 1) && s.cpu.intena
        locked := update s.cpu.locked lk false
        cpu := update s.cpu.cpu lk false }
      pid := update s.pid lk 0 } := by
  simp only [release, bind, onCpu, Exec.zoom, holding_run hflag hncli, hlocked, hcpu, Bool.and_self]
  simp [stopIf, Exec.modify, pure, popcli_run, hflag, hncli]

lemma acquire_blocked {c : Cpu L} (hncli : 0 ≤ c.ncli) (hlocked : c.locked lk = true)
    (c' : Cpu L) : acquire lk c ≠ .ok () c' := by
  have hpos : 0 < c.ncli + 1 := by omega
  simp only [acquire, bind, pushcli_run, holding_run, hpos, hlocked, Bool.true_and]
  cases hcpu : c.cpu lk <;> simp [stopIf, Exec.stop, Exec.get, pure, hlocked]

omit [DecidableEq L] in
lemma popcli_locked (c : Cpu L) :
    wp popcli (fun _ c' => c'.locked = c.locked) (fun _ _ => True) c := by
  unfold popcli
  refine wp_bind.mpr (wp_get.mpr ?_)
  refine wp_bind.mpr (wp_stopIf.mpr ⟨fun _ => trivial, fun hflag => ?_⟩)
  refine wp_bind.mpr (wp_of_ok (mycpu_run (Bool.eq_false_iff.mpr hflag)) ?_)
  refine wp_bind.mpr (wp_modify.mpr ?_)
  refine wp_bind.mpr (wp_get.mpr ?_)
  refine wp_bind.mpr (wp_stopIf.mpr ⟨fun _ => trivial, fun _ => ?_⟩)
  split
  · exact wp_modify.mpr rfl
  · exact (wp_pure ()).mpr rfl

/-- Every `release` that returns has freed the lock. -/
lemma release_frees (s : State L) :
    wp (release lk) (fun _ s' => s'.cpu.locked lk = false) (fun _ _ => True) s := by
  unfold release
  refine wp_bind.mpr (wp_run (fun held s' _ => ?_) fun _ _ _ => trivial)
  refine wp_bind.mpr (wp_stopIf.mpr ⟨fun _ => trivial, fun _ => ?_⟩)
  refine wp_bind.mpr (wp_zoom.mpr (wp_modify.mpr ?_))
  refine wp_bind.mpr (wp_modify.mpr ?_)
  refine wp_bind.mpr (wp_zoom.mpr (wp_modify.mpr ?_))
  refine wp_zoom.mpr (wp_mono (popcli_locked _) (fun _ c hc => ?_) fun _ _ h => h)
  simp [hc]

end Calls

/-! ### Runs of calls -/

section Runs
variable {pid : Int32} {lk : L} {s₀ s : State L}

/-- Inside of one `acquire_reentrant`. -/
structure Inside (s₀ : State L) (pid : Int32) (lk : L) (s : State L) : Prop where
  locked : s.cpu.locked lk = true
  cpu : s.cpu.cpu lk = true
  pid : s.pid lk = pid
  ncli : s.cpu.ncli = s₀.cpu.ncli + 1
  flag : s.cpu.flag = false
  intena : s₀.cpu.ncli = 0 → s.cpu.intena = s₀.cpu.flag

lemma Inside.heldBy (h : Inside s₀ pid lk s) (hs₀ : Start lk s₀) : HeldBy pid lk s := by
  have hncli := h.ncli
  have hnonneg := hs₀.ncli
  exact ⟨h.locked, h.cpu, h.pid, acquire_blocked (by omega) h.locked⟩

lemma FreeAs.acquire (pid : Int32) (h : FreeAs s₀ lk s) (hs₀ : Start lk s₀) :
    ∃ s', acquireReentrant pid lk s = .ok () s' ∧ Inside s₀ pid lk s' := by
  have hnonneg := hs₀.ncli
  refine ⟨_, acquireReentrant_run (by rw [h.ncli]; exact hnonneg) h.locked, ?_⟩
  refine ⟨by simp [State.taken], by simp [State.taken], by simp [State.taken],
    by simp [State.taken, h.ncli], rfl, fun hzero => ?_⟩
  simp [State.taken, h.ncli, h.flag, hzero]

lemma Inside.release (h : Inside s₀ pid lk s) (hs₀ : Start lk s₀) :
    ∃ s', release lk s = .ok () s' ∧ FreeAs s₀ lk s' := by
  have hncli := h.ncli
  have hnonneg := hs₀.ncli
  refine ⟨_, release_run h.flag (by omega) h.locked h.cpu, by simp, by simp [h.ncli], ?_⟩
  -- the outermost `popcli` restores the flag, and an inner one leaves it off
  by_cases hzero : s₀.cpu.ncli = 0
  · simp [h.ncli, hzero, h.intena hzero]
  have hone : s.cpu.ncli ≠ 1 := by omega
  simp [hone, hs₀.off (by omega)]

lemma calls_append (w : List Call) (c : Call) {s' : State L}
    (h : calls pid lk w s = .ok () s') : calls pid lk (w ++ [c]) s = c.code pid lk s' := by
  induction w generalizing s with
  | nil =>
    obtain ⟨-, rfl⟩ := Outcome.ok.inj h
    unfold calls
    simp only [List.nil_append, Exec.each, bind]
    cases c.code pid lk s <;> rfl
  | cons d w ih =>
    simp only [calls, Exec.each, List.cons_append, bind] at h ⊢
    cases hd : d.code pid lk s with
    | ok a s₁ =>
      rw [hd] at h
      exact ih h
    | stop e s₁ =>
      rw [hd] at h
      cases h

/-- Calls that never nest leave the process inside or outside of the lock. -/
lemma calls_shallow (hs₀ : Start lk s₀) {w : List Call} (hw : Nested w)
    (hshallow : ∀ pre, pre <+: w → depth pre ≤ 1) (pre : List Call) (hpre : pre <+: w) :
    ∃ s, calls pid lk pre s₀ = .ok () s ∧
      (depth pre = 1 → Inside s₀ pid lk s) ∧ (depth pre = 0 → FreeAs s₀ lk s) := by
  induction pre using List.reverseRecOn with
  | nil => exact ⟨s₀, rfl, fun h => absurd h (by decide), fun _ => ⟨hs₀.locked, rfl, rfl⟩⟩
  | append_singleton pre c ih =>
    have hinit : pre <+: w := (List.prefix_append pre [c]).trans hpre
    obtain ⟨s, hrun, hinside, hfree⟩ := ih hinit
    have hlow := hw.nonneg _ hpre
    have hhigh := hshallow _ hpre
    have hlow' := hw.nonneg _ hinit
    have hhigh' := hshallow _ hinit
    rw [depth_append, depth_singleton] at hlow hhigh
    rw [calls_append pre c hrun, depth_append, depth_singleton]
    cases c with
    | acquireReentrant =>
      simp only [Call.weight] at hlow hhigh ⊢
      obtain ⟨s', hs', hin⟩ := (hfree (by omega)).acquire pid hs₀
      exact ⟨s', hs', fun _ => hin, fun h => by omega⟩
    | release =>
      simp only [Call.weight] at hlow hhigh ⊢
      obtain ⟨s', hs', hout⟩ := (hinside (by omega)).release hs₀
      exact ⟨s', hs', fun h => by omega, fun _ => hout⟩

lemma exists_inner_release (rest pre : List Call) (hpre : 2 ≤ depth pre)
    (hend : depth (pre ++ rest) = 0) : ∃ q, 2 ≤ depth q ∧ q ++ [.release] <+: pre ++ rest := by
  induction rest generalizing pre with
  | nil =>
    rw [List.append_nil] at hend
    omega
  | cons c rest ih =>
    cases c with
    | release =>
      exact ⟨pre, hpre, rest, by simp⟩
    | acquireReentrant =>
      rw [List.append_cons] at hend ⊢
      apply ih _ _ hend
      rw [depth_append, depth_singleton, Call.weight]
      omega

/-- The lock nests exactly as deep as a plain lock: a properly nested sequence of calls keeps it
held to the outermost `release` if and only if no `acquire_reentrant` is called inside of
another. -/
theorem nests_iff (hs₀ : Start lk s₀) {w : List Call} (hw : Nested w) :
    Nests pid lk s₀ w ↔ ∀ pre, pre <+: w → depth pre ≤ 1 := by
  constructor
  · intro h pre hpre
    by_contra hdeep
    obtain ⟨rest, rfl⟩ := hpre
    obtain ⟨q, hq, hprefix⟩ := exists_inner_release rest pre (by omega) hw.undone
    obtain ⟨s, hrun, -, -⟩ := h q ((List.prefix_append q _).trans hprefix)
    obtain ⟨s', hrun', hheld, -⟩ := h _ hprefix
    rw [calls_append q _ hrun] at hrun'
    have hfree := wp_ok (release_frees s) hrun'
    have hlocked := (hheld (by rw [depth_append, depth_singleton, Call.weight]; omega)).locked
    rw [hfree] at hlocked
    cases hlocked
  intro hshallow pre hpre
  obtain ⟨s, hrun, hinside, hfree⟩ := calls_shallow hs₀ hw hshallow pre hpre
  have hhigh := hshallow pre hpre
  exact ⟨s, hrun, fun hpos => (hinside (by omega)).heldBy hs₀, hfree⟩

end Runs

lemma forall_of_take {P : List Call → Prop} {w : List Call}
    (h : ∀ n ≤ w.length, P (w.take n)) (pre : List Call) (hpre : pre <+: w) : P pre := by
  rw [List.prefix_iff_eq_take.mp hpre]
  exact h _ hpre.length_le

/-- A machine with one lock, on which interrupts are enabled. -/
def idle : State Unit where
  cpu :=
    { ncli := 0
      intena := false
      flag := true
      locked := fun _ => false
      cpu := fun _ => false }
  pid := fun _ => 0

/-- Two pairs of calls, one after the other. -/
theorem nests_pairs :
    Nests 3 () idle [.acquireReentrant, .release, .acquireReentrant, .release] := by
  have hnested : Nested [.acquireReentrant, .release, .acquireReentrant, .release] :=
    ⟨forall_of_take (by decide), by decide⟩
  exact (nests_iff ⟨rfl, by decide, by decide⟩ hnested).mpr (forall_of_take (by decide))

/-- A process takes the lock twice. Its first `release` frees the lock and enables interrupts, any
other process can acquire it then, and the second `release` panics. -/
theorem inner_release_frees : Nested [.acquireReentrant, .acquireReentrant, .release, .release] ∧
    wp (calls 3 () [.acquireReentrant, .acquireReentrant, .release])
      (fun _ s => s.cpu.locked () = false ∧ s.cpu.flag = true ∧
        wp (acquire ()) (fun _ _ => True) (fun _ _ => False) s.cpu)
      (fun _ _ => False) idle ∧
    wp (calls 3 () [.acquireReentrant, .acquireReentrant, .release, .release])
      (fun _ _ => False) (fun e _ => e = .release) idle :=
  ⟨⟨forall_of_take (by decide), by decide⟩, by decide, by decide⟩

end Xv6.Sync.Reentrant
