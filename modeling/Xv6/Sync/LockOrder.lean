import Mathlib.Algebra.GroupWithZero.Nat
import Mathlib.Logic.Function.Basic
import Xv6.Lib.Runs

/-!
# The order of `tickslock` and `ptable.lock`

The code that takes both of these spinlocks: the timer interrupt in `trap`, with the
`yield` behind it, `sys_sleep` with `sleep`, `allocproc`, and the passes of `scheduler`.
The timer and `sys_sleep` take `ptable.lock` while they have `tickslock`; `allocproc` and
the scheduler do it the other way round.

## Implementation notes

CPUs and processes are of arbitrary types; `boot` is the CPU whose `cpuid()` is 0. The
step of a place says what the code does there to the locks. A CPU that spins in `acquire`
takes no step. What the code finds out (whether the time of a `sys_sleep` is up, whether
`allocproc` finds a slot, which level the scheduler looks at) is up to the move.
-/

namespace Xv6.Sync.LockOrder
open Lib Function

inductive Lock
  | tickslock
  | ptable
  deriving DecidableEq, Repr

/-- Where a process is when it is not on a CPU. -/
inductive Resume
  | yield
  | sleep
  | forkret
  deriving DecidableEq, Repr

/-- `p->state`, as far as it matters. -/
inductive Status
  | other
  | sleeping
  | runnable (r : Resume)
  deriving DecidableEq, Repr

/-- What a CPU does. The argument is the process that it runs, if there may be one. -/
inductive Place (π : Type)
  /-- User code, or kernel code that has neither lock. -/
  | running (p : π)
  /-- In `scheduler`, with interrupts enabled. -/
  | scheduling
  /-- In `trap`, before `acquire(&tickslock)`. -/
  | ticking (p : Option π)
  /-- In the `wakeup` of `trap`, before `acquire(&ptable.lock)`. -/
  | rousing (p : Option π)
  /-- Before the `release(&ptable.lock)` of `wakeup`. -/
  | roused (p : Option π)
  /-- In `trap`, before `release(&tickslock)`. -/
  | ticked (p : Option π)
  /-- In `yield`, before `acquire(&ptable.lock)`. -/
  | yielding (p : π)
  /-- At the end of `sleep`, with interrupts enabled. -/
  | woken (p : π)
  /-- In `sys_sleep` or at the end of `sleep`, before `acquire(&tickslock)`. -/
  | napping (p : π)
  /-- In the loop of `sys_sleep`. -/
  | waiting (p : π)
  /-- In `sleep`, before `acquire(&ptable.lock)`. -/
  | dozing (p : π)
  /-- In `sleep`, before `release(lk)`. -/
  | dozed (p : π)
  /-- In `allocproc`, before `acquire(&ptable.lock)`. -/
  | allocating (p : π)
  /-- In the loop of `allocproc`. -/
  | searching (p : π)
  /-- In `allocproc`, before `acquire(&tickslock)`. -/
  | dating (p : π)
  /-- In `allocproc`, before `release(&tickslock)`. -/
  | dated (p : π)
  /-- In `allocproc`, before `release(&ptable.lock)`. -/
  | allocated (p : π)
  /-- In `scheduler`, before `acquire(&ptable.lock)`. -/
  | entering
  /-- In a pass of `scheduler`. -/
  | passing
  /-- At the first or second level, before `acquire(&tickslock)`. -/
  | drawing
  /-- At the first or second level, before `release(&tickslock)`. -/
  | drawn
  /-- Behind `swtch`, before the `release(&ptable.lock)` of the process. -/
  | resumed (p : π) (r : Resume)
  deriving DecidableEq, Repr

/-- What happens next, where there is a choice. -/
inductive Move (π : Type)
  /-- The next statement; of two branches, the one that goes on to take another lock, if `more`. -/
  | go (more : Bool)
  /-- A timer interrupt. -/
  | timer
  /-- A process calls `sys_sleep`. -/
  | sysSleep
  /-- A process calls `fork`, which calls `allocproc`. -/
  | allocproc
  /-- `run_p` -/
  | run (q : π)
  deriving DecidableEq, Repr

/-- What a step does to the locks. -/
inductive Effect
  | quiet
  | acquire (l : Lock)
  | release (l : Lock)
  deriving DecidableEq, Repr

/-- `wakeup1(&ticks)` -/
def wakeup1 {π : Type} (status : π → Status) : π → Status := fun p =>
  if status p = .sleeping then .runnable .sleep else status p

/-- One step of a CPU: the lock, the place behind it, and the states of the processes. -/
def Place.next {π : Type} [DecidableEq π] (boot : Bool) (status : π → Status) :
    Place π → Move π → Option (Effect × Place π × (π → Status))
  | .running p, .timer => some (.quiet, if boot then .ticking (some p) else .yielding p, status)
  | .scheduling, .timer => if boot then some (.quiet, .ticking none, status) else none
  | .ticking p, .go _ => some (.acquire .tickslock, .rousing p, status)
  | .rousing p, .go _ => some (.acquire .ptable, .roused p, status)
  | .roused p, .go _ => some (.release .ptable, .ticked p, wakeup1 status)
  | .ticked (some p), .go _ => some (.release .tickslock, .yielding p, status)
  | .ticked none, .go _ => some (.release .tickslock, .scheduling, status)
  | .yielding p, .go _ =>
    some (.acquire .ptable, .passing, update status p (.runnable .yield))
  | .running p, .sysSleep => some (.quiet, .napping p, status)
  | .napping p, .go _ => some (.acquire .tickslock, .waiting p, status)
  | .waiting p, .go true => some (.quiet, .dozing p, status)
  | .waiting p, .go false => some (.release .tickslock, .running p, status)
  | .dozing p, .go _ => some (.acquire .ptable, .dozed p, status)
  | .dozed p, .go _ =>
    some (.release .tickslock, .passing, update status p .sleeping)
  | .running p, .allocproc => some (.quiet, .allocating p, status)
  | .allocating p, .go _ => some (.acquire .ptable, .searching p, status)
  | .searching p, .go true => some (.quiet, .dating p, status)
  | .searching p, .go false => some (.release .ptable, .running p, status)
  | .dating p, .go _ => some (.acquire .tickslock, .dated p, status)
  | .dated p, .go _ => some (.release .tickslock, .allocated p, status)
  | .allocated p, .go _ => some (.release .ptable, .running p, status)
  | .scheduling, .go _ => some (.quiet, .entering, status)
  | .entering, .go _ => some (.acquire .ptable, .passing, status)
  | .passing, .go true => some (.quiet, .drawing, status)
  | .passing, .go false => some (.release .ptable, .scheduling, status)
  | .passing, .run q =>
    match status q with
    | .runnable r => some (.quiet, .resumed q r, update status q .other)
    | _ => none
  | .drawing, .go _ => some (.acquire .tickslock, .drawn, status)
  | .drawn, .go _ => some (.release .tickslock, .passing, status)
  | .resumed p .sleep, .go _ => some (.release .ptable, .woken p, status)
  | .woken p, .timer => some (.quiet, if boot then .ticking (some p) else .yielding p, status)
  | .woken p, .go _ => some (.quiet, .napping p, status)
  | .resumed p _, .go _ => some (.release .ptable, .running p, status)
  | _, _ => none

namespace Place

variable {π : Type}

/-- The locks that the code has there. -/
def has : Place π → Lock → Bool
  | rousing _, .tickslock | ticked _, .tickslock | waiting _, .tickslock
  | dozing _, .tickslock => true
  | searching _, .ptable | dating _, .ptable | allocated _, .ptable | passing, .ptable
  | drawing, .ptable | resumed _ _, .ptable => true
  | roused _, _ | dozed _, _ | dated _, _ | drawn, _ => true
  | _, _ => false

/-- The lock that it spins for if another CPU has it. -/
def wants : Place π → Option Lock
  | ticking _ | napping _ | dating _ | drawing => some .tickslock
  | rousing _ | yielding _ | dozing _ | allocating _ | entering => some .ptable
  | _ => none

/-- It has the other lock, and may come to want this one before it releases that. -/
def mayWant : Place π → Option Lock
  | rousing _ | waiting _ | dozing _ => some .ptable
  | searching _ | dating _ | passing | drawing => some .tickslock
  | _ => none

end Place

/-- The locks with their holders, and what the CPUs and the processes do. -/
structure Sys (ι π : Type) where
  holder : Lock → Option ι
  place : ι → Place π
  status : π → Status

namespace Sys

variable {ι π : Type} [DecidableEq ι] [DecidableEq π]

/-- `c` does something to the locks. -/
def apply (holder : Lock → Option ι) (c : ι) : Effect → Option (Lock → Option ι)
  | .quiet => some holder
  | .acquire l => if holder l = none then some (update holder l (some c)) else none
  | .release l => some (update holder l none)

/-- One step of CPU `c`. -/
def step (boot : ι) (s : Sys ι π) (m : ι × Move π) : Option (Sys ι π) := do
  let (effect, place, status) ← (s.place m.1).next (m.1 = boot) s.status m.2
  let holder ← apply s.holder m.1 effect
  pure ⟨holder, update s.place m.1 place, status⟩

/-- No CPU has a lock or is in the code. -/
structure Idle (s : Sys ι π) : Prop where
  holder : ∀ l, s.holder l = none
  place : ∀ c, s.place c = .scheduling ∨ ∃ p, s.place c = .running p

/-- Two CPUs each spin for a lock that the other one has. -/
def Deadlock (s : Sys ι π) : Prop :=
  ∃ c d l l', c ≠ d ∧ (s.place c).wants = some l ∧ s.holder l = some d ∧
    (s.place d).wants = some l' ∧ s.holder l' = some c

/-- No CPU that has neither lock takes one of them while another CPU has the other one and may come
to want the first. -/
def Careful (s : Sys ι π) (m : ι × Move π) : Prop :=
  ∀ l, (s.place m.1).wants = some l → (∀ k, (s.place m.1).has k = false) →
    ∀ d, (s.place d).mayWant ≠ some l

end Sys

/-! ### The step of a place -/

lemma Lock.forall {P : Lock → Prop} : (∀ k, P k) ↔ P .tickslock ∧ P .ptable := by
  constructor
  · exact fun h => ⟨h _, h _⟩
  rintro ⟨hticks, htable⟩ (_ | _)
  · exact hticks
  · exact htable

/-- What a step that does this to the locks leaves. -/
def Place.After {π : Type} (a b : Place π) : Effect → Prop
  | .quiet => a.wants = none ∧ (∀ k, b.has k = a.has k) ∧
      ∀ l, b.mayWant = some l → a.mayWant = some l
  | .acquire l => a.wants = some l ∧ (∀ k, b.has k = (decide (k = l) || a.has k)) ∧
      ∀ l', b.mayWant = some l' ↔ l' ≠ l ∧ ∀ k, a.has k = false
  | .release l => a.wants = none ∧ a.has l = true ∧
      (∀ k, b.has k = (!decide (k = l) && a.has k)) ∧
      ∀ l', b.mayWant = some l' → ∀ k, a.has k = true

section Place
variable {π : Type} [DecidableEq π] {a b : Place π} {boot : Bool} {status status' : π → Status}
  {m : Move π} {e : Effect}

lemma Place.next_after (h : a.next boot status m = some (e, b, status')) : a.After b e := by
  unfold Place.next at h
  split at h
  all_goals try split at h
  all_goals cases h
  -- what is left is a table, to be looked up for each of the two locks
  all_goals simp [After, Lock.forall, has, mayWant, wants]

omit [DecidableEq π] in
lemma Place.has_of_mayWant {l : Lock} (h : a.mayWant = some l) : ∃ k, k ≠ l ∧ a.has k = true := by
  cases l with
  | tickslock =>
    refine ⟨.ptable, nofun, ?_⟩
    cases a <;> first | rfl | cases h
  | ptable =>
    refine ⟨.tickslock, nofun, ?_⟩
    cases a <;> first | rfl | cases h

omit [DecidableEq π] in
lemma Place.mayWant_of_wants {l k : Lock} (h : a.wants = some l) (hk : a.has k = true) :
    a.mayWant = some l ∧ k ≠ l := by
  cases a <;> cases k <;> cases h
  all_goals simp [has, mayWant] at hk ⊢

omit [DecidableEq π] in
lemma Place.wants_or_next [DecidableEq π] (boot : Bool) (status : π → Status) {l : Lock}
    (h : a.mayWant = some l) :
    a.wants = some l ∨ ∃ b, a.next boot status (.go true) = some (.quiet, b, status) ∧
      b.wants = some l := by
  cases a <;> cases h
  case rousing => exact .inl rfl
  case dozing => exact .inl rfl
  case dating => exact .inl rfl
  case drawing => exact .inl rfl
  all_goals exact .inr ⟨_, rfl, rfl⟩

end Place

/-! ### The machine -/

namespace Sys

section Invariants
variable {ι π : Type} {s : Sys ι π}

/-- The holders are as the places say. -/
def Owned (s : Sys ι π) : Prop := ∀ l c, s.holder l = some c ↔ (s.place c).has l = true

/-- There are no two CPUs of which each may come to want what the other one has. -/
def Ordered (s : Sys ι π) : Prop :=
  ∀ c d l l', (s.place c).mayWant = some l → (s.place d).mayWant = some l' → l = l'

lemma Idle.bare (h : s.Idle) (c : ι) :
    (∀ l, (s.place c).has l = false) ∧ (s.place c).mayWant = none := by
  rcases h.place c with hc | ⟨p, hc⟩
  · rw [hc]
    exact ⟨fun l => by cases l <;> rfl, rfl⟩
  · rw [hc]
    exact ⟨fun l => by cases l <;> rfl, rfl⟩

lemma Idle.owned (h : s.Idle) : s.Owned := by
  intro l c
  simp [h.holder l, (h.bare c).1 l]

lemma Idle.ordered (h : s.Idle) : s.Ordered := by
  intro c d l l' hl
  rw [(h.bare c).2] at hl
  cases hl

lemma Ordered.not_deadlock (h : s.Ordered) (ho : s.Owned) : ¬ s.Deadlock := by
  rintro ⟨c, d, l, l', -, hl, hd, hl', hc⟩
  obtain ⟨hmay, hne⟩ := Place.mayWant_of_wants hl ((ho l' c).mp hc)
  obtain ⟨hmay', -⟩ := Place.mayWant_of_wants hl' ((ho l d).mp hd)
  exact hne (h c d l l' hmay hmay').symm

lemma Ordered.after (h : s.Ordered) (ho : s.Owned) {m : ι × Move π} {e : Effect} {b : Place π}
    (hc : Careful s m) (hb : (s.place m.1).After b e) {l : Lock} (hl : b.mayWant = some l) {d : ι}
    (hd : d ≠ m.1) {l' : Lock} (hl' : (s.place d).mayWant = some l') : l = l' := by
  cases e with
  | quiet => exact h _ _ _ _ (hb.2.2 l hl) hl'
  | acquire k =>
    obtain ⟨hwants, -, hmay⟩ := hb
    obtain ⟨hne, hnone⟩ := (hmay l).mp hl
    have hne' : l' ≠ k := fun heq => hc k hwants hnone d (heq ▸ hl')
    cases l <;> cases l' <;> cases k <;> simp_all
  | release k =>
    -- the step starts with both locks, but the other CPU has one, too
    obtain ⟨-, -, -, hmay⟩ := hb
    obtain ⟨k', -, hk'⟩ := Place.has_of_mayWant hl'
    have hheld := (ho k' m.1).mpr (hmay l hl k')
    rw [(ho k' d).mpr hk'] at hheld
    exact absurd (Option.some.inj hheld) hd

end Invariants

variable {ι π : Type} [DecidableEq ι] [DecidableEq π] {boot : ι} {s s' : Sys ι π} {m : ι × Move π}

lemma step_cases (h : step boot s m = some s') :
    ∃ e b, (s.place m.1).After b e ∧ apply s.holder m.1 e = some s'.holder ∧
      s'.place = update s.place m.1 b := by
  obtain ⟨⟨e, b, status⟩, hnext, h⟩ := Option.bind_eq_some_iff.mp h
  obtain ⟨holder, happly, h⟩ := Option.bind_eq_some_iff.mp h
  cases h
  exact ⟨e, b, Place.next_after hnext, happly, rfl⟩

lemma Owned.step (h : s.Owned) (hstep : Sys.step boot s m = some s') : s'.Owned := by
  obtain ⟨e, b, hb, happly, hplace⟩ := step_cases hstep
  intro l d
  have hold := h l d
  rw [hplace]
  cases e with
  | quiet =>
    rw [← Option.some.inj happly]
    by_cases hd : d = m.1
    · rwa [hd, update_self, hb.2.1, ← hd]
    · rwa [update_of_ne hd]
  | acquire k =>
    obtain ⟨-, hhas, -⟩ := hb
    rw [apply] at happly
    split at happly
    next hfree =>
      rw [← Option.some.inj happly]
      by_cases hd : d = m.1
      · rw [hd, update_self, hhas, ← hd]
        by_cases hl : l = k
        · simp [hl, hd]
        · simpa [hl] using hold
      rw [update_of_ne hd]
      by_cases hl : l = k
      · subst hl
        rw [update_self, ← hold, hfree]
        simp [Ne.symm hd]
      · rwa [update_of_ne hl]
    next => cases happly
  | release k =>
    obtain ⟨-, hheld, hhas, -⟩ := hb
    rw [← Option.some.inj happly]
    by_cases hd : d = m.1
    · rw [hd, update_self, hhas, ← hd]
      by_cases hl : l = k
      · simp [hl]
      · simpa [hl] using hold
    rw [update_of_ne hd]
    by_cases hl : l = k
    · subst hl
      rw [update_self, ← hold, (h l m.1).mpr hheld]
      simp [Ne.symm hd]
    · rwa [update_of_ne hl]

lemma Ordered.step (h : s.Ordered) (ho : s.Owned) (hc : Careful s m)
    (hstep : Sys.step boot s m = some s') : s'.Ordered := by
  obtain ⟨e, b, hb, -, hplace⟩ := step_cases hstep
  intro c d l l' hl hl'
  rw [hplace] at hl hl'
  by_cases hcm : c = m.1 <;> by_cases hdm : d = m.1
  · rw [hcm, update_self] at hl
    rw [hdm, update_self, hl] at hl'
    exact Option.some.inj hl'
  · rw [hcm, update_self] at hl
    rw [update_of_ne hdm] at hl'
    exact h.after ho hc hb hl hdm hl'
  · rw [hdm, update_self] at hl'
    rw [update_of_ne hcm] at hl
    exact (h.after ho hc hb hl' hcm hl).symm
  rw [update_of_ne hcm] at hl
  rw [update_of_ne hdm] at hl'
  exact h c d l l' hl hl'

/-- A CPU that may come to want a lock can go there without another lock. -/
lemma exists_wants (boot : ι) {c : ι} {l : Lock} (h : (s.place c).mayWant = some l) :
    ∃ s', Reaches (step boot) (fun _ _ => True) s s' ∧ s'.holder = s.holder ∧
      (s'.place c).wants = some l ∧ ∀ d ≠ c, s'.place d = s.place d := by
  rcases Place.wants_or_next (decide (c = boot)) s.status h with hwants | ⟨b, hnext, hwants⟩
  · exact ⟨s, .refl, rfl, hwants, fun _ _ => rfl⟩
  have hstep : step boot s (c, .go true) = some ⟨s.holder, update s.place c b, s.status⟩ := by
    simp [step, hnext, apply]
  refine ⟨_, .single ⟨_, trivial, hstep⟩, rfl, ?_, fun d hd => ?_⟩
  · change (update s.place c b c).wants = some l
    rwa [update_self]
  · exact update_of_ne hd _ _

/-- From a step that is not careful, the machine can run into a deadlock. -/
lemma deadlock_of_careless (h : s.Owned) (hm : ¬ Careful s m)
    (hstep : Sys.step boot s m = some s') :
    ∃ t, Reaches (step boot) (fun _ _ => True) s' t ∧ t.Deadlock := by
  have ho' := h.step hstep
  simp only [Careful, not_forall, not_not] at hm
  obtain ⟨l, hwants, hnone, d, hd⟩ := hm
  obtain ⟨e, b, hb, -, hplace⟩ := step_cases hstep
  obtain ⟨k, hkl, hk⟩ := Place.has_of_mayWant hd
  have hne : m.1 ≠ d := by
    rintro rfl
    rw [hnone k] at hk
    cases hk
  have hc : (s'.place m.1).mayWant = some k ∧ (s'.place m.1).has l = true := by
    rw [hplace, update_self]
    cases e with
    | quiet | release k' => exact absurd (hwants.symm.trans hb.1) nofun
    | acquire k' =>
      obtain ⟨hk', hhas, hmay⟩ := hb
      obtain rfl := Option.some.inj (hwants.symm.trans hk')
      exact ⟨(hmay k).mpr ⟨hkl, hnone⟩, by simp [hhas]⟩
  have hd' : (s'.place d).mayWant = some l ∧ (s'.place d).has k = true := by
    rw [hplace, update_of_ne hne.symm]
    exact ⟨hd, hk⟩
  obtain ⟨t, hreach, hholder, hwantsc, hothers⟩ := exists_wants boot hc.1
  have hdt : (t.place d).mayWant = some l := by
    rw [hothers d hne.symm]
    exact hd'.1
  obtain ⟨u, hreach', hholder', hwantsd, hothers'⟩ := exists_wants boot hdt
  refine ⟨u, hreach.trans hreach', m.1, d, k, l, hne, ?_, ?_, hwantsd, ?_⟩
  · rwa [hothers' _ hne]
  · rw [hholder', hholder]
    exact (ho' k d).mpr hd'.2
  · rw [hholder', hholder]
    exact (ho' l m.1).mpr hc.2

end Sys

open Sys

/-- In a run of careful steps no two CPUs come to spin for each other, and any step that is not
careful can lead to it. -/
theorem no_inversion_of_careful {ι π : Type} [DecidableEq ι] [DecidableEq π] (boot : ι)
    {s : Sys ι π} (hs : s.Idle) : (∀ s', Reaches (step boot) Careful s s' → ¬ s'.Deadlock) ∧
      ∀ s' m s'', Reaches (step boot) (fun _ _ => True) s s' → ¬ Careful s' m →
        step boot s' m = some s'' →
        ∃ t, Reaches (step boot) (fun _ _ => True) s'' t ∧ t.Deadlock := by
  constructor
  · intro s' hreach
    have hinv : s'.Owned ∧ s'.Ordered := by
      refine hreach.invariant (I := fun s => s.Owned ∧ s.Ordered) ?_ ⟨hs.owned, hs.ordered⟩
      rintro s s' m ⟨ho, h⟩ hm hstep
      exact ⟨ho.step hstep, h.step ho hm hstep⟩
    exact hinv.2.not_deadlock hinv.1
  intro s' m s'' hreach hm hstep
  have ho : s'.Owned :=
    hreach.invariant (fun s s' m ho _ hstep => ho.step hstep) hs.owned
  exact deadlock_of_careless ho hm hstep

/-- Two CPUs, each of which runs a process. -/
def twoRunning : Sys (Fin 2) (Fin 2) := ⟨fun _ => none, fun c => .running c, fun _ => .other⟩

/-- The timer interrupts the first CPU. -/
def oneTicking : Sys (Fin 2) (Fin 2) := { twoRunning with
  place := update twoRunning.place ⟨0, Nat.two_pos⟩ (.ticking (some ⟨0, Nat.two_pos⟩)) }

theorem tick_no_inversion : ∃ s, Reaches (step 0) Careful twoRunning s ∧
    s.place 0 = .rousing (some 0) ∧ ¬ s.Deadlock := by
  have htimer : Careful twoRunning (0, .timer) := fun l hl => by cases hl
  have hgo : Careful oneTicking (0, .go true) := by
    intro l hl _ d
    match d with
    | 0 => exact nofun
    | 1 => exact nofun
  have hreach : Reaches (step 0) Careful twoRunning oneTicking := .single ⟨_, htimer, rfl⟩
  have hreach' := hreach.tail ⟨(0, .go true), hgo, rfl⟩
  exact ⟨_, hreach', rfl,
    (no_inversion_of_careful 0 ⟨fun _ => rfl, fun c => .inr ⟨c, rfl⟩⟩).1 _ hreach'⟩

/-- A process forks on one CPU, and the timer interrupts the other. -/
theorem fork_tick_deadlock : ∃ s, Reaches (step 0) (fun _ _ => True) twoRunning s ∧ s.Deadlock := by
  obtain ⟨s, hreach, hholder, hholder', hplace, hplace'⟩ := exists_of_execAll (step 0)
    (fun _ _ => True) twoRunning
    [(1, .allocproc), (1, .go true), (1, .go true), (0, .timer), (0, .go true)]
    (fun s => s.holder .tickslock = some 0 ∧ s.holder .ptable = some 1 ∧
      (s.place 0).wants = some .ptable ∧ (s.place 1).wants = some .tickslock) (by decide)
  refine ⟨s, hreach, ?_⟩
  exact ⟨0, 1, .ptable, .tickslock, by decide, hplace, hholder', hplace', hholder⟩

end Xv6.Sync.LockOrder
