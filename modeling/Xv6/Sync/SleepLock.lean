import Mathlib.Logic.Function.Basic
import Mathlib.Tactic.Simps.Basic
import Xv6.Lib.Runs

/-!
# The sleep-locks of `sleeplock.c`

`acquiresleep` and `releasesleep`, taken apart into the steps that other processes
can come between: each `acquire` and `release` of `lk->lk` and of `ptable.lock`, each
test and each change of the lock, the change of the state in `sleep`, and the scan
of `wakeup1`.

## Implementation notes

Processes are of an arbitrary type. A process that waits for a spinlock takes no
step. The scheduler lets go of `ptable.lock` when a process has gone to sleep, and
takes it to resume one. Outside of this code a process may hold `ptable.lock` too, and
it may then make any sleeper `RUNNABLE`, as `kill` does.
-/

namespace Xv6.Sync
open Lib Function

/-- Where a process is. `mine` tells whether it has the sleep-lock. -/
inductive Place where
  | outside
  /-- Before `acquire(&lk->lk)`, in `acquiresleep` or at the end of `sleep`. -/
  | acquiring
  /-- Before the test of `lk->locked`. -/
  | testing
  /-- In `sleep`, before `acquire(&ptable.lock)`. -/
  | toSleep
  /-- In `sleep`, before `release(lk)`. -/
  | leaving
  /-- In `sleep`, before `p->state = SLEEPING`. -/
  | dozing
  | sleeping
  /-- `RUNNABLE`, but not out of `sched` yet. -/
  | woken
  /-- In `sleep`, before `release(&ptable.lock)`. -/
  | waking
  /-- Before the `release(&lk->lk)` of `acquiresleep`. -/
  | taken
  /-- `acquiresleep` has returned. -/
  | holding
  /-- In `releasesleep`, before `acquire(&lk->lk)`. -/
  | releasing
  /-- Before `lk->locked = 0`. -/
  | freeing
  /-- In `wakeup`, before `acquire(&ptable.lock)`. -/
  | freed
  /-- Before `wakeup1`. -/
  | scanning
  /-- In `wakeup`, before `release(&ptable.lock)`. -/
  | scanned
  /-- Before the `release(&lk->lk)` of `releasesleep`. -/
  | finishing
  /-- In `holdingsleep`, before `acquire(&lk->lk)`. -/
  | asking (mine : Bool)
  /-- In `holdingsleep`, with `lk->lk`. -/
  | checking (mine : Bool)
  /-- With `ptable.lock`, for some other purpose. -/
  | busy (mine : Bool)
  deriving DecidableEq, Repr

namespace Place

/-- Out of the code of the lock, with or without it. -/
def back (mine : Bool) : Place := if mine then .holding else .outside

/-- It has `lk->lk`. -/
def hasLk : Place → Bool
  | testing | toSleep | leaving | taken | freeing | freed | scanning | scanned | finishing => true
  | checking _ => true
  | _ => false

/-- It has `ptable.lock`. -/
def hasTable : Place → Bool
  | leaving | dozing | waking | scanning | scanned => true
  | busy _ => true
  | _ => false

/-- Its `acquiresleep` has returned, and it has not called `releasesleep`. -/
def inside : Place → Bool
  | holding => true
  | asking mine | checking mine | busy mine => mine
  | _ => false

/-- `lk->locked` has been set for it. -/
def owner (a : Place) : Bool :=
  match a with
  | taken | releasing | freeing => true
  | _ => a.inside

/-- It has found `lk->locked` set, and still has `lk->lk`. -/
def found : Place → Bool
  | toSleep | leaving => true
  | _ => false

/-- It can only go on after a wakeup. -/
def waits : Place → Bool
  | dozing | sleeping => true
  | _ => false

/-- It has reset `lk->locked`, and is going to call `wakeup1`. -/
def rouses : Place → Bool
  | freed | scanning => true
  | _ => false

/-- The two places are alike in what they say about the lock. -/
structure Like (a b : Place) : Prop where
  owner : b.owner = a.owner
  rouses : b.rouses = a.rouses

/-- `wakeup1(lk)` -/
def wakeup1 : Place → Place
  | sleeping => woken
  | a => a

end Place

/-- `struct sleeplock`, the spinlocks with their holders, and the processes. -/
structure Sys (ι : Type) where
  locked : UInt32
  pid : Int32
  lk : Option ι
  ptable : Option ι
  place : ι → Place

/-- Who moves. -/
inductive Move (ι : Type) where
  | acquiresleep (i : ι)
  | releasesleep (i : ι)
  | holdingsleep (i : ι)
  /-- Take `ptable.lock` for some other purpose. -/
  | lockTable (i : ι)
  /-- Process `j`, with `ptable.lock`, makes process `i` runnable. -/
  | rouse (j i : ι)
  /-- Go on. -/
  | run (i : ι)

namespace Sys

variable {ι : Type} [DecidableEq ι] (myproc : ι → Int32) (s : Sys ι) (i : ι) (a : Place)

@[simps -fullyApplied]
def go : Sys ι := { s with place := update s.place i a }

@[simps -fullyApplied]
def setLk (o : Option ι) : Sys ι := { s with lk := o }

@[simps -fullyApplied]
def setTable (o : Option ι) : Sys ι := { s with ptable := o }

@[simps -fullyApplied]
def setLocked (n : UInt32) (pid : Int32) : Sys ι := { s with locked := n, pid := pid }

@[simps -fullyApplied]
def wakeup1 : Sys ι := { s with place := fun j => (s.place j).wakeup1 }

/-- `acquire(&lk->lk)` -/
def acquireLk : Option (Sys ι) := if s.lk = none then some ((s.setLk (some i)).go i a) else none

/-- `release(&lk->lk)` -/
def releaseLk : Sys ι := (s.setLk none).go i a

/-- `acquire(&ptable.lock)` -/
def acquireTable : Option (Sys ι) :=
  if s.ptable = none then some ((s.setTable (some i)).go i a) else none

/-- `release(&ptable.lock)`, or the scheduler's -/
def releaseTable : Sys ι := (s.setTable none).go i a

/-- A process that is in none of the functions. -/
def idle : Option Bool :=
  match s.place i with
  | .outside => some false
  | .holding => some true
  | _ => none

/-- Process `i` goes on. -/
def run : Option (Sys ι) :=
  match s.place i with
  | .outside | .sleeping | .holding => none
  -- `acquiresleep`
  | .acquiring => s.acquireLk i .testing
  | .testing =>
    if s.locked ≠ 0 then some (s.go i .toSleep)
    else some ((s.setLocked 1 (myproc i)).go i .taken)
  | .taken => some (s.releaseLk i .holding)
  -- `sleep`
  | .toSleep => s.acquireTable i .leaving
  | .leaving => some (s.releaseLk i .dozing)
  | .dozing => some (s.releaseTable i .sleeping)
  | .woken => s.acquireTable i .waking
  | .waking => some (s.releaseTable i .acquiring)
  -- `releasesleep`
  | .releasing => s.acquireLk i .freeing
  | .freeing => some ((s.setLocked 0 0).go i .freed)
  | .finishing => some (s.releaseLk i .outside)
  -- `wakeup`
  | .freed => s.acquireTable i .scanning
  | .scanning => some (s.wakeup1.go i .scanned)
  | .scanned => some (s.releaseTable i .finishing)
  -- `holdingsleep`
  | .asking mine => s.acquireLk i (.checking mine)
  | .checking mine => some (s.releaseLk i (.back mine))
  | .busy mine => some (s.releaseTable i (.back mine))

/-- The value of `r` in `holdingsleep`. -/
def holdingsleep : Bool := s.locked ≠ 0 ∧ s.pid = myproc i

def step : Move ι → Option (Sys ι)
  | .acquiresleep i => if s.place i = .outside then some (s.go i .acquiring) else none
  | .releasesleep i => if s.place i = .holding then some (s.go i .releasing) else none
  | .holdingsleep i => (s.idle i).map fun mine => s.go i (.asking mine)
  | .lockTable i => (s.idle i).bind fun mine => s.acquireTable i (.busy mine)
  | .rouse j i =>
    match s.place j with
    | .busy _ => if s.place i = .sleeping then some (s.go i .woken) else none
    | _ => none
  | .run i => s.run myproc i

end Sys

variable {ι : Type}

/-- After `initsleeplock`. -/
def Sys.init : Sys ι where
  locked := 0
  pid := 0
  lk := none
  ptable := none
  place := fun _ => .outside

/-- What holds in every state. -/
structure Sys.Safe (myproc : ι → Int32) (s : Sys ι) : Prop where
  lk : ∀ i, s.lk = some i ↔ (s.place i).hasLk = true
  ptable : ∀ i, s.ptable = some i ↔ (s.place i).hasTable = true
  owner : ∀ i, (s.place i).owner = true → s.locked = 1 ∧ s.pid = myproc i
  one : ∀ i j, (s.place i).owner = true → (s.place j).owner = true → i = j
  owned : s.locked ≠ 0 → ∃ i, (s.place i).owner = true
  found : ∀ i, (s.place i).found = true → s.locked = 1
  waits : ∀ i, (s.place i).waits = true → s.locked = 1 ∨ ∃ j, (s.place j).rouses = true

/-! ### One step -/

lemma Sys.idle_eq {s : Sys ι} {i : ι} {mine : Bool} (h : s.idle i = some mine) :
    s.place i = .back mine := by
  unfold idle at h
  split at h
  · rename_i hi
    cases h
    exact hi
  · rename_i hi
    cases h
    exact hi
  · cases h

section Step
variable [DecidableEq ι] {myproc : ι → Int32} {s s' : Sys ι} {i : ι} {a b : Place}

section
variable {f : Place → Bool} {o : Option ι} (h : ∀ j, o = some j ↔ f (s.place j) = true)
include h

lemma holder_keep (hb : f b = f (s.place i)) (j : ι) :
    o = some j ↔ f (update s.place i b j) = true := by
  by_cases hj : j = i
  · subst hj
    rw [update_self, hb]
    exact h j
  · rw [update_of_ne hj]
    exact h j

lemma holder_acquire (ho : o = none) (hb : f b = true) (j : ι) :
    some i = some j ↔ f (update s.place i b j) = true := by
  by_cases hj : j = i
  · subst hj
    simp [hb]
  have hfree : ¬ f (s.place j) = true := by
    rw [← h j, ho]
    exact nofun
  simp [hj, Ne.symm hj, hfree]

lemma holder_release (hi : f (s.place i) = true) (hb : f b = false) (j : ι) :
    none = some j ↔ f (update s.place i b j) = true := by
  by_cases hj : j = i
  · subst hj
    simp [hb]
  have hother : ¬ f (s.place j) = true := by
    intro hf
    exact hj (Option.some.inj (((h j).mpr hf).symm.trans ((h i).mpr hi)))
  simp [hj, hother]

end

namespace Sys.Safe

section
variable (h : s.Safe myproc)
include h

lemma move (hi : s.place i = a) (hab : a.Like b) {o o' : Option ι}
    (hlk : ∀ j, o = some j ↔ (update s.place i b j).hasLk = true)
    (htable : ∀ j, o' = some j ↔ (update s.place i b j).hasTable = true)
    (hfound : b.found = true → s.locked = 1)
    (hwaits : b.waits = true → a.waits = true ∨ s.locked = 1) :
    (((s.setLk o).setTable o').go i b).Safe myproc := by
  have hlike : ∀ j, (s.place j).Like (update s.place i b j) := by
    intro j
    by_cases hj : j = i
    · subst hj
      rw [update_self, hi]
      exact hab
    · rw [update_of_ne hj]
      exact ⟨rfl, rfl⟩
  refine ⟨hlk, htable, fun j hj => h.owner j ?_, fun j k hj hk => h.one j k ?_ ?_, fun hl => ?_,
    fun j hj => ?_, fun j hj => ?_⟩
  · exact (hlike j).owner.symm.trans hj
  · exact (hlike j).owner.symm.trans hj
  · exact (hlike k).owner.symm.trans hk
  · obtain ⟨j, hj⟩ := h.owned hl
    exact ⟨j, (hlike j).owner.trans hj⟩
  · by_cases hji : j = i
    · subst hji
      exact hfound (by simpa using hj)
    · exact h.found j (by simpa [hji] using hj)
  have hbefore : s.locked = 1 ∨ ∃ j, (s.place j).rouses = true := by
    by_cases hji : j = i
    · subst hji
      refine (hwaits (by simpa using hj)).elim (fun ha => h.waits j ?_) .inl
      rw [hi]
      exact ha
    · exact h.waits j (by simpa [hji] using hj)
  refine hbefore.imp id ?_
  rintro ⟨k, hk⟩
  exact ⟨k, (hlike k).rouses.trans hk⟩

/-- No spinlock changes hands. -/
lemma go (hi : s.place i = a) (hab : a.Like b) (hlk : b.hasLk = a.hasLk)
    (htable : b.hasTable = a.hasTable) (hfound : b.found = true → s.locked = 1)
    (hwaits : b.waits = false) : (s.go i b).Safe myproc := by
  refine h.move hi hab (holder_keep h.lk ?_) (holder_keep h.ptable ?_) hfound (by simp [hwaits])
  · rw [hi, hlk]
  · rw [hi, htable]

lemma acquireLk (hstep : s.acquireLk i b = some s') (hi : s.place i = a) (hab : a.Like b)
    (hlk : b.hasLk = true) (htable : b.hasTable = a.hasTable) (hfound : b.found = false)
    (hwaits : b.waits = false) : s'.Safe myproc := by
  obtain ⟨hfree, rfl⟩ := of_guard hstep
  refine h.move hi hab (holder_acquire h.lk hfree hlk) (holder_keep h.ptable ?_)
    (by simp [hfound]) (by simp [hwaits])
  rw [hi, htable]

lemma acquireTable (hstep : s.acquireTable i b = some s') (hi : s.place i = a) (hab : a.Like b)
    (hlk : b.hasLk = a.hasLk) (htable : b.hasTable = true)
    (hfound : b.found = true → a.found = true) (hwaits : b.waits = false) : s'.Safe myproc := by
  obtain ⟨hfree, rfl⟩ := of_guard hstep
  refine h.move hi hab (holder_keep h.lk ?_) (holder_acquire h.ptable hfree htable)
    (fun hb => h.found i ?_) (by simp [hwaits])
  · rw [hi, hlk]
  · rw [hi]
    exact hfound hb

lemma releaseLk (hi : s.place i = a) (hab : a.Like b) (hlk : a.hasLk = true)
    (hlk' : b.hasLk = false) (htable : b.hasTable = a.hasTable) (hfound : b.found = false)
    (hwaits : b.waits = true → a.found = true) : (s.releaseLk i b).Safe myproc := by
  refine h.move hi hab (holder_release h.lk ?_ hlk') (holder_keep h.ptable ?_)
    (by simp [hfound]) fun hb => .inr (h.found i ?_)
  · rw [hi, hlk]
  · rw [hi, htable]
  · rw [hi]
    exact hwaits hb

lemma releaseTable (hi : s.place i = a) (hab : a.Like b) (hlk : b.hasLk = a.hasLk)
    (htable : a.hasTable = true) (htable' : b.hasTable = false) (hfound : b.found = false)
    (hwaits : b.waits = true → a.waits = true) : (s.releaseTable i b).Safe myproc := by
  refine h.move hi hab (holder_keep h.lk ?_) (holder_release h.ptable ?_ htable')
    (by simp [hfound]) fun hb => .inl (hwaits hb)
  · rw [hi, hlk]
  · rw [hi, htable]

lemma take (hi : s.place i = .testing) (hfree : s.locked = 0) :
    ((s.setLocked 1 (myproc i)).go i .taken).Safe myproc := by
  have hnone : ∀ j, (s.place j).owner = false := by
    intro j
    by_contra hj
    have hlocked := (h.owner j (by simpa using hj)).1
    rw [hfree] at hlocked
    exact absurd hlocked (by decide)
  have howner : ∀ j, (update s.place i .taken j).owner = true ↔ j = i := by
    intro j
    by_cases hj : j = i
    · simp [hj, Place.owner]
    · simp [hj, hnone j]
  refine ⟨holder_keep h.lk (by simp [hi, Place.hasLk]),
    holder_keep h.ptable (by simp [hi, Place.hasTable]), fun j hj => ?_, fun j k hj hk => ?_,
    fun _ => ⟨i, (howner i).mpr rfl⟩, fun _ _ => rfl, fun _ _ => .inl rfl⟩
  · obtain rfl := (howner j).mp hj
    exact ⟨rfl, rfl⟩
  · exact ((howner j).mp hj).trans ((howner k).mp hk).symm

lemma free (hi : s.place i = .freeing) : ((s.setLocked 0 0).go i .freed).Safe myproc := by
  have howns : (s.place i).owner = true := by simp [hi, Place.owner]
  have howner : ∀ j, (update s.place i .freed j).owner = false := by
    intro j
    by_cases hj : j = i
    · simp [hj, Place.owner, Place.inside]
    rw [update_of_ne hj]
    by_contra hother
    exact hj (h.one j i (by simpa using hother) howns)
  have hfound : ∀ j, (update s.place i .freed j).found = false := by
    intro j
    by_cases hj : j = i
    · simp [hj, Place.found]
    -- it would have `lk->lk`
    rw [update_of_ne hj]
    by_contra hother
    have hlk : (s.place j).hasLk = true := by
      cases hplace : s.place j <;> simp_all [Place.found, Place.hasLk]
    have hme := (h.lk i).mpr (by simp [hi, Place.hasLk])
    exact hj (Option.some.inj (((h.lk j).mpr hlk).symm.trans hme))
  refine ⟨holder_keep h.lk (by simp [hi, Place.hasLk]),
    holder_keep h.ptable (by simp [hi, Place.hasTable]), fun j hj => ?_, fun j k hj => ?_,
    fun hne => absurd rfl hne, fun j hj => ?_, fun _ _ => .inr ⟨i, ?_⟩⟩
  · exact absurd hj (by simp [howner j])
  · exact absurd hj (by simp [howner j])
  · exact absurd hj (by simp [hfound j])
  · simp [Place.rouses]

/-- `wakeup1` leaves no sleeper. -/
lemma scan (hi : s.place i = .scanning) : (s.wakeup1.go i .scanned).Safe myproc := by
  have hkeep : ∀ f : Place → Bool, f .woken = f .sleeping → ∀ j, f (s.wakeup1.place j) =
      f (s.place j) := by
    intro f hf j
    cases hplace : s.place j <;> simp [Place.wakeup1, hplace, hf]
  have hlk : ∀ j, s.lk = some j ↔ (s.wakeup1.place j).hasLk = true := by
    intro j
    rw [hkeep Place.hasLk rfl]
    exact h.lk j
  have htable : ∀ j, s.ptable = some j ↔ (s.wakeup1.place j).hasTable = true := by
    intro j
    rw [hkeep Place.hasTable rfl]
    exact h.ptable j
  have hawake : ∀ j, (s.wakeup1.place j).waits = false := by
    intro j
    by_contra hj
    have hdozing : s.place j = .dozing := by
      cases hplace : s.place j <;> simp_all [Place.wakeup1, Place.waits]
    -- only one process has `ptable.lock`
    have hother := (h.ptable j).mpr (by simp [hdozing, Place.hasTable])
    have hme := (h.ptable i).mpr (by simp [hi, Place.hasTable])
    obtain rfl := Option.some.inj (hother.symm.trans hme)
    rw [hi] at hdozing
    cases hdozing
  have hi' : s.wakeup1.place i = .scanning := by simp [hi, Place.wakeup1]
  have howner : ∀ j, (update s.wakeup1.place i .scanned j).owner = (s.place j).owner := by
    intro j
    by_cases hj : j = i
    · simp [hj, hi, Place.owner, Place.inside]
    · rw [update_of_ne hj, hkeep Place.owner rfl]
  refine ⟨holder_keep hlk (by simp [hi', Place.hasLk]),
    holder_keep htable (by simp [hi', Place.hasTable]), fun j hj => h.owner j ?_,
    fun j k hj hk => h.one j k ?_ ?_, fun hl => ?_, fun j hj => ?_, fun j hj => ?_⟩
  · exact (howner j).symm.trans hj
  · exact (howner j).symm.trans hj
  · exact (howner k).symm.trans hk
  · obtain ⟨j, hj⟩ := h.owned hl
    exact ⟨j, (howner j).trans hj⟩
  · by_cases hji : j = i
    · subst hji
      simp [Place.found] at hj
    · rw [go_place, update_of_ne hji, hkeep Place.found rfl] at hj
      exact h.found j hj
  by_cases hji : j = i
  · subst hji
    simp [Place.waits] at hj
  · rw [go_place, update_of_ne hji, hawake] at hj
    cases hj

lemma run (hstep : s.run myproc i = some s') : s'.Safe myproc := by
  unfold Sys.run at hstep
  cases hi : s.place i with
  | outside | sleeping | holding =>
    rw [hi] at hstep
    cases hstep
  | acquiring | releasing | asking mine =>
    rw [hi] at hstep
    exact h.acquireLk hstep hi ⟨rfl, rfl⟩ rfl rfl rfl rfl
  | testing =>
    rw [hi] at hstep
    dsimp only at hstep
    split at hstep
    · rename_i hlocked
      cases hstep
      obtain ⟨j, hj⟩ := h.owned hlocked
      exact h.go hi ⟨rfl, rfl⟩ rfl rfl (fun _ => (h.owner j hj).1) rfl
    rename_i hlocked
    cases hstep
    exact h.take hi (not_not.mp hlocked)
  | taken | finishing =>
    rw [hi] at hstep
    cases hstep
    exact h.releaseLk hi ⟨rfl, rfl⟩ rfl rfl rfl rfl nofun
  | toSleep =>
    rw [hi] at hstep
    exact h.acquireTable hstep hi ⟨rfl, rfl⟩ rfl rfl id rfl
  | leaving =>
    rw [hi] at hstep
    cases hstep
    exact h.releaseLk hi ⟨rfl, rfl⟩ rfl rfl rfl rfl id
  | dozing =>
    rw [hi] at hstep
    cases hstep
    exact h.releaseTable hi ⟨rfl, rfl⟩ rfl rfl rfl rfl id
  | woken | freed =>
    rw [hi] at hstep
    exact h.acquireTable hstep hi ⟨rfl, rfl⟩ rfl rfl nofun rfl
  | waking | scanned =>
    rw [hi] at hstep
    cases hstep
    exact h.releaseTable hi ⟨rfl, rfl⟩ rfl rfl rfl rfl nofun
  | freeing =>
    rw [hi] at hstep
    cases hstep
    exact h.free hi
  | scanning =>
    rw [hi] at hstep
    cases hstep
    exact h.scan hi
  | checking mine =>
    rw [hi] at hstep
    cases hstep
    cases mine <;> exact h.releaseLk hi ⟨rfl, rfl⟩ rfl rfl rfl rfl nofun
  | busy mine =>
    rw [hi] at hstep
    cases hstep
    cases mine <;> exact h.releaseTable hi ⟨rfl, rfl⟩ rfl rfl rfl rfl nofun

lemma step {m : Move ι} (hstep : s.step myproc m = some s') : s'.Safe myproc := by
  cases m with
  | acquiresleep i | releasesleep i =>
    obtain ⟨hi, rfl⟩ := of_guard hstep
    exact h.go hi ⟨rfl, rfl⟩ rfl rfl nofun rfl
  | holdingsleep i =>
    obtain ⟨mine, hidle, rfl⟩ := Option.map_eq_some_iff.mp hstep
    have hi := Sys.idle_eq hidle
    cases mine <;> exact h.go hi ⟨rfl, rfl⟩ rfl rfl nofun rfl
  | lockTable i =>
    obtain ⟨mine, hidle, htable⟩ := Option.bind_eq_some_iff.mp hstep
    have hi := Sys.idle_eq hidle
    cases mine <;> exact h.acquireTable htable hi ⟨rfl, rfl⟩ rfl rfl nofun rfl
  | rouse j i =>
    simp only [Sys.step] at hstep
    split at hstep
    · obtain ⟨hi, rfl⟩ := of_guard hstep
      exact h.go hi ⟨rfl, rfl⟩ rfl rfl nofun rfl
    · cases hstep
  | run i => exact h.run hstep

end
end Sys.Safe

end Step

/-! ### All runs -/

section Runs
variable [DecidableEq ι] (myproc : ι → Int32)

/-- The states that are reached from `initsleeplock`. -/
def Sys.Reached (s : Sys ι) : Prop := Reaches (Sys.step myproc) (fun _ _ => True) Sys.init s

variable {myproc} {s : Sys ι}

lemma Sys.Reached.safe (h : Sys.Reached myproc s) : s.Safe myproc := by
  refine Reaches.invariant (I := Sys.Safe myproc) (fun s s' m hs _ hstep => hs.step hstep) h ?_
  constructor <;> simp [Sys.init, Place.hasLk, Place.hasTable, Place.owner, Place.inside,
    Place.found, Place.waits]

lemma Place.owner_of_inside {a : Place} (h : a.inside = true) : a.owner = true := by
  cases a <;> simp_all [Place.owner, Place.inside]

/-- At most one process is inside, `pid` is its number, and while `lk->lk` is free nobody sleeps
on a lock that is not locked. -/
theorem sleeplock_safe (h : Sys.Reached myproc s) :
    (∀ i j, (s.place i).inside = true → (s.place j).inside = true → i = j) ∧
      (∀ i, (s.place i).inside = true → s.pid = myproc i) ∧
      (s.lk = none → ∀ i, s.place i = .sleeping → s.locked = 1) := by
  have hs := h.safe
  refine ⟨fun i j hi hj => ?_, fun i hi => ?_, fun hlk i hi => ?_⟩
  · exact hs.one i j (Place.owner_of_inside hi) (Place.owner_of_inside hj)
  · exact (hs.owner i (Place.owner_of_inside hi)).2
  refine (hs.waits i (by simp [hi, Place.waits])).resolve_right ?_
  -- who is to call `wakeup1` has `lk->lk`
  rintro ⟨j, hj⟩
  have hhas : (s.place j).hasLk = true := by
    cases hplace : s.place j <;> simp_all [Place.rouses, Place.hasLk]
  rw [(hs.lk j).mpr hhas] at hlk
  cases hlk

/-- `holdingsleep` tells whether the process is inside, if processes differ in their numbers. -/
theorem holdingsleep_iff (hpid : Function.Injective myproc) (h : Sys.Reached myproc s) {i : ι}
    {mine : Bool} (hi : s.place i = .checking mine) : s.holdingsleep myproc i = mine := by
  have hs := h.safe
  cases mine with
  | true =>
    obtain ⟨hlocked, hpid⟩ := hs.owner i (by simp [hi, Place.owner, Place.inside])
    simp [Sys.holdingsleep, hlocked, hpid]
  | false =>
    simp only [Sys.holdingsleep, decide_eq_false_iff_not]
    rintro ⟨hlocked, hmine⟩
    obtain ⟨j, hj⟩ := hs.owned hlocked
    obtain rfl := hpid (hmine.symm.trans (hs.owner j hj).2)
    simp [hi, Place.owner, Place.inside] at hj

end Runs

theorem holdingsleep_iff_holder : ∃ s : Sys Bool, Sys.Reached (cond · 1 2) s ∧
    s.holdingsleep (cond · 1 2) true = true := by
  obtain ⟨s, hreach, hs⟩ := exists_of_execAll (Sys.step (cond · 1 2)) (fun _ _ => True) Sys.init
    [.acquiresleep true, .run true, .run true, .run true, .holdingsleep true, .run true]
    (fun s => s.place true = .checking true) (by decide)
  exact ⟨s, hreach, holdingsleep_iff (by simp [Injective]) hreach hs⟩

/-- One process has the lock and another one sleeps. -/
theorem sleeplock_safe_two : ∃ s : Sys Bool, Sys.Reached (cond · 7 8) s ∧
    s.place true = .holding ∧ s.place false = .sleeping ∧ s.lk = none ∧ s.locked = 1 := by
  obtain ⟨s, hreach, htrue, hfalse, hlk⟩ := exists_of_execAll
    (Sys.step (cond · 7 8)) (fun _ _ => True) Sys.init
    [.acquiresleep true, .run true, .run true, .run true, .acquiresleep false, .run false,
      .run false, .run false, .run false, .run false]
    (fun s => s.place true = .holding ∧ s.place false = .sleeping ∧ s.lk = none) (by decide)
  exact ⟨s, hreach, htrue, hfalse, hlk, (sleeplock_safe hreach).2.2 hlk false hfalse⟩

end Xv6.Sync
