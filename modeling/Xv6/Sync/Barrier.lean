import Mathlib.Algebra.Order.BigOperators.Group.Finset
import Xv6.Lib.Runs

/-!
# The barrier of `proc.c`

A process that calls `barrier_wait` increments the counter, compares it with the
maximum, and then goes to sleep or wakes all sleepers. Other processes may move
between any two of these steps, so a process that has found the counter too small may
go to sleep after the last wakeup.

## Implementation notes

Processes are of an arbitrary type. A process takes `ptable.lock` and goes to sleep in
one step, and so does it call `wakeup`, since a section of `ptable.lock` is not seen
from outside. Processes that are not in `barrier_wait` sleep on other channels and
wake the sleepers there. The last two components of the state are not in the source:
they count the increments and the calls that have returned.
-/

namespace Xv6.Sync.Barrier
open Lib Function

/-- A sleep channel: `&barrier`, or another address. -/
inductive Chan where
  | barrier
  | other (a : ℕ)
  deriving DecidableEq, Repr

/-- Where a process is. -/
inductive Place where
  | outside
  /-- Before `barrier.counter++`. -/
  | entered
  /-- Before the comparison. -/
  | incremented
  /-- Before `acquire(&ptable.lock)` and `sleep`. -/
  | toSleep
  /-- Before `wakeup(&barrier)`. -/
  | toWake
  | sleeping (chan : Chan)
  /-- `RUNNABLE` again, in `sleep`. -/
  | woken (chan : Chan)
  deriving DecidableEq, Repr

/-- What `wakeup1` does to a process. -/
def Place.wakeup1 (chan : Chan) (a : Place) : Place := if a = .sleeping chan then .woken chan else a

/-- `barrier`, and the processes. -/
structure Sys (ι : Type) where
  maxCount : Int32
  counter : Int32
  place : ι → Place
  increments : ℕ
  returns : ℕ

/-- Who moves. -/
inductive Move (ι : Type) where
  /-- Call `barrier_wait`. -/
  | call (i : ι)
  /-- Go on. -/
  | run (i : ι)
  /-- Sleep on another channel. -/
  | sleep (i : ι) (a : ℕ)
  /-- Wake the sleepers on another channel. -/
  | wakeup (i : ι) (a : ℕ)

namespace Sys

variable {ι : Type} [DecidableEq ι] (s : Sys ι) (i : ι)

@[simps -fullyApplied]
def go (a : Place) : Sys ι := { s with place := update s.place i a }

@[simps -fullyApplied]
def increment : Sys ι := { s with counter := s.counter + 1, increments := s.increments + 1 }

@[simps -fullyApplied]
def wakeup1 (chan : Chan) : Sys ι := { s with place := fun j => (s.place j).wakeup1 chan }

/-- `barrier_wait` returns. -/
@[simps! -fullyApplied]
def leave : Sys ι := { s.go i .outside with returns := s.returns + 1 }

/-- Process `i` goes on. -/
def run : Option (Sys ι) :=
  match s.place i with
  | .outside | .sleeping _ => none
  | .entered => some (s.increment.go i .incremented)
  | .incremented => some (s.go i (if s.counter < s.maxCount then .toSleep else .toWake))
  | .toSleep => some (s.go i (.sleeping .barrier))
  | .toWake => some ((s.wakeup1 .barrier).leave i)
  | .woken .barrier => some (s.leave i)
  | .woken (.other _) => some (s.go i .outside)

def step : Move ι → Option (Sys ι)
  | .call i => if s.place i = .outside then some (s.go i .entered) else none
  | .run i => s.run i
  | .sleep i a => if s.place i = .outside then some (s.go i (.sleeping (.other a))) else none
  | .wakeup i a => if s.place i = .outside then some (s.wakeup1 (.other a)) else none

end Sys

/-- `barrier_init`, with the processes in given places. -/
def barrierInit {ι : Type} (n : Int32) (place : ι → Place) : Sys ι where
  maxCount := n
  counter := 0
  place := place
  increments := 0
  returns := 0

/-! ### Nobody is let through early -/

section Early
variable {ι : Type} {s s' : Sys ι} {n : Int32}

/-- As long as there have been too few increments. -/
structure Closed (s : Sys ι) : Prop where
  counter : s.counter.toInt = s.increments
  returns : s.returns = 0
  place : ∀ i, s.place i ≠ .toWake ∧ s.place i ≠ .woken .barrier

lemma Closed.wakeup1 (h : Closed s) (a : ℕ) : Closed (s.wakeup1 (.other a)) := by
  refine ⟨h.counter, h.returns, fun j => ?_⟩
  obtain ⟨hwake, hwoken⟩ := h.place j
  simp only [Sys.wakeup1_place, Place.wakeup1]
  split <;> simp [hwake, hwoken]

lemma Closed.increment (h : Closed s) (hlt : (s.increments : ℤ) + 1 < n.toInt) :
    Closed s.increment := by
  refine ⟨?_, h.returns, h.place⟩
  have hmax := Int32.toInt_lt n
  have hcounter := h.counter
  rw [Sys.increment_counter, Int32.toInt_add, Sys.increment_increments, hcounter,
    show (1 : Int32).toInt = 1 from rfl]
  push_cast
  apply Int.bmod_eq_of_le <;> omega

variable [DecidableEq ι]

lemma Closed.go (h : Closed s) {i : ι} {a : Place} (hwake : a ≠ .toWake)
    (hwoken : a ≠ .woken .barrier) : Closed (s.go i a) := by
  refine ⟨h.counter, h.returns, fun j => ?_⟩
  by_cases hj : j = i
  · subst hj
    simp [hwake, hwoken]
  · simpa [hj] using h.place j

/-- The barrier is closed until there have been `n` increments. -/
def Guards (n : Int32) (s : Sys ι) : Prop :=
  s.maxCount = n ∧ ((s.increments : ℤ) < n.toInt → Closed s)

lemma Guards.run (h : Guards n s) {i : ι} (hrun : s.run i = some s') : Guards n s' := by
  obtain ⟨hmax, hclosed⟩ := h
  unfold Sys.run at hrun
  cases hi : s.place i with
  | outside | sleeping _ =>
    rw [hi] at hrun
    cases hrun
  | entered =>
    rw [hi] at hrun
    cases hrun
    refine ⟨hmax, fun hlt => ?_⟩
    have hlt' : ((s.increments + 1 : ℕ) : ℤ) < n.toInt := hlt
    exact ((hclosed (by omega)).increment (n := n) (by omega)).go nofun nofun
  | incremented =>
    rw [hi] at hrun
    cases hrun
    refine ⟨hmax, fun hlt => ?_⟩
    have hs := hclosed hlt
    -- the counter is the number of increments
    have hless : s.counter < s.maxCount := by
      rwa [Int32.lt_iff_toInt_lt, hs.counter, hmax]
    rw [if_pos hless]
    exact hs.go nofun nofun
  | toSleep =>
    rw [hi] at hrun
    cases hrun
    exact ⟨hmax, fun hlt => (hclosed hlt).go nofun nofun⟩
  | toWake =>
    rw [hi] at hrun
    cases hrun
    exact ⟨hmax, fun hlt => absurd hi ((hclosed hlt).place i).1⟩
  | woken chan =>
    rw [hi] at hrun
    cases chan with
    | barrier =>
      cases hrun
      exact ⟨hmax, fun hlt => absurd hi ((hclosed hlt).place i).2⟩
    | other a =>
      cases hrun
      exact ⟨hmax, fun hlt => (hclosed hlt).go nofun nofun⟩

lemma Guards.step (h : Guards n s) {m : Move ι} (hstep : s.step m = some s') : Guards n s' := by
  cases m with
  | call i | sleep i a =>
    obtain ⟨-, rfl⟩ := of_guard hstep
    exact ⟨h.1, fun hlt => (h.2 hlt).go nofun nofun⟩
  | run i => exact h.run hstep
  | wakeup i a =>
    obtain ⟨-, rfl⟩ := of_guard hstep
    exact ⟨h.1, fun hlt => (h.2 hlt).wakeup1 a⟩

/-- No call of `barrier_wait` returns before there have been `n` increments. -/
theorem barrier_holds_back
    (h : Reaches Sys.step (fun _ _ => True) (barrierInit n fun _ => .outside) s)
    (hreturn : 0 < s.returns) : n.toInt ≤ s.increments := by
  have hguards : Guards n s := by
    refine h.invariant (fun s s' m hs _ hstep => hs.step hstep) ⟨rfl, fun _ => ?_⟩
    exact ⟨rfl, rfl, fun _ => ⟨nofun, nofun⟩⟩
  by_contra hlt
  have hzero := (hguards.2 (not_le.mp hlt)).returns
  omega

end Early

/-- Two processes go through a barrier for two. -/
theorem barrier_holds_back_two : ∃ s : Sys Bool,
    Reaches Sys.step (fun _ _ => True) (barrierInit 2 fun _ => .outside) s ∧ 0 < s.returns ∧
      (2 : Int32).toInt ≤ s.increments := by
  obtain ⟨s, hreach, hreturn⟩ := exists_of_execAll Sys.step (fun _ _ => True)
    (barrierInit 2 fun _ : Bool => .outside)
    [.call true, .run true, .run true, .run true, .call false, .run false, .run false, .run false]
    (fun s => 0 < s.returns) (by decide)
  exact ⟨s, hreach, hreturn, barrier_holds_back hreach hreturn⟩

/-! ### Who is left asleep -/

section Stranded
variable {ι : Type}

/-- The process has still to increment the counter, to compare it or to call `wakeup`. -/
def Place.Active (a : Place) : Prop := a = .entered ∨ a = .incremented ∨ a = .toWake

instance (a : Place) : Decidable a.Active := inferInstanceAs (Decidable (_ ∨ _))

/-- Every process has incremented the counter and has returned or sleeps, and one sleeps. -/
def Stranded (n : Int32) (s : Sys ι) : Prop :=
  s.increments = n.toInt ∧ (∀ i, s.place i = .outside ∨ s.place i = .sleeping .barrier) ∧
    ∃ i, s.place i = .sleeping .barrier

/-- Each process calls `barrier_wait` once, so a move goes on with a call. -/
def Once : Move ι → Prop
  | .run _ => True
  | _ => False

instance (m : Move ι) : Decidable (Once m) :=
  match m with
  | .run _ => inferInstanceAs (Decidable True)
  | .call _ | .sleep _ _ | .wakeup _ _ => inferInstanceAs (Decidable False)

/-- A process goes to sleep only while some process is active. -/
def Careful (s : Sys ι) : Move ι → Prop
  | .run i => s.place i = .toSleep → ∃ j, (s.place j).Active
  | _ => True

instance [Fintype ι] (s : Sys ι) (m : Move ι) : Decidable (Careful s m) :=
  match m with
  | .run i => inferInstanceAs (Decidable (s.place i = .toSleep → ∃ j, (s.place j).Active))
  | .call _ | .sleep _ _ | .wakeup _ _ => inferInstanceAs (Decidable True)

/-- Who sleeps on the barrier will be woken. -/
def Hopeful (s : Sys ι) : Prop := (∃ i, s.place i = .sleeping .barrier) → ∃ j, (s.place j).Active

section
variable [DecidableEq ι] {s : Sys ι} {i : ι} {a : Place}

lemma Hopeful.go (h : Hopeful s) (hi : ¬ (s.place i).Active) (ha : a ≠ .sleeping .barrier) :
    Hopeful (s.go i a) := by
  rintro ⟨j, hj⟩
  have hji : j ≠ i := by
    rintro rfl
    exact ha (by simpa using hj)
  obtain ⟨k, hk⟩ := h ⟨j, by simpa [hji] using hj⟩
  have hki : k ≠ i := by
    rintro rfl
    exact hi hk
  exact ⟨k, by simpa [hki] using hk⟩

lemma Hopeful.of_active (ha : a.Active) : Hopeful (s.go i a) := fun _ => ⟨i, by simpa using ha⟩

end

section
variable [Fintype ι] {s : Sys ι} {n : Int32}

/-- The processes that have incremented the counter. -/
def arrived (place : ι → Place) : ℕ := (Finset.univ.filter fun i => place i ≠ .entered).card

lemma arrived_congr {place place' : ι → Place}
    (h : ∀ j, place' j = .entered ↔ place j = .entered) : arrived place' = arrived place := by
  unfold arrived
  congr 1
  ext j
  simp [h j]

lemma arrived_of_none {place : ι → Place} (h : ∀ j, place j ≠ .entered) :
    arrived place = Fintype.card ι := by
  have hfilter : (Finset.univ.filter fun j => place j ≠ .entered) = Finset.univ :=
    Finset.filter_true_of_mem fun j _ => h j
  unfold arrived
  rw [hfilter, Finset.card_univ]

/-- What holds in all runs in which each process calls once. -/
structure Counts (n : Int32) (s : Sys ι) : Prop where
  maxCount : s.maxCount = n
  counter : s.counter.toInt = arrived s.place
  increments : s.increments = arrived s.place
  own : ∀ i a, s.place i ≠ .sleeping (.other a) ∧ s.place i ≠ .woken (.other a)

lemma Counts.arrived_le (hn : Fintype.card ι = n.toInt) (place : ι → Place) :
    (arrived place : ℤ) ≤ n.toInt := by
  rw [← hn]
  exact Int.ofNat_le.mpr (Finset.card_le_univ _)

/-- The counter is too small as long as some process has not come. -/
lemma Counts.exists_entered (h : Counts n s) (hn : Fintype.card ι = n.toInt)
    (hless : s.counter < s.maxCount) : ∃ j, s.place j = .entered := by
  by_contra hnone
  rw [Int32.lt_iff_toInt_lt, h.counter, h.maxCount, arrived_of_none fun j hj => hnone ⟨j, hj⟩,
    hn] at hless
  omega

/-- The wakeup: nobody sleeps on the barrier any more. -/
lemma Counts.wake (h : Counts n s) : Counts n (s.wakeup1 .barrier) ∧
    ∀ j, (s.wakeup1 .barrier).place j ≠ .sleeping .barrier := by
  have hplace : ∀ j, (s.wakeup1 .barrier).place j = if s.place j = .sleeping .barrier
      then .woken .barrier else s.place j := fun _ => rfl
  have hsame : arrived (s.wakeup1 .barrier).place = arrived s.place := by
    refine arrived_congr fun j => ?_
    rw [hplace]
    split <;> simp_all
  refine ⟨⟨h.maxCount, ?_, ?_, fun j b => ?_⟩, fun j => ?_⟩
  · rw [hsame]
    exact h.counter
  · rw [hsame]
    exact h.increments
  · rw [hplace]
    split
    · simp
    · exact h.own j b
  rw [hplace]
  split
  · simp
  · assumption

end

variable [DecidableEq ι] [Fintype ι] {s s' : Sys ι} {n : Int32} {i : ι} {a : Place}

variable {place : ι → Place}

lemma arrived_increment (hi : place i = .entered) :
    arrived (update place i .incremented) = arrived place + 1 := by
  have hinsert : (Finset.univ.filter fun j => update place i .incremented j ≠ .entered) =
      insert i (Finset.univ.filter fun j => place j ≠ .entered) := by
    ext j
    by_cases hj : j = i
    · simp [hj]
    · simp [hj]
  unfold arrived
  rw [hinsert, Finset.card_insert_of_notMem (by simp [hi])]

lemma Counts.go (h : Counts n s) (hi : s.place i ≠ .entered) (ha : a ≠ .entered)
    (hown : ∀ b, a ≠ .sleeping (.other b) ∧ a ≠ .woken (.other b)) : Counts n (s.go i a) := by
  have hsame : arrived (s.go i a).place = arrived s.place := by
    refine arrived_congr fun j => ?_
    by_cases hj : j = i
    · simp [hj, hi, ha]
    · simp [hj]
  refine ⟨h.maxCount, ?_, ?_, fun j b => ?_⟩
  · rw [hsame]
    exact h.counter
  · rw [hsame]
    exact h.increments
  by_cases hj : j = i
  · subst hj
    simpa using hown b
  · simpa [hj] using h.own j b

lemma Counts.increment (h : Counts n s) (hn : Fintype.card ι = n.toInt)
    (hi : s.place i = .entered) : Counts n (s.increment.go i .incremented) := by
  have hmore : arrived (s.increment.go i .incremented).place = arrived s.place + 1 :=
    arrived_increment hi
  have hle := Counts.arrived_le hn (s.increment.go i .incremented).place
  have hmax := Int32.toInt_lt n
  refine ⟨h.maxCount, ?_, ?_, fun j b => ?_⟩
  · have hcounter := h.counter
    rw [hmore] at hle ⊢
    rw [Sys.go_counter, Sys.increment_counter, Int32.toInt_add, hcounter,
      show (1 : Int32).toInt = 1 from rfl]
    push_cast
    apply Int.bmod_eq_of_le <;> omega
  · rw [hmore, Sys.go_increments, Sys.increment_increments, h.increments]
  by_cases hj : j = i
  · simp [hj]
  · simpa [hj] using h.own j b

lemma Counts.run (h : Counts n s) (hn : Fintype.card ι = n.toInt) (hrun : s.run i = some s') :
    Counts n s' ∧ (Hopeful s → Careful s (.run i) → Hopeful s') := by
  unfold Sys.run at hrun
  cases hi : s.place i with
  | outside | sleeping _ =>
    rw [hi] at hrun
    cases hrun
  | entered =>
    rw [hi] at hrun
    cases hrun
    exact ⟨h.increment hn hi, fun _ _ => .of_active (.inr (.inl rfl))⟩
  | incremented =>
    rw [hi] at hrun
    cases hrun
    split
    · rename_i hless
      refine ⟨h.go (by simp [hi]) nofun fun _ => ⟨nofun, nofun⟩, fun _ _ _ => ?_⟩
      -- somebody has not come yet
      obtain ⟨j, hj⟩ := h.exists_entered hn hless
      have hji : j ≠ i := by
        rintro rfl
        rw [hi] at hj
        cases hj
      exact ⟨j, .inl (by simpa [hji] using hj)⟩
    · exact ⟨h.go (by simp [hi]) nofun fun _ => ⟨nofun, nofun⟩,
        fun _ _ => .of_active (.inr (.inr rfl))⟩
  | toSleep =>
    rw [hi] at hrun
    cases hrun
    refine ⟨h.go (by simp [hi]) nofun fun _ => ⟨nofun, nofun⟩, fun _ hcareful _ => ?_⟩
    obtain ⟨j, hj⟩ := hcareful hi
    have hji : j ≠ i := by
      rintro rfl
      simp [hi, Place.Active] at hj
    exact ⟨j, by simpa [hji] using hj⟩
  | toWake =>
    rw [hi] at hrun
    cases hrun
    obtain ⟨hcounts, hnone⟩ := h.wake
    have hgo : Counts n ((s.wakeup1 .barrier).go i .outside) :=
      hcounts.go (by simp [hi, Place.wakeup1]) nofun fun _ => ⟨nofun, nofun⟩
    refine ⟨⟨hgo.maxCount, hgo.counter, hgo.increments, hgo.own⟩, fun _ _ => ?_⟩
    rintro ⟨j, hj⟩
    by_cases hji : j = i
    · simp [hji] at hj
    · exact absurd (by simpa [hji] using hj) (hnone j)
  | woken chan =>
    rw [hi] at hrun
    cases chan with
    | barrier =>
      cases hrun
      have hgo : Counts n (s.go i .outside) := h.go (by simp [hi]) nofun fun _ => ⟨nofun, nofun⟩
      refine ⟨⟨hgo.maxCount, hgo.counter, hgo.increments, hgo.own⟩, fun hs _ => ?_⟩
      have hhope : Hopeful (s.go i .outside) := hs.go (by simp [hi, Place.Active]) nofun
      exact hhope
    | other a => exact absurd hi (h.own i a).2

/-- The call has returned or sleeps. -/
def Place.Rests (a : Place) : Prop := a = .outside ∨ a = .sleeping .barrier

instance (a : Place) : Decidable a.Rests := inferInstanceAs (Decidable (_ ∨ _))

/-- The calls that have neither returned nor gone to sleep. -/
def awake (place : ι → Place) : ℕ := (Finset.univ.filter fun i => ¬ (place i).Rests).card

lemma awake_update (hi : ¬ (place i).Rests) (ha : a.Rests) :
    awake (update place i a) < awake place := by
  refine Finset.card_lt_card (Finset.ssubset_iff_of_subset ?_ |>.mpr ⟨i, ?_, ?_⟩)
  · intro j
    by_cases hj : j = i
    · simp [hj, ha]
    · simp [hj]
  · simpa using hi
  · simp [ha]

/-- A call that is not active and does not rest comes to rest. -/
lemma Counts.rest (h : Counts n s) (hactive : ¬ (s.place i).Active)
    (hrest : ¬ (s.place i).Rests) :
    ∃ s₁ a, s.run i = some s₁ ∧ a.Rests ∧ s₁.place = update s.place i a := by
  unfold Sys.run
  cases hi : s.place i with
  | outside => exact absurd (.inl hi) hrest
  | entered => exact absurd (.inl hi) hactive
  | incremented => exact absurd (.inr (.inl hi)) hactive
  | toWake => exact absurd (.inr (.inr hi)) hactive
  | toSleep => exact ⟨_, _, rfl, .inr rfl, rfl⟩
  | sleeping chan =>
    cases chan with
    | barrier => exact absurd (.inr hi) hrest
    | other a => exact absurd hi (h.own i a).1
  | woken chan =>
    cases chan with
    | barrier => exact ⟨_, _, rfl, .inl rfl, rfl⟩
    | other a => exact absurd hi (h.own i a).2

lemma exists_stranded (h : Counts n s) (hn : Fintype.card ι = n.toInt)
    (hnone : ∀ j, ¬ (s.place j).Active) (hsleep : ∃ j, s.place j = .sleeping .barrier) :
    ∃ s', Reaches Sys.step (fun _ m => Once m) s s' ∧ Stranded n s' := by
  -- each step leaves fewer calls that do not rest
  induction hk : awake s.place using Nat.strong_induction_on generalizing s with
  | _ k ih =>
    by_cases hdone : ∀ i, (s.place i).Rests
    · refine ⟨s, .refl, ?_, hdone, hsleep⟩
      rw [h.increments, arrived_of_none fun j hj => hnone j (.inl hj), hn]
    obtain ⟨i, hi⟩ := not_forall.mp hdone
    obtain ⟨s₁, a, hrun, ha, hplace⟩ := h.rest (hnone i) hi
    obtain ⟨j, hj⟩ := hsleep
    have hji : j ≠ i := by
      rintro rfl
      exact hi (.inr hj)
    have hnone₁ : ∀ k, ¬ (s₁.place k).Active := by
      intro k
      rw [hplace]
      by_cases hki : k = i
      · rw [hki, update_self]
        rcases ha with rfl | rfl <;> simp [Place.Active]
      · rw [update_of_ne hki]
        exact hnone k
    obtain ⟨s', hreach, hstranded⟩ := ih (awake s₁.place)
      (by rw [← hk, hplace]; exact awake_update hi ha) (h.run hn hrun).1 hnone₁
      ⟨j, by rw [hplace, update_of_ne hji, hj]⟩ rfl
    exact ⟨s', hreach.head ⟨.run i, trivial, hrun⟩, hstranded⟩

/-- If each process goes to sleep while some process is active, nobody is left asleep; and after
a step that is not careful, somebody may be. -/
theorem barrier_strands_nobody (hn : Fintype.card ι = n.toInt)
    (h : Reaches Sys.step (fun s m => Once m ∧ Careful s m) (barrierInit n fun _ => .entered) s) :
    ¬ Stranded n s ∧ ∀ m s', Once m → s.step m = some s' →
      Careful s m ∨ ∃ s'', Reaches Sys.step (fun _ m => Once m) s' s'' ∧ Stranded n s'' := by
  have hinv : Counts n s ∧ Hopeful s := by
    refine h.invariant (I := fun s => Counts n s ∧ Hopeful s) ?_ ⟨⟨rfl, ?_, ?_, ?_⟩, ?_⟩
    · rintro s s' (_ | i | _ | _) ⟨hcounts, hhope⟩ ⟨honce, hcareful⟩ hstep
      · cases honce
      · obtain ⟨hcounts', hhope'⟩ := hcounts.run hn hstep
        exact ⟨hcounts', hhope' hhope hcareful⟩
      · cases honce
      · cases honce
    · simp [barrierInit, arrived]
    · simp [barrierInit, arrived]
    · exact fun _ _ => ⟨nofun, nofun⟩
    · rintro ⟨i, hi⟩
      cases hi
  obtain ⟨hcounts, hhope⟩ := hinv
  refine ⟨?_, ?_⟩
  · rintro ⟨-, hrest, hsleep⟩
    obtain ⟨j, hj⟩ := hhope hsleep
    rcases hrest j with hj' | hj' <;> simp [hj', Place.Active] at hj
  rintro (_ | i | _ | _) s' honce hstep
  · cases honce
  · by_cases hcareful : Careful s (.run i)
    · exact .inl hcareful
    right
    simp only [Careful, not_forall, not_exists] at hcareful
    obtain ⟨hi, hnone⟩ := hcareful
    obtain rfl : s.go i (.sleeping .barrier) = s' := by
      simpa [Sys.step, Sys.run, hi] using hstep
    refine exists_stranded (hcounts.run hn hstep).1 hn (fun j => ?_) ⟨i, by simp⟩
    by_cases hji : j = i
    · simp [hji, Place.Active]
    · simpa [hji] using hnone j
  · cases honce
  · cases honce

end Stranded

/-- One process sleeps before the other one comes, and is woken. -/
theorem barrier_strands_nobody_two : ∃ s : Sys Bool,
    Reaches Sys.step (fun s m => Once m ∧ Careful s m) (barrierInit 2 fun _ => .entered) s ∧
      s.returns = 2 ∧ ¬ Stranded 2 s := by
  obtain ⟨s, hreach, hreturn⟩ := exists_of_execAll Sys.step (fun s m => Once m ∧ Careful s m)
    (barrierInit 2 fun _ : Bool => .entered)
    [.run true, .run true, .run true, .run false, .run false, .run false, .run true]
    (fun s => s.returns = 2) (by decide)
  exact ⟨s, hreach, hreturn, (barrier_strands_nobody rfl hreach).1⟩

/-- One process finds the counter too small and goes to sleep after the wakeup of the other. -/
theorem barrier_strands_one : ∃ s : Sys Bool,
    Reaches Sys.step (fun _ m => Once m) (barrierInit 2 fun _ => .entered) s ∧ Stranded 2 s := by
  obtain ⟨s, hreach, hincrements, hrest, hsleep⟩ := exists_of_execAll Sys.step (fun _ m => Once m)
    (barrierInit 2 fun _ : Bool => .entered)
    [.run true, .run true, .run false, .run false, .run false, .run true]
    (fun s => (s.increments : ℤ) = (2 : Int32).toInt ∧
      (∀ i, s.place i = .outside ∨ s.place i = .sleeping .barrier) ∧
        ∃ i, s.place i = .sleeping .barrier) (by decide)
  exact ⟨s, hreach, hincrements, hrest, hsleep⟩

end Xv6.Sync.Barrier
