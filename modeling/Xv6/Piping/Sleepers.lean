import Xv6.Piping.Stream

/-!
# Processes that sleep on a pipe

A reader sleeps while the pipe is empty, and a writer while it is full. One way
out of `pipewrite` breaks this: a writer that is killed, or whose pipe has lost
its reader, returns when the pipe is full without waking the readers, though it
may have filled the pipe itself.
-/

namespace Xv6.Piping
open Lib

variable {ι : Type}

/-- Who sleeps on the pipe has a reason to. -/
structure NoStranded (p : Pipe) (place : ι → Place) : Prop where
  readers : ∀ i n, place i = .readAsleep n → p.Empty ∧ p.writeopen = true
  writers : ∀ i c rest, place i = .writeAsleep c rest → p.Full ∧ p.readopen = true

/-- A call of `pipewrite` that is to return -1 when the pipe is full does not fill it while a
reader sleeps. -/
def Careful (s : Sys ι) : Move ι → Prop
  | .run i _ => ∀ c rest, s.place i = .writing c rest →
      s.killed i = true ∨ s.pipe.readopen = false → PIPESIZE < rest.length →
      ∀ j n, s.place j ≠ .readAsleep n
  | _ => True

lemma Place.wakeReader_ne (a : Place) (n : ℕ) : a.wakeReader ≠ .readAsleep n := by
  cases a <;> simp [Place.wakeReader]

variable {rest : List UInt8}

lemma Place.wakeReader_eq_writeAsleep {a : Place} {c : ℕ} :
    a.wakeReader = .writeAsleep c rest ↔ a = .writeAsleep c rest := by
  cases a <;> simp [Place.wakeReader]

lemma Place.wakeWriter_ne (a : Place) (c : ℕ) (rest : List UInt8) :
    a.wakeWriter ≠ .writeAsleep c rest := by
  cases a <;> simp [Place.wakeWriter]

lemma Place.wakeWriter_eq_readAsleep {a : Place} {n : ℕ} :
    a.wakeWriter = .readAsleep n ↔ a = .readAsleep n := by
  cases a <;> simp [Place.wakeWriter]

section
variable {p p' : Pipe} {place : ι → Place}

lemma NoStranded.wakeReaders (h : NoStranded p place) (hfull : p.Full → p'.Full)
    (hopen : p.readopen = true → p'.readopen = true) :
    NoStranded p' fun i => (place i).wakeReader where
  readers i n hi := absurd hi (Place.wakeReader_ne _ n)
  writers i c rest hi := by
    obtain ⟨hf, ho⟩ := h.writers i c rest (Place.wakeReader_eq_writeAsleep.mp hi)
    exact ⟨hfull hf, hopen ho⟩

lemma NoStranded.wakeWriters (h : NoStranded p place) (hempty : p.Empty → p.writeopen = true →
    p'.Empty ∧ p'.writeopen = true) : NoStranded p' fun i => (place i).wakeWriter where
  readers i n hi := by
    obtain ⟨he, ho⟩ := h.readers i n (Place.wakeWriter_eq_readAsleep.mp hi)
    exact hempty he ho
  writers i c rest hi := absurd hi (Place.wakeWriter_ne _ c rest)

variable [DecidableEq ι]

/-- A process moves to a place where it does not sleep, or sleeps with a reason. -/
lemma NoStranded.update (h : NoStranded p place) (i : ι) {a : Place}
    (hread : ∀ n, a = .readAsleep n → p.Empty ∧ p.writeopen = true)
    (hwrite : ∀ c rest, a = .writeAsleep c rest → p.Full ∧ p.readopen = true) :
    NoStranded p (Function.update place i a) := by
  constructor
  · intro j n hj
    by_cases hji : j = i
    · subst hji
      exact hread n (by simpa using hj)
    · exact h.readers j n (by simpa [hji] using hj)
  intro j c rest hj
  by_cases hji : j = i
  · subst hji
    exact hwrite c rest (by simpa using hj)
  · exact h.writers j c rest (by simpa [hji] using hj)

end

variable [DecidableEq ι]

/-- A section of `pipewrite` strands no sleeper exactly when it is careful. -/
lemma runWrite_noStranded_iff {s : Sys ι} {q : List UInt8} (hholds : s.pipe.Holds q)
    (h : NoStranded s.pipe s.place) {i : ι} {late : Bool} {c : ℕ}
    (hplace : s.place i = .writing c rest) :
    NoStranded (s.runWrite i late c rest).pipe (s.runWrite i late c rest).place ↔
      Careful s (.run i late) := by
  obtain ⟨hnew, hread, -, hout⟩ := pipewrite_spec (s.killed i) rest hholds
  have hlen := hnew.length_le
  rw [List.length_append] at hlen
  have hfull : s.pipe.Full → (pipewrite (s.killed i) s.pipe rest).1.Full := by
    rw [hholds.full_iff, hnew.full_iff, List.length_append]
    omega
  have hwake := h.wakeReaders hfull fun hopen => hread.trans hopen
  unfold Sys.runWrite
  dsimp only
  split
  · -- all bytes fit, so there are not too many of them
    rename_i hdone
    rw [hdone] at hout
    refine iff_of_true (hwake.update i (by simp) (by simp)) ?_
    intro c' rest' hplace' _ hlong
    obtain ⟨-, rfl⟩ := Place.writing.inj (hplace.symm.trans hplace')
    have hbytes : (pipewrite (s.killed i) s.pipe rest).2.1.length = rest.length :=
      congrArg List.length hout
    omega
  · rename_i rest' hbroken
    rw [hbroken] at hout
    obtain ⟨happend, hne, hfull', hwhy⟩ := hout
    rw [hnew.full_iff, List.length_append] at hfull'
    have hnot : ¬ (pipewrite (s.killed i) s.pipe rest).1.Empty := by
      rw [hnew.empty_iff, ← List.length_eq_zero_iff, List.length_append, hfull']
      decide
    constructor
    · -- a reader that sleeps would be stranded, since the pipe is full
      intro hs _ _ _ _ _ j n hj
      have hji : j ≠ i := by
        rintro rfl
        rw [hplace] at hj
        cases hj
      refine hnot (hs.readers j n ?_).1
      simpa [hji] using hj
    -- the pipe was empty if a reader sleeps, so the call has filled it and has bytes left
    intro hcareful
    have hnone : ∀ j n, s.place j ≠ .readAsleep n := by
      intro j n hj
      have hq : q = [] := hholds.empty_iff.mp (h.readers j n hj).1
      have hrest : rest.length =
          (pipewrite (s.killed i) s.pipe rest).2.1.length + rest'.length := by
        rw [← List.length_append, happend]
      have hpos : 0 < rest'.length := List.length_pos_iff.mpr hne
      rw [hq] at hfull'
      simp only [List.length_nil, Nat.zero_add] at hfull'
      exact hcareful c rest hplace hwhy.symm (by omega) j n hj
    constructor
    · intro j n hj
      by_cases hji : j = i
      · subst hji
        simp at hj
      · exact absurd (by simpa [hji] using hj) (hnone j n)
    intro j c' r hj
    by_cases hji : j = i
    · subst hji
      simp at hj
    · obtain ⟨hf, ho⟩ := h.writers j c' r (by simpa [hji] using hj)
      exact ⟨hfull hf, hread.trans ho⟩
  -- the process is not killed and the read end is open
  rename_i rest' hasleep
  rw [hasleep] at hout
  obtain ⟨-, hfull', hopen, hkilled⟩ := hout
  refine iff_of_true (hwake.update i (by simp) fun c r _ => ⟨hfull', hread.trans hopen⟩) ?_
  intro c' rest' _ hwhy
  rw [hopen, hkilled] at hwhy
  simp at hwhy

/-- A step from a state without stranded sleepers strands none exactly when it is careful. -/
lemma Moved.noStranded_iff {s s' : Sys ι} {m : Move ι} (hm : Moved s m s') (hs : s.Streams)
    (h : NoStranded s.pipe s.place) : NoStranded s'.pipe s'.place ↔ Careful s m := by
  obtain ⟨q, hholds, -⟩ := hs
  cases hm with
  | write hplace | @read i n hplace => exact iff_of_true (h.update _ (by simp) (by simp)) trivial
  | runWrite hplace => exact runWrite_noStranded_iff hholds h hplace
  | @runRead i late n hplace =>
    have hcareful : Careful s (.run i late) := by
      intro c rest hplace'
      rw [hplace] at hplace'
      cases hplace'
    refine iff_of_true ?_ hcareful
    unfold Sys.runRead piperead
    split
    · rename_i hblock
      cases s.killed i with
      | true => exact h.update i (by simp) (by simp)
      | false => exact h.update i (fun _ _ => hblock) (by simp)
    rename_i hblock
    refine NoStranded.update (h.wakeWriters ?_) i (by simp) (by simp)
    exact fun hempty hopen => absurd ⟨hempty, hopen⟩ hblock
  | @pipeclose writable =>
    refine iff_of_true ?_ trivial
    unfold Sys.pipeclose
    cases writable with
    | true => exact h.wakeReaders id (by simp)
    | false => exact h.wakeWriters fun hempty hopen => ⟨hempty, by simpa using hopen⟩
  | @kill i =>
    refine iff_of_true (h.update i ?_ ?_) trivial
    · intro n hwake
      cases hplace : s.place i <;>
        simp [hplace, Place.wake, Place.wakeReader, Place.wakeWriter] at hwake
    · intro c rest hwake
      exact absurd hwake (Place.wakeWriter_ne _ c rest)

/-- In every run of careful moves no sleeper is stranded, and a further move strands one exactly
when it is not careful. -/
theorem noStranded_of_careful (s : Sys ι) (h : Sys.Reached Careful s) : NoStranded s.pipe s.place ∧
      ∀ m s', s.step m = some s' → (NoStranded s'.pipe s'.place ↔ Careful s m) := by
  obtain ⟨data, killed, hreach⟩ := h
  have hinv : s.Streams ∧ NoStranded s.pipe s.place := by
    refine hreach.invariant (I := fun s => s.Streams ∧ NoStranded s.pipe s.place) ?_ ⟨?_, ?_⟩
    · intro s s' m hs hok hstep
      have hm := Moved.of_step hstep
      exact ⟨hm.streams hs.1, (hm.noStranded_iff hs.1 hs.2).mpr hok⟩
    · exact ⟨[], RingHolds.nil (UInt32.toNat_lt _), rfl⟩
    · constructor <;> simp [Sys.init]
  exact ⟨hinv.2, fun m s' hstep => (Moved.of_step hstep).noStranded_iff hinv.1 hinv.2⟩

/-- A reader sleeps on the empty pipe. -/
theorem reader_not_stranded : ∃ s : Sys Bool, Sys.Reached Careful s ∧ s.place true = .readAsleep 1 ∧
    NoStranded s.pipe s.place ∧
      ∀ m s', s.step m = some s' → (NoStranded s'.pipe s'.place ↔ Careful s m) := by
  -- nobody is killed in this run, and both ends stay open
  obtain ⟨s, ⟨data, killed, hreach⟩, hplace⟩ := Sys.exists_reached
    (fun s _ => (∀ i, s.killed i = false) ∧ s.pipe.readopen = true)
    (fun _ => 0) (fun _ : Bool => false) [.read true 1, .run true false]
    (fun s => s.place true = .readAsleep 1) (by decide +kernel)
  have hcareful : Sys.Reached Careful s := by
    refine ⟨data, killed, hreach.mono fun s m hs => ?_⟩
    cases m with
    | run i late =>
      intro c rest _ hwhy
      simp [hs.1 i, hs.2] at hwhy
    | write | read | pipeclose | kill => trivial
  exact ⟨s, hcareful, hplace, noStranded_of_careful s hcareful⟩

/-- A reader sleeps, and a killed writer with 600 bytes fills the pipe and returns: the reader is
asleep on a full pipe. -/
theorem killed_writer_strands_reader : ∃ s : Sys Bool, Sys.Reached (fun _ _ => True) s ∧
    s.place true = .readAsleep 1 ∧ s.pipe.Full ∧ ¬ s.pipe.Empty :=
  Sys.exists_reached (fun _ _ => True) (fun _ => 0) (fun _ => false)
    [.read true 1, .run true false, .write false (List.replicate 600 7), .kill false,
      .run false false]
    (fun s => s.place true = .readAsleep 1 ∧ s.pipe.Full ∧ ¬ s.pipe.Empty) (by decide +kernel)

end Xv6.Piping
