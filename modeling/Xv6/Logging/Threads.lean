import Mathlib.Algebra.BigOperators.Fin
import Xv6.Lib.Runs
import Xv6.Logging.State

/-!
# Processes that share the log

Any number of processes run `begin_op`, `log_write` and `end_op` in any
interleaving. A critical section under `log.lock` is one step. So is every read
of the log outside the lock: `log_write` makes its three tests before it takes
the lock, and `commit` runs without it.

## Implementation notes

A sleeping process may also be woken by `kill`; `begin_op` then tests again and
goes back to sleep. The set `writes` of a process, the block numbers that its
current operation has put into the log, is not in the source: it only serves to
say how much an operation has written.
-/

namespace Xv6.Logging
open Fs

/-- The next step of a process in `log_write`: one of the three tests in front of the
critical section, or the critical section itself. -/
inductive WriteStage
  | header
  | area
  | trans
  | locked
  deriving DecidableEq, Repr

/-- The next step of the process that runs `commit`; `leave` is the critical section of
`end_op` that follows. -/
inductive CommitStage
  | test
  | writeLog (tail : ℕ)
  | writeHead
  | installTrans (tail : ℕ)
  | clear
  | eraseHead
  | leave
  deriving DecidableEq, Repr

/-- Where a process stands. `entry` is in front of a turn of the loop in `begin_op`. -/
inductive Pc
  | idle
  | entry
  | asleep
  | op
  | logWrite (stage : WriteStage) (b : ℕ)
  | commit (stage : CommitStage)
  deriving DecidableEq, Repr

/-- The process is between `begin_op` and `end_op`. -/
def Pc.inOp : Pc → Bool
  | op => true
  | logWrite _ _ => true
  | _ => false

/-- The process is in `commit`, or has yet to clear `committing` behind it. -/
def Pc.inCommit : Pc → Bool
  | commit _ => true
  | _ => false

/-- The process has emptied the header of the transaction it commits. -/
def Pc.cleared : Pc → Bool
  | commit .eraseHead => true
  | commit .leave => true
  | _ => false

/-- A process that uses the log. -/
structure Thread where
  pc : Pc := .idle
  writes : Finset ℕ := ∅
  deriving DecidableEq

/-- What one step of a process does: it leaves a log and a process, after a `wakeup(&log)`
or not, or it stops the machine. -/
inductive Effect
  | go (l : Log) (t : Thread) (wakes : Bool)
  | stop (e : Stop)

/-- The steps of `commit` and of the critical section behind it. -/
def Thread.commitStep (l : Log) (t : Thread) : CommitStage → Effect
  | .test => .go l { t with pc := .commit (if 0 < l.lh.length then .writeLog 0 else .leave) } false
  | .writeLog tail =>
    .go l { t with pc := .commit (if tail < l.lh.length then .writeLog (tail + 1)
      else .writeHead) } false
  | .writeHead => .go l { t with pc := .commit (.installTrans 0) } false
  | .installTrans tail =>
    .go l { t with pc := .commit (if tail < l.lh.length then .installTrans (tail + 1)
      else .clear) } false
  | .clear => .go { l with lh := [] } { t with pc := .commit .eraseHead } false
  | .eraseHead => .go l { t with pc := .commit .leave } false
  | .leave => .go { l with committing := false } { t with pc := .idle } true

/-- The steps of `log_write`. -/
def Thread.writeStep (l : Log) (t : Thread) (b : ℕ) : WriteStage → Effect
  | .header =>
    if l.headerFull then .stop (.panic .tooBig)
    else .go l { t with pc := .logWrite .area b } false
  | .area =>
    if l.areaFull then .stop (.panic .tooBig)
    else .go l { t with pc := .logWrite .trans b } false
  | .trans =>
    if l.outstanding < 1 then .stop (.panic .outsideTrans)
    else .go l { t with pc := .logWrite .locked b } false
  | .locked =>
    if b ∉ l.lh ∧ l.headerFull then .stop .overrun
    else .go (l.record b) { pc := .op, writes := insert b t.writes } false

/-- A turn of the loop in `begin_op`. -/
def Thread.entryStep (l : Log) (t : Thread) : Effect :=
  match l.beginOp with
  | none => .go l { t with pc := .asleep } false
  | some l' => .go l' { pc := .op } false

/-- The critical section of `end_op`. -/
def Thread.endStep (l : Log) (t : Thread) : Effect :=
  match l.endOp with
  | .error e => .stop (.panic e)
  | .ok (l', true) => .go l' { t with pc := .commit .test } false
  | .ok (l', false) => .go l' { t with pc := .idle } true

/-- What makes a process move: it calls a function of the log, it runs on inside one, or
it is killed. -/
inductive Action
  | beginOp
  | logWrite (b : ℕ)
  | endOp
  | run
  | kill
  deriving DecidableEq, Repr

/-- The step of one process; `none` when the action does not apply where it stands. -/
def Thread.act (l : Log) (t : Thread) : Action → Option Effect
  | .beginOp => if t.pc = .idle then some (.go l { t with pc := .entry } false) else none
  | .logWrite b =>
    if t.pc = .op then some (.go l { t with pc := .logWrite .header b } false) else none
  | .endOp => if t.pc = .op then some (t.endStep l) else none
  | .kill => if t.pc = .asleep then some (.go l { t with pc := .entry } false) else none
  | .run =>
    match t.pc with
    | .entry => some (t.entryStep l)
    | .logWrite stage b => some (t.writeStep l b stage)
    | .commit stage => some (t.commitStep l stage)
    | _ => none

/-- The log and all processes. -/
structure Sys (ι : Type) where
  log : Log
  threads : ι → Thread := fun _ => {}
  stopped : Option Stop := none

section Sys
variable {ι : Type}

/-- The machine after `initlog` on an empty log. -/
def boot (dev : ℕ) (sb : Superblock) : Sys ι := { log := initlog dev sb }

/-- `wakeup(&log)` for one process. -/
def Thread.woken (t : Thread) : Thread := if t.pc = .asleep then { t with pc := .entry } else t

variable [DecidableEq ι]

/-- The machine after a step of process `p`. -/
def Sys.apply (s : Sys ι) (p : ι) : Effect → Sys ι
  | .go l t wakes =>
    { s with
      log := l
      threads := Function.update (fun q => if wakes then (s.threads q).woken else s.threads q) p t }
  | .stop e => { s with stopped := some e }

/-- One step of the machine. -/
def Sys.step (s : Sys ι) (p : ι) (a : Action) : Option (Sys ι) :=
  if s.stopped.isSome then none
  else ((s.threads p).act s.log a).map (s.apply p)

/-- The states that the machine reaches from `s` by steps in which process and action meet
`ok`. -/
def Sys.Reaches (ok : Sys ι → ι → Action → Prop) : Sys ι → Sys ι → Prop :=
  Lib.Reaches (fun s (c : ι × Action) => s.step c.1 c.2) fun s c => ok s c.1 c.2

end Sys

/-- Everything that a step of a process at `t` can be, with its guards. -/
inductive Move (l : Log) (t : Thread) : Action → Effect → Prop
  | quiet {a : Action} {pc : Pc} (hop : t.pc.inOp = false) (hop' : pc.inOp = false)
      (hcommit : pc.inCommit = t.pc.inCommit) (hasleep : pc ≠ .asleep)
      (hcleared : pc.cleared = true → t.pc.cleared = true ∨ l.lh = []) :
      Move l t a (.go l { t with pc := pc } false)
  | call {b : ℕ} (hpc : t.pc = .op) :
      Move l t (.logWrite b) (.go l { t with pc := .logWrite .header b } false)
  | next {stage stage' : WriteStage} {b : ℕ} (hpc : t.pc = .logWrite stage b) :
      Move l t .run (.go l { t with pc := .logWrite stage' b } false)
  | sleep (hpc : t.pc = .entry) (h : l.beginOp = none) :
      Move l t .run (.go l { t with pc := .asleep } false)
  | enter {l' : Log} (hpc : t.pc = .entry) (h : l.beginOp = some l') :
      Move l t .run (.go l' { pc := .op } false)
  | record {b : ℕ} (hpc : t.pc = .logWrite .locked b) (h : b ∈ l.lh ∨ ¬ l.headerFull) :
      Move l t .run (.go (l.record b) { pc := .op, writes := insert b t.writes } false)
  | endLast {l' : Log} (hpc : t.pc = .op) (h : l.endOp = .ok (l', true)) :
      Move l t .endOp (.go l' { t with pc := .commit .test } false)
  | endOther {l' : Log} (hpc : t.pc = .op) (h : l.endOp = .ok (l', false)) :
      Move l t .endOp (.go l' { t with pc := .idle } true)
  | clear (hpc : t.pc = .commit .clear) :
      Move l t .run (.go { l with lh := [] } { t with pc := .commit .eraseHead } false)
  | leave (hpc : t.pc = .commit .leave) :
      Move l t .run (.go { l with committing := false } { t with pc := .idle } true)
  | tooBig {stage : WriteStage} {b : ℕ} (hpc : t.pc = .logWrite stage b)
      (h : l.headerFull ∨ l.areaFull) : Move l t .run (.stop (.panic .tooBig))
  | outsideTrans {stage : WriteStage} {b : ℕ} (hpc : t.pc = .logWrite stage b)
      (h : l.outstanding < 1) : Move l t .run (.stop (.panic .outsideTrans))
  | overrun {stage : WriteStage} {b : ℕ} (hpc : t.pc = .logWrite stage b)
      (hb : b ∉ l.lh) (h : l.headerFull) : Move l t .run (.stop .overrun)
  | endPanic {e : Panic} (hpc : t.pc = .op) (h : l.endOp = .error e) :
      Move l t .endOp (.stop (.panic e))

variable {l : Log} {t : Thread}

lemma move_commitStep {stage : CommitStage} (hpc : t.pc = .commit stage) :
    Move l t .run (t.commitStep l stage) := by
  have hop : t.pc.inOp = false := by rw [hpc]; rfl
  cases stage with
  | test =>
    refine .quiet hop rfl (by rw [hpc]; rfl) (fun h => nomatch h) fun hc => Or.inr ?_
    by_cases hlh : 0 < l.lh.length
    · rw [if_pos hlh] at hc
      cases hc
    · exact List.length_eq_zero_iff.mp (by omega)
  | writeLog tail | installTrans tail =>
    refine .quiet hop rfl (by rw [hpc]; rfl) (fun h => nomatch h) fun hc => ?_
    split at hc <;> cases hc
  | writeHead => exact .quiet hop rfl (by rw [hpc]; rfl) (fun h => nomatch h) nofun
  | clear => exact .clear hpc
  | eraseHead =>
    exact .quiet hop rfl (by rw [hpc]; rfl) (fun h => nomatch h) fun _ => Or.inl (by rw [hpc]; rfl)
  | leave => exact .leave hpc

lemma move_writeStep {stage : WriteStage} {b : ℕ} (hpc : t.pc = .logWrite stage b) :
    Move l t .run (t.writeStep l b stage) := by
  cases stage with
  | header =>
    simp only [Thread.writeStep]
    split
    · exact .tooBig hpc (Or.inl ‹_›)
    · exact .next hpc
  | area =>
    simp only [Thread.writeStep]
    split
    · exact .tooBig hpc (Or.inr ‹_›)
    · exact .next hpc
  | trans =>
    simp only [Thread.writeStep]
    split
    · exact .outsideTrans hpc ‹_›
    · exact .next hpc
  | locked =>
    simp only [Thread.writeStep]
    split
    · rename_i h
      exact .overrun hpc h.1 h.2
    · rename_i h
      exact .record hpc (by tauto)

lemma move_entryStep (hpc : t.pc = .entry) : Move l t .run (t.entryStep l) := by
  unfold Thread.entryStep
  split
  · exact .sleep hpc ‹_›
  · exact .enter hpc ‹_›

lemma move_endStep (hpc : t.pc = .op) : Move l t .endOp (t.endStep l) := by
  unfold Thread.endStep
  split
  · exact .endPanic hpc ‹_›
  · exact .endLast hpc ‹_›
  · exact .endOther hpc ‹_›

/-- Every step of a process is one of the moves. -/
lemma move_of_act {a : Action} {e : Effect} (h : t.act l a = some e) : Move l t a e := by
  cases a with
  | beginOp | kill =>
    obtain ⟨hpc, rfl⟩ := by simpa [Thread.act] using h
    exact .quiet (by rw [hpc]; rfl) rfl (by rw [hpc]; rfl) (fun h => nomatch h) nofun
  | logWrite b =>
    obtain ⟨hpc, rfl⟩ := by simpa [Thread.act] using h
    exact .call hpc
  | endOp =>
    obtain ⟨hpc, rfl⟩ := by simpa [Thread.act] using h
    exact move_endStep hpc
  | run =>
    simp only [Thread.act] at h
    split at h
    · cases h
      exact move_entryStep ‹_›
    · cases h
      exact move_writeStep ‹_›
    · cases h
      exact move_commitStep ‹_›
    · cases h

section Runs
variable {ι : Type} [DecidableEq ι]
variable {s s' : Sys ι} {ok : Sys ι → ι → Action → Prop}

lemma move_of_step {p : ι} {a : Action} (h : s.step p a = some s') :
    s.stopped = none ∧ ∃ e, Move s.log (s.threads p) a e ∧ s' = s.apply p e := by
  unfold Sys.step at h
  split at h
  · cases h
  rename_i hrun
  obtain ⟨e, hact, rfl⟩ := Option.map_eq_some_iff.mp h
  exact ⟨by simpa using hrun, e, move_of_act hact, rfl⟩

/-- What the steps preserve holds in every state that is reached. -/
lemma Sys.Reaches.invariant {I : Sys ι → Prop}
    (hstep : ∀ s s' p a, I s → ok s p a → s.step p a = some s' → I s') (h : Sys.Reaches ok s s')
    (hs : I s) : I s' :=
  Lib.Reaches.invariant (fun s s' c => hstep s s' c.1 c.2) h hs

/-- Run a list of steps, each of which must meet `ok`. -/
def Sys.exec (ok : Sys ι → ι → Action → Prop) [∀ s p a, Decidable (ok s p a)] (s : Sys ι) :
    List (ι × Action) → Option (Sys ι) :=
  Lib.execAll (fun s c => s.step c.1 c.2) (fun s c => ok s c.1 c.2) s

lemma Sys.reaches_of_exec [∀ s p a, Decidable (ok s p a)] {as : List (ι × Action)}
    (h : s.exec ok as = some s') : Sys.Reaches ok s s' :=
  Lib.reaches_of_execAll h

/-- A quantity of the processes that `wakeup` does not change, after a step of `p`. -/
lemma sum_apply [Fintype ι] (w : Thread → ℕ) (hw : ∀ t, w (Thread.woken t) = w t) (s : Sys ι)
    (p : ι) (l : Log) (t : Thread) (wakes : Bool) :
    ∑ q, w ((s.apply p (.go l t wakes)).threads q) + w (s.threads p) =
      ∑ q, w (s.threads q) + w t := by
  have hpoint : ∀ q, w ((s.apply p (.go l t wakes)).threads q) =
      Function.update (fun q => w (s.threads q)) p (w t) q := by
    intro q
    unfold Sys.apply
    by_cases hq : q = p
    · subst hq
      simp
    · cases wakes <;> simp [Function.update_of_ne hq, hw]
  rw [Finset.sum_congr rfl fun q _ => hpoint q, Finset.sum_update_of_mem (Finset.mem_univ p),
    ← Finset.add_sum_erase _ _ (Finset.mem_univ p), Finset.sdiff_singleton_eq_erase]
  omega

end Runs
end Xv6.Logging
