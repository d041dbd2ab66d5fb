import Mathlib.Data.List.Induction
import Xv6.Process.Dispatch

/-!
# The winner of the lottery

The lottery is meant to draw among the `RUNNABLE` processes of level 0. The code
draws among all level-0 slots, in use or not, and its second loop does not stop
at the winner: it calls `run_p` on every later slot of the level as well, with
the table as the winner left it.
-/

namespace Xv6.Process

/-- The tickets of the `RUNNABLE` level-0 processes of a list. -/
def readyTickets (t : Table) (ps : List (Fin NPROC)) : ℤ :=
  ((ps.filter fun p => (t p).level = 0 ∧ (t p).state = .runnable).map
    fun p => (t p).ticket.toInt).sum

/-- The number that is to be drawn: `(ticks * 11 + 13) % total + 1`. -/
def drawn (t : Table) (ticks : UInt32) : ℤ :=
  ((ticks * 11 + 13).toNat : ℤ) % readyTickets t slots + 1

/-- The `RUNNABLE` level-0 process whose interval of tickets holds the number. -/
structure Winner (t : Table) (ticks : UInt32) (p : Fin NPROC) : Prop where
  level : (t p).level = 0
  runnable : (t p).state = .runnable
  above : readyTickets t (slots.take p.val) < drawn t ticks
  within : drawn t ticks ≤ readyTickets t (slots.take p.val) + (t p).ticket.toInt

/-- One call of the first level switches once, to the winner. -/
def DispatchesWinner (env : Env) (s : Cpu) : Prop :=
  ∃ w, (runFirstLevelProcesses env s).switches = s.switches ++ [w] ∧
    Winner s.t.proc s.ticks w.chosen

/-- Slot `p` is where the second loop makes its first switch: `p` is `RUNNABLE`, the random
ticket does not lie behind it, and no slot before it is like that. -/
structure FirstHit (t : Table) (random : Int32) (l₁ : List (Fin NPROC)) (p : Fin NPROC) :
    Prop where
  level : (t p).level = 0
  runnable : (t p).state = .runnable
  reached : random ≤ (l₁ ++ [p]).foldl (ticketStep t) 0
  first : ¬ Hits t random 0 l₁

lemma exists_first_hit {t : Table} {random n : Int32} {ps : List (Fin NPROC)}
    (h : Hits t random n ps) :
    ∃ l₁ p l₂, ps = l₁ ++ p :: l₂ ∧ (t p).level = 0 ∧ (t p).state = .runnable ∧
      random ≤ (l₁ ++ [p]).foldl (ticketStep t) n ∧ ¬ Hits t random n l₁ := by
  induction ps generalizing n with
  | nil => exact h.elim
  | cons p ps ih =>
    by_cases hp : (t p).level = 0 ∧ (t p).state = .runnable ∧ random ≤ ticketStep t n p
    · exact ⟨[], p, ps, rfl, hp.1, hp.2.1, hp.2.2, id⟩
    obtain ⟨l₁, q, l₂, rfl, hl, hs, hle, hnone⟩ := ih (h.resolve_left hp)
    exact ⟨p :: l₁, q, l₂, rfl, hl, hs, hle, not_or.mpr ⟨hp, hnone⟩⟩

/-- The second loop up to the return from its first switch. -/
def upTo (env : Env) (random : Int32) (s : Cpu) (l₁ : List (Fin NPROC)) (p : Fin NPROC) : Cpu :=
  ((l₁ ++ [p]).foldl (lotteryStep env random) (0, s)).2

/-- The table when the second loop has gone through the first slots without a switch: `run_p` has
counted a cycle for those of level 0 that are not before the random ticket. -/
def counted (t : PTable) (random : Int32) (l : List (Fin NPROC)) : PTable where
  __ := t
  proc q :=
    if q.val < l.length ∧ (t.proc q).level = 0 ∧
        random ≤ ticketSum t.proc (slots.take (q.val + 1)) then
      { t.proc q with cycleNum := (t.proc q).cycleNum + 1 }
    else t.proc q

/-- The table that the environment gives back after the first switch. -/
def givenBack (env : Env) (random : Int32) (s : Cpu) (l₁ : List (Fin NPROC)) (p : Fin NPROC) :
    PTable :=
  let t := counted s.t random (l₁ ++ [p])
  (env s.away (t.set p { t.proc p with state := .running }, s.ticks)).1

variable (env : Env) {t : PTable} {random : Int32} {s : Cpu} {l₁ l₂ : List (Fin NPROC)}
  {p : Fin NPROC}

section
variable (hsplit : slots = l₁ ++ p :: l₂)
include hsplit

lemma counted_next : (counted t random l₁).proc p = t.proc p := by
  have hval := val_of_split hsplit
  exact if_neg fun h => by omega

lemma counted_append : counted t random (l₁ ++ [p]) =
      if (t.proc p).level = 0 ∧ random ≤ ticketSum t.proc (l₁ ++ [p]) then
        (counted t random l₁).set p { t.proc p with cycleNum := (t.proc p).cycleNum + 1 }
      else counted t random l₁ := by
  have hnext : (counted t random l₁).proc p = t.proc p := counted_next hsplit
  have hval := val_of_split hsplit
  have hproc : ∀ q, (counted t random (l₁ ++ [p])).proc q =
      if q = p ∧ (t.proc p).level = 0 ∧ random ≤ ticketSum t.proc (l₁ ++ [p]) then
        { t.proc p with cycleNum := (t.proc p).cycleNum + 1 }
      else (counted t random l₁).proc q := by
    intro q
    by_cases hq : q = p
    · subst hq
      have hlt : q.val < (l₁ ++ [q]).length := by simp [hval]
      rw [hnext, counted]
      simp only [hlt, (take_of_split hsplit).2, true_and]
    · have hlt : q.val < (l₁ ++ [p]).length ↔ q.val < l₁.length := by
        rw [Fin.ext_iff] at hq
        rw [List.length_append, List.length_singleton]
        omega
      rw [if_neg fun h => hq h.1]
      simp only [counted, hlt]
  split
  · rename_i hcall
    refine congrArg (PTable.mk · t.nextpid t.initproc) (funext fun q => (hproc q).trans ?_)
    simp [hcall, Function.update_apply]
  · rename_i hcall
    refine congrArg (PTable.mk · t.nextpid t.initproc) (funext fun q => (hproc q).trans ?_)
    exact if_neg fun h => hcall h.2

end

lemma lottery_counted {l : List (Fin NPROC)} (hsplit : slots = l ++ l₂)
    (h : ¬ Hits s.t.proc random 0 l) :
    (l.foldl (lotteryStep env random) (0, s)).2 = { s with t := counted s.t random l } := by
  induction l using List.reverseRecOn generalizing l₂ with
  | nil => simp [counted]
  | append_singleton l p ih =>
    rw [List.append_assoc] at hsplit
    rw [hits_iff] at h
    have hmiss : ¬ Hits s.t.proc random 0 l := by
      rw [hits_iff]
      rintro ⟨l₁, q, l₂, rfl, hq⟩
      exact h ⟨l₁, q, l₂ ++ [p], by simp, hq⟩
    obtain ⟨hcount, hagree, -⟩ := lottery_noHit env (Agree.refl s.t.proc) hmiss
    have hstep := lotteryStep_eq env hagree random (l.foldl (lotteryStep env random) (0, s)).1 p
    rw [List.foldl_append, counted_append hsplit]
    refine (congrArg Prod.snd hstep).trans ?_
    rw [hcount, ih hsplit hmiss]
    have hsum : ticketSum s.t.proc (l ++ [p]) =
      ticketStep s.t.proc (l.foldl (ticketStep s.t.proc) 0) p := List.foldl_append ..
    rw [hsum]
    split
    · rename_i hcall
      have hle : random ≤ ticketSum s.t.proc (l ++ [p]) := hsum ▸ hcall.2
      have hidle : (s.t.proc p).state ≠ .runnable := fun hrun =>
        h ⟨l, p, [], rfl, hcall.1, hrun, hle⟩
      have hnext : (counted s.t random l).proc p = s.t.proc p := counted_next hsplit
      simp [runP, Cpu.set, hnext, hidle]
    · rfl

lemma FirstHit.fold_eq (h : FirstHit s.t.proc random l₁ p) :
    (l₁ ++ [p]).foldl (lotteryStep env random) (0, s) =
      ((l₁ ++ [p]).foldl (ticketStep s.t.proc) 0,
        runP env 0 p (l₁.foldl (lotteryStep env random) (0, s)).2) := by
  obtain ⟨hcount, hagree, -⟩ := lottery_noHit env (Agree.refl s.t.proc) h.first
  have hreached := h.reached
  rw [List.foldl_append, List.foldl_append, ← hcount]
  rw [List.foldl_append, ← hcount] at hreached
  exact (lotteryStep_eq env hagree random _ p).trans (congrArg _ (if_pos ⟨h.level, hreached⟩))

lemma FirstHit.switch (h : FirstHit s.t.proc random l₁ p) :
    ∃ w, w.chosen = p ∧ (upTo env random s l₁ p).switches = s.switches ++ [w] := by
  obtain ⟨-, hagree, -, hsw, -⟩ := lottery_noHit env (Agree.refl s.t.proc) h.first
  rw [upTo, h.fold_eq, runP_switches env ((hagree.state p).trans h.runnable), hsw]
  exact ⟨_, rfl, rfl⟩

lemma FirstHit.upTo_table (h : FirstHit s.t.proc random l₁ p) (hsplit : slots = l₁ ++ p :: l₂) :
    (upTo env random s l₁ p).t = givenBack env random s l₁ p := by
  rw [upTo, h.fold_eq, lottery_counted env hsplit h.first, givenBack, counted_append hsplit,
    if_pos ⟨h.level, h.reached⟩]
  simp [runP, Cpu.set, Cpu.leave, counted_next hsplit, h.runnable]

/-- The switches of the second loop: the first hit, and no other exactly when nothing is hit
in the table that the process leaves. -/
lemma FirstHit.switches_iff (h : FirstHit s.t.proc random l₁ p)
    (hsplit : slots = l₁ ++ p :: l₂) (w : Switch) :
    (slots.foldl (lotteryStep env random) (0, s)).2.switches = s.switches ++ [w] ↔
      (upTo env random s l₁ p).switches = s.switches ++ [w] ∧
      ¬ Hits (upTo env random s l₁ p).t.proc random
        ((l₁ ++ [p]).foldl (ticketStep s.t.proc) 0) l₂ := by
  obtain ⟨v, -, hv⟩ := h.switch env
  have hfold : slots.foldl (lotteryStep env random) (0, s) = l₂.foldl (lotteryStep env random)
        ((l₁ ++ [p]).foldl (ticketStep s.t.proc) 0, upTo env random s l₁ p) := by
    rw [hsplit, List.append_cons, List.foldl_append, upTo, h.fold_eq]
  rw [hfold]
  by_cases hhit : Hits (upTo env random s l₁ p).t.proc random
      ((l₁ ++ [p]).foldl (ticketStep s.t.proc) 0) l₂
  · obtain ⟨w', ws, hsw⟩ := lottery_hit env (Agree.refl _) hhit
    refine iff_of_false (fun heq => ?_) fun heq => heq.2 hhit
    rw [hsw, hv] at heq
    have hlen := congrArg List.length heq
    simp at hlen
  obtain ⟨-, -, -, hsw, -⟩ := lottery_noHit env (Agree.refl _) hhit
  rw [hsw]
  exact ⟨fun heq => ⟨heq, hhit⟩, fun heq => heq.1⟩

/-- The first level behaves as intended exactly when it holds a lottery at all, its first
switch goes to the winner, and the winner leaves no `RUNNABLE` level-0 process behind it that
the counter has passed the random ticket at. -/
theorem runFirst_dispatchesWinner_iff (s : Cpu) : DispatchesWinner env s ↔
      ticketSum s.t.proc slots ≠ 0 ∧
      ∃ l₁ p l₂, slots = l₁ ++ p :: l₂ ∧ Winner s.t.proc s.ticks p ∧
        FirstHit s.t.proc (randomTicket s.ticks (ticketSum s.t.proc slots)) l₁ p ∧
        ¬ Hits (givenBack env (randomTicket s.ticks (ticketSum s.t.proc slots)) s l₁ p).proc
          (randomTicket s.ticks (ticketSum s.t.proc slots))
          ((l₁ ++ [p]).foldl (ticketStep s.t.proc) 0) l₂ := by
  unfold DispatchesWinner runFirstLevelProcesses
  dsimp only
  by_cases hsum : ticketSum s.t.proc slots = 0
  · rw [if_pos hsum]
    refine iff_of_false ?_ fun h => h.1 hsum
    rintro ⟨w, hsw, -⟩
    simp at hsw
  rw [if_neg hsum]
  generalize randomTicket s.ticks (ticketSum s.t.proc slots) = random
  constructor
  · rintro ⟨w, hsw, hwin⟩
    have hhit : Hits s.t.proc random 0 slots := by
      by_contra hmiss
      obtain ⟨-, -, -, hnone, -⟩ := lottery_noHit env (Agree.refl _) hmiss
      rw [hnone] at hsw
      simp at hsw
    obtain ⟨l₁, p, l₂, hsplit, hl, hs, hle, hnone⟩ := exists_first_hit hhit
    have hfirst : FirstHit s.t.proc random l₁ p := ⟨hl, hs, hle, hnone⟩
    obtain ⟨hw, hquiet⟩ := (hfirst.switches_iff env hsplit w).mp hsw
    obtain ⟨v, hv, hvsw⟩ := hfirst.switch env
    obtain rfl : v = w := by simpa [hvsw] using hw
    rw [hfirst.upTo_table env hsplit] at hquiet
    exact ⟨hsum, l₁, p, l₂, hsplit, hv ▸ hwin, hfirst, hquiet⟩
  · rintro ⟨-, l₁, p, l₂, hsplit, hwin, hfirst, hquiet⟩
    obtain ⟨v, hv, hvsw⟩ := hfirst.switch env
    rw [← hfirst.upTo_table env hsplit] at hquiet
    exact ⟨v, (hfirst.switches_iff env hsplit v).mpr ⟨hvsw, hquiet⟩, hv.symm ▸ hwin⟩

/-- Two `RUNNABLE` processes share level 0; the free slots are of another level. -/
def twoReadyTable : Table := fun p =>
  if p = 0 then { state := .runnable, pid := 1, ticket := 10, cycleNum := 1 }
  else if p = 1 then { state := .runnable, pid := 2, ticket := 10, cycleNum := 1 }
  else { level := 1 }

/-- The fifth of twenty tickets belongs to the first process, and both are dispatched. -/
theorem lottery_dispatches_twice : (∀ p, (twoReadyTable p).level = 0 →
      (twoReadyTable p).state = .runnable ∧ 0 < (twoReadyTable p).ticket) ∧
    readyTickets twoReadyTable slots = 20 ∧ drawn twoReadyTable 1 = 5 ∧
    (runFirstLevelProcesses yieldEnv
      { t := ⟨twoReadyTable, 3, 0⟩, ticks := 1 }).switches.map Switch.chosen = [0, 1] := by
  decide +kernel

/-- With the first process alone there is nobody else to dispatch. -/
example : (runFirstLevelProcesses yieldEnv (atAcquire initTable 3)).switches.map Switch.chosen =
    [0] := by
  decide +kernel

end Xv6.Process
