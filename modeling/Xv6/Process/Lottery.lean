import Xv6.Process.Lives

/-!
# The lottery of the first level

`run_first_level_processes` adds up the tickets of all slots of level 0, in use or
not, in an `int`, and divides by the sum.
-/

namespace Xv6.Process
open Lib

/-- The largest number of tickets that all slots can have without an overflow of the sum. -/
def maxTickets : ℤ := (2 ^ 31 - 1) / NPROC

/-- `set_process_ticket` is called with a number of tickets between one and `maxTickets`. -/
def FairTickets (_ : Sys) : Move → Prop
  | .run _ (.setProcessTicket _ ticket) => 1 ≤ ticket.toInt ∧ ticket.toInt ≤ maxTickets
  | _ => True

/-- The tickets of one record. -/
structure Proc.Fair (r : Proc) : Prop where
  nonneg : 0 ≤ r.ticket.toInt
  le : r.ticket.toInt ≤ maxTickets
  pos : r.state ≠ .unused → 1 ≤ r.ticket.toInt

lemma Proc.Fair.of_ticket {r : Proc} (n : Int32) (hticket : r.ticket = n) (h : 1 ≤ n.toInt)
    (hle : n.toInt ≤ maxTickets) : r.Fair := by
  subst hticket
  exact ⟨by omega, hle, fun _ => h⟩

/-- A change that keeps the tickets and takes no slot into use. -/
lemma Proc.Fair.congr {r r' : Proc} (h : r.Fair) (hticket : r'.ticket = r.ticket)
    (hstate : r'.state ≠ .unused → r.state ≠ .unused) : r'.Fair := by
  refine ⟨?_, ?_, fun hr => ?_⟩
  · rw [hticket]
    exact h.nonneg
  · rw [hticket]
    exact h.le
  · rw [hticket]
    exact h.pos (hstate hr)

lemma maxTickets_eq : maxTickets = 33554431 := by decide

section Sum
variable {t : Table}

lemma toInt_add_of_bounds {x y : Int32} (hx : 0 ≤ x.toInt) (hy : 0 ≤ y.toInt)
    (h : x.toInt + y.toInt < 2 ^ 31) : (x + y).toInt = x.toInt + y.toInt := by
  rw [Int32.toInt_add]
  exact Int.bmod_eq_of_le (by omega) (by omega)

/-- The sum does not overflow, and it is at least the tickets of each slot that counts. -/
lemma ticketSum_bounds (h : ∀ q, (t q).Fair) (ps : List (Fin NPROC)) (n : Int32)
    (hn : 0 ≤ n.toInt) (hbound : n.toInt + maxTickets * ps.length < 2 ^ 31) :
    n.toInt ≤ (ps.foldl (ticketStep t) n).toInt ∧ ∀ p ∈ ps, (t p).level = 0 →
        n.toInt + (t p).ticket.toInt ≤ (ps.foldl (ticketStep t) n).toInt := by
  induction ps generalizing n with
  | nil => simp
  | cons p ps ih =>
    rw [maxTickets_eq] at hbound
    simp only [List.length_cons, Nat.cast_add, Nat.cast_one] at hbound
    obtain ⟨hnonneg, hle, -⟩ := h p
    rw [maxTickets_eq] at hle ih
    -- the first step adds the tickets of `p`, or nothing
    have hstep : (ticketStep t n p).toInt =
        if (t p).level = 0 then n.toInt + (t p).ticket.toInt else n.toInt := by
      unfold ticketStep
      split
      · exact toInt_add_of_bounds hn hnonneg (by omega)
      · rfl
    have hsum : n.toInt ≤ (ticketStep t n p).toInt ∧
        (ticketStep t n p).toInt ≤ n.toInt + 33554431 := by
      rw [hstep]
      split <;> omega
    obtain ⟨hge, hmem⟩ := ih (ticketStep t n p) (by omega) (by omega)
    rw [List.foldl_cons]
    refine ⟨by omega, fun q hq hlevel => ?_⟩
    obtain rfl | hq := List.mem_cons.mp hq
    · rw [if_pos hlevel] at hstep
      omega
    · have := hmem q hq hlevel
      omega

lemma ticketSum_pos (h : ∀ q, (t q).Fair) {p : Fin NPROC} (hlevel : (t p).level = 0)
    (hstate : (t p).state ≠ .unused) : 0 < (ticketSum t slots).toInt := by
  have hlength : slots.length = 64 := by
    unfold slots
    exact List.length_finRange
  have hbounds := (ticketSum_bounds h slots 0 (by decide) (by
    rw [hlength]
    decide)).2 p (mem_slots p) hlevel
  have hpos := (h p).pos hstate
  have hzero : (0 : Int32).toInt = 0 := by decide
  unfold ticketSum
  omega

end Sum

lemma toInt_toInt32 {x : UInt32} (h : x.toNat < 2 ^ 31) : x.toInt32.toInt = x.toNat := by
  have hx : x.toInt32.toInt = x.toBitVec.toInt := rfl
  have hnat : x.toBitVec.toNat = x.toNat := rfl
  rw [hx, BitVec.toInt_eq_toNat_of_lt (by omega), hnat]

lemma toNat_toUInt32 {n : Int32} (h : 0 ≤ n.toInt) : (n.toUInt32.toNat : ℤ) = n.toInt := by
  have hn : n.toInt = n.toUInt32.toBitVec.toInt := rfl
  have hnat : n.toUInt32.toNat = n.toUInt32.toBitVec.toNat := rfl
  have hlt := n.toUInt32.toBitVec.isLt
  rw [hn, BitVec.toInt_eq_toNat_cond] at h ⊢
  split at h
  · rename_i hcond
    rw [if_pos hcond, hnat]
  · omega

lemma randomTicket_bounds (ticks : UInt32) {n : Int32} (h : 0 < n.toInt) :
    1 ≤ (randomTicket ticks n).toInt ∧ (randomTicket ticks n).toInt ≤ n.toInt := by
  have hn := toNat_toUInt32 h.le
  have hle := Int32.toInt_le n
  have hmax : Int32.maxValue.toInt = 2147483647 := by decide
  have hone : (1 : UInt32).toNat = 1 := rfl
  have hrem : ((ticks * 11 + 13) % n.toUInt32).toNat < n.toUInt32.toNat := by
    rw [UInt32.toNat_mod]
    exact Nat.mod_lt _ (by omega)
  have hsucc : ((ticks * 11 + 13) % n.toUInt32 + 1).toNat =
      ((ticks * 11 + 13) % n.toUInt32).toNat + 1 := by
    rw [UInt32.toNat_add, hone]
    exact Nat.mod_eq_of_lt (by omega)
  unfold randomTicket
  rw [toInt_toInt32 (by omega)]
  omega

/-- Every fair move keeps the tickets in range. -/
lemma Moved.fair {s s' : Sys} {m : Move} (hm : Moved s m s') (hok : FairTickets s m)
    (hgood : s.Good) (h : ∀ q, (s.table.proc q).Fair) : ∀ q, (s'.table.proc q).Fair := by
  have hset : ∀ {p r}, r.Fair → ∀ q, ((s.table.set p r).proc q).Fair :=
    fun hr => PTable.forall_set (P := fun _ r => r.Fair) h hr
  have hreturn : ∀ p q, ((Process.sleepReturn s.table p).proc q).Fair :=
    fun p => hset ((h p).congr rfl id)
  cases hm with
  | @fork p np now t hrun hpc halloc =>
    have hspec := allocproc_spec halloc
    rw [hspec.eq]
    exact hset (.of_ticket 10 rfl (by decide) (by decide))
  | same | advance | exit | setFile | setCwd => exact h
  | @forkFail p np hrun hpc => exact hset ((h np).congr rfl (by simp))
  | @link p np ok hrun hpc => exact hset ((h np).congr rfl id)
  | dup hrun hpc =>
    unfold Sys.dupFile
    split <;> exact h
  | @start p np ok hrun hpc =>
    have hembryo : (s.table.proc np).state = .embryo :=
      ProcState.phase_eq_embryo.mp (hgood.tree.embryo p np true (by simp [hpc, Pc.link]))
    exact hset ((h np).congr rfl (by simp [hembryo]))
  | close hrun hpc =>
    unfold Sys.closeFile
    split <;> exact h
  | @leave p ok hrun hpc =>
    intro q
    rw [Sys.exit_table, exit_apply]
    refine (h q).congr rfl ?_
    rw [Proc.moved_state]
    split
    · rename_i hq
      simp [hq, hrun]
    split
    · rename_i hwoken
      simp [hwoken.1]
    · exact id
  | @wait p a hrun hpc =>
    unfold Sys.wait
    obtain ⟨z, -, -, hround⟩ | ⟨-, hround | hround⟩ :=
      waitRound_spec (Process.sleepReturn s.table p) p
    · rw [hround]
      exact PTable.forall_set (P := fun _ r => r.Fair) (hreturn p)
        ((hreturn p z).congr rfl (by simp [Proc.freed]))
    · rw [hround]
      exact hreturn p
    rw [hround]
    refine PTable.forall_set (P := fun _ r => r.Fair) (hreturn p) ((hreturn p p).congr rfl ?_)
    simp [Process.sleepReturn, hrun]
  | sleepReturn hrun hpc => exact hreturn _
  | sleep hrun hpc | yield hrun => exact hset ((h _).congr rfl (by simp [hrun]))
  | @kill p pid hrun =>
    unfold Sys.kill
    obtain ⟨z, -, hkill⟩ | ⟨-, hkill⟩ := kill_spec s.table pid
    · rw [hkill]
      refine hset ((h z).congr rfl ?_)
      unfold Proc.hit
      dsimp only
      split
      · rename_i hsleep
        simp [hsleep]
      · exact id
    · rw [hkill]
      exact h
  | exec hrun => exact hset (.of_ticket 100000 rfl (by decide) (by decide))
  | changeLevel | setPriority =>
    intro q
    refine (h q).congr ?_ ?_
    · simp only [Sys.setTable_table, changeProcessLevel, setProcessRemainingPriority]
      apply setByPid_field Proc.ticket
      exact fun _ => rfl
    · simp
  | @setTicket p pid ticket =>
    intro q
    rw [Sys.setTable_table, setProcessTicket, setByPid]
    dsimp only
    split
    · exact .of_ticket ticket rfl hok.1 hok.2
    · exact h q
  | dispatch hidle hp => exact hset ((h _).congr rfl (by simp [hp]))
  | wakeup =>
    intro q
    rw [Sys.setTable_table, wakeup1_apply]
    refine (h q).congr rfl ?_
    rw [Proc.moved_state]
    split
    · rename_i hsleep
      simp [hsleep.1]
    · exact id

/-- In every run in which `set_process_ticket` is called with fair numbers, the sum is positive and
the random ticket lies in its range whenever the lottery is held. -/
theorem lottery_in_range (s : Sys) (h : Sys.Reached FairTickets s) (p : Fin NPROC)
    (hlevel : (s.table.proc p).level = 0) (hrunnable : (s.table.proc p).state = .runnable)
    (ticks : UInt32) : 0 < ticketSum s.table.proc slots ∧
      1 ≤ randomTicket ticks (ticketSum s.table.proc slots) ∧
      randomTicket ticks (ticketSum s.table.proc slots) ≤ ticketSum s.table.proc slots := by
  have hfair : ∀ q, (s.table.proc q).Fair := by
    refine h.invariant (I := fun s => ∀ q, (s.table.proc q).Fair) ?_
      fun s s' m hgood hok hm hs => hm.fair hok hgood hs
    intro now s hfresh q
    rw [hfresh.proc]
    split
    · exact .of_ticket 10 rfl (by decide) (by decide)
    · exact ⟨by decide, by decide, by simp⟩
  have hpos := ticketSum_pos hfair hlevel (by simp [hrunnable])
  obtain ⟨hlow, hhigh⟩ := randomTicket_bounds ticks hpos
  exact ⟨Int32.lt_iff_toInt_lt.mpr hpos, Int32.le_iff_toInt_le.mpr hlow,
    Int32.le_iff_toInt_le.mpr hhigh⟩

instance (s : Sys) : ∀ m, Decidable (FairTickets s m)
  | .run _ (.setProcessTicket _ _) => inferInstanceAs (Decidable (_ ∧ _))
  | .run _ (.kill _) | .run _ (.next _) | .run _ (.fork _) | .run _ .exit | .run _ .wait
  | .run _ (.sleep _) | .run _ .yield | .run _ .exec | .run _ (.changeProcessLevel _ _)
  | .run _ (.setProcessRemainingPriority _ _) | .run _ (.setFile _ _) | .run _ (.setCwd _)
  | .dispatch _ _ | .wakeup _ => .isTrue trivial

/-- `initproc` takes one ticket and yields. -/
theorem one_ticket_in_range : ∃ s, Sys.Reached FairTickets s ∧ (s.table.proc 0).ticket = 1 ∧
    0 < ticketSum s.table.proc slots ∧ 1 ≤ randomTicket 7 (ticketSum s.table.proc slots) ∧
      randomTicket 7 (ticketSum s.table.proc slots) ≤ ticketSum s.table.proc slots := by
  obtain ⟨s, hreach, hticket, hlevel, hrunnable⟩ := Sys.exists_reached FairTickets 0 0
    [.dispatch 0 0, .run 0 (.setProcessTicket 1 1), .run 0 .yield]
    (fun s => (s.table.proc 0).ticket = 1 ∧ (s.table.proc 0).level = 0 ∧
      (s.table.proc 0).state = .runnable) (by decide +kernel)
  exact ⟨s, hreach, hticket, lottery_in_range s hreach 0 hlevel hrunnable 7⟩

/-- `initproc` gives up its tickets and yields: the scheduler divides by zero. -/
theorem no_tickets_divides_by_zero : ∃ s, Sys.Reached (fun _ _ => True) s ∧
    (s.table.proc 0).level = 0 ∧ (s.table.proc 0).state = .runnable ∧
    ticketSum s.table.proc slots = 0 :=
  Sys.exists_reached (fun _ _ => True) 0 0
    [.dispatch 0 0, .run 0 (.setProcessTicket 1 0), .run 0 .yield] _ (by decide +kernel)

end Xv6.Process
