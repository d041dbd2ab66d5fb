import Mathlib.Order.Interval.Finset.Nat
import Xv6.Process.Children

/-!
# When `get_children` ends

A queue of one-digit pids is a stack of processes. Where the pids of all processes
below the one that is asked for have one digit, the call goes through the tree below it
and meets every process once, so that the queue never has more than nine digits. Other
pids are explored as the digits they have, and the queue may come back to a value that
it has had.
-/

namespace Xv6.Process
open List

/-- `c` is a child of `p`. -/
def ParentOf (t : PTable) (c p : Fin NPROC) : Prop := (t.proc c).parent = some p

/-- No process is below itself. -/
def Forest (t : PTable) : Prop := ∀ p, ¬ Relation.TransGen (ParentOf t) p p

/-- The pid has one digit. -/
def OneDigit (pid : Int32) : Prop := 0 < pid ∧ pid ≤ 9

/-- `p` is below a process with this pid. -/
def Below (t : PTable) (pid : Int32) (p : Fin NPROC) : Prop :=
  ∃ r, (t.proc r).pid = pid ∧ Relation.TransGen (ParentOf t) p r

/-- The pids of the processes below have one digit, and nobody else has them. -/
structure SmallPids (t : PTable) (pid : Int32) : Prop where
  small : ∀ p, Below t pid p → OneDigit (t.proc p).pid
  inj : ∀ p q, Below t pid p → (t.proc p).pid = (t.proc q).pid → p = q

/-- The slots that `get_children_of` finds. -/
def childSlots (t : PTable) (pid : Int32) : List (Fin NPROC) :=
  slots.filter fun p => IsChildOf t pid p

/-- The pid as a number. -/
def digitOf (t : PTable) (p : Fin NPROC) : ℕ := (t.proc p).pid.toInt.toNat

/-- The queue in which the slots `l` are to be explored, the first one next. -/
def queueOf (t : PTable) (l : List (Fin NPROC)) : ℕ := Nat.ofDigits 10 (l.map (digitOf t))

variable {t : PTable} {p : Fin NPROC}

lemma OneDigit.digitOf (h : OneDigit (t.proc p).pid) :
    Int32.ofNat (digitOf t p) = (t.proc p).pid ∧ 1 ≤ digitOf t p ∧ digitOf t p ≤ 9 := by
  have hpos : (0 : ℤ) < (t.proc p).pid.toInt := Int32.lt_iff_toInt_lt.mp h.1
  have hle : (t.proc p).pid.toInt ≤ 9 := Int32.le_iff_toInt_le.mp h.2
  have hnat : ((Process.digitOf t p : ℕ) : ℤ) = (t.proc p).pid.toInt := Int.toNat_of_nonneg hpos.le
  refine ⟨?_, by omega, by omega⟩
  rw [← Int32.toInt_inj, Int32.toInt_ofNat_of_lt (by omega), hnat]

variable {l : List (Fin NPROC)}

section
variable (hl : ∀ p ∈ l, OneDigit (t.proc p).pid)
include hl

lemma queueOf_lt (hlen : l.length ≤ 9) : queueOf t l < 2 ^ 31 := by
  have hdigits : ∀ d ∈ l.map (digitOf t), d < 10 := by
    intro d hd
    obtain ⟨p, hp, rfl⟩ := mem_map.mp hd
    have := (hl p hp).digitOf
    omega
  calc queueOf t l < 10 ^ (l.map (digitOf t)).length :=
        Nat.ofDigits_lt_base_pow_length (by decide) hdigits
    _ ≤ 10 ^ 9 := by
        rw [length_map]
        exact Nat.pow_le_pow_right (by decide) hlen
    _ < 2 ^ 31 := by decide

lemma digits_queueOf : Nat.digits 10 (queueOf t l) = l.map (digitOf t) := by
  have hdigit : ∀ d ∈ l.map (digitOf t), 1 ≤ d ∧ d ≤ 9 := by
    intro d hd
    obtain ⟨p, hp, rfl⟩ := mem_map.mp hd
    exact (hl p hp).digitOf.2
  refine Nat.digits_ofDigits 10 (by decide) _ (fun d hd => ?_) fun hne => ?_
  · have := hdigit d hd
    omega
  · have := hdigit _ (getLast_mem hne)
    omega

lemma map_digitOf : (l.map (digitOf t)).map Int32.ofNat = l.map fun p => (t.proc p).pid := by
  rw [map_map]
  exact map_congr_left fun p hp => (hl p hp).digitOf.1

end

variable {pid : Int32}

lemma digits_getChildrenOf (hsmall : ∀ c ∈ childSlots t pid, OneDigit (t.proc c).pid)
    (hlen : (childSlots t pid).length ≤ 9) :
    digits (getChildrenOf t pid) = ((childSlots t pid).map (digitOf t)).map Int32.ofNat := by
  have hfold : slots.foldl (fun x p => if IsChildOf t pid p then x.add (t.proc p).pid else x)
      ({} : Concat) =
        (((childSlots t pid).map (digitOf t)).map Int32.ofNat).foldl Concat.add {} := by
    rw [map_digitOf hsmall, foldl_map, childSlots, foldl_filter]
    simp only [decide_eq_true_eq]
  have hlt := queueOf_lt hsmall hlen
  have hdigits := digits_queueOf hsmall
  unfold getChildrenOf
  rw [hfold, foldl_add _ (by rw [length_map]; omega)]
  dsimp only
  rw [← queueOf, ← hdigits]
  by_cases hzero : queueOf t (childSlots t pid) = 0
  · -- there are no children
    rw [hzero]
    rfl
  · have hpos := (ofNat_pos_iff hlt).mpr (Nat.pos_of_ne_zero hzero)
    rw [if_neg fun h => absurd hpos (by rw [h.1]; decide), digits_ofNat hlt]

/-! ### The stack of slots -/

/-- The loop with the slots `todo` in the queue, after the slots `met` have been reported. -/
def exploring (t : PTable) (todo met : List (Fin NPROC)) : Exploring :=
  ⟨Int32.ofNat (queueOf t todo), Int32.ofNat (queueOf t met), Int32.ofNat met.length⟩

lemma foldl_push (cs todo met : List (Fin NPROC)) (hlen : (met ++ cs).length < 2 ^ 31) :
    ((cs.map (digitOf t)).map Int32.ofNat).foldl Exploring.push (exploring t todo met) =
      exploring t (cs.reverse ++ todo) (met ++ cs) := by
  induction cs generalizing todo met with
  | nil => rw [append_nil]; rfl
  | cons c cs ih =>
    rw [append_cons] at hlen
    have hmet : met.length < 2 ^ 31 := by
      simp only [length_append] at hlen
      omega
    have hpush : (exploring t todo met).push (Int32.ofNat (digitOf t c)) =
        exploring t (c :: todo) (met ++ [c]) := by
      simp only [exploring, Exploring.push, pow2, pow_ofNat hmet, queueOf, map_cons, map_append,
        map_nil, Nat.ofDigits_cons, Nat.ofDigits_append, Nat.ofDigits_nil, Nat.mul_zero,
        Nat.add_zero, length_append, length_map, length_singleton, Int32.ofNat_add,
        Int32.ofNat_mul, Int32.mul_comm, Int32.add_comm]
      rfl
    rw [map_cons, map_cons, foldl_cons, hpush, ih _ _ hlen, reverse_cons, append_assoc,
      ← append_cons]
    rfl

lemma turn_queueOf {d : ℕ} (rest met : List (Fin NPROC)) (hd : d < 10)
    (hlt : d + 10 * queueOf t rest < 2 ^ 31)
    (hsmall : ∀ c ∈ childSlots t (Int32.ofNat d), OneDigit (t.proc c).pid)
    (hlen : (met ++ childSlots t (Int32.ofNat d)).length ≤ 9) :
    Exploring.turn t { exploring t rest met with
      exploringQueue := Int32.ofNat (d + 10 * queueOf t rest) } =
      exploring t ((childSlots t (Int32.ofNat d)).reverse ++ rest)
        (met ++ childSlots t (Int32.ofNat d)) := by
  have hmod : (d + 10 * queueOf t rest) % 10 = d := by omega
  have hdiv : (d + 10 * queueOf t rest) / 10 = queueOf t rest := by omega
  rw [Exploring.turn, ofNat_mod_ten hlt, ofNat_div_ten hlt, hmod, hdiv,
    digits_getChildrenOf hsmall (by rw [length_append] at hlen; omega)]
  exact foldl_push _ _ _ (by omega)

/-- Below a process with pid `pid`, the slots `done` have been explored and `todo` are to be. -/
structure Exploration (t : PTable) (pid : Int32) (done todo : List (Fin NPROC)) : Prop where
  nodup : (done ++ todo).Nodup
  parent : ∀ p ∈ done ++ todo, ∃ q, (t.proc p).parent = some q ∧ ((t.proc q).pid = pid ∨ q ∈ done)
  below : ∀ p ∈ done ++ todo, Below t pid p

/-- In addition, the children of what has been explored have been met, and `met` are the slots in
the order in which they were. -/
structure Reporting (t : PTable) (pid : Int32) (done todo met : List (Fin NPROC)) : Prop extends
    Exploration t pid done todo where
  closed : ∀ c p, (t.proc c).parent = some p → (t.proc p).pid = pid ∨ p ∈ done → c ∈ done ++ todo
  perm : met.Perm (done ++ todo)

lemma mem_childSlots {c : Fin NPROC} :
    c ∈ childSlots t pid ↔ ∃ q, (t.proc c).parent = some q ∧ (t.proc q).pid = pid := by
  rw [childSlots, mem_filter, decide_eq_true_iff]
  exact and_iff_right (mem_slots c)

lemma perm_explored (cs done todo : List (Fin NPROC)) :
    List.Perm ((p :: done) ++ (cs.reverse ++ todo)) (cs ++ (done ++ p :: todo)) := by
  refine perm_iff_count.mpr fun q => ?_
  simp only [count_append, count_cons, count_reverse]
  omega

namespace Exploration

variable {pid : Int32} {done todo : List (Fin NPROC)}

lemma small (h : Exploration t pid done todo) (ht : SmallPids t pid) :
    ∀ p ∈ done ++ todo, OneDigit (t.proc p).pid := fun p hp => ht.small p (h.below p hp)

lemma length_le (h : Exploration t pid done todo) (ht : SmallPids t pid) :
    (done ++ todo).length ≤ 9 := by
  have hsmall := h.small ht
  have hnodup : ((done ++ todo).map (digitOf t)).Nodup := by
    refine h.nodup.map_on fun p hp q hq heq => ?_
    refine ht.inj p q (h.below p hp) ?_
    rw [← (hsmall p hp).digitOf.1, ← (hsmall q hq).digitOf.1, heq]
  have hsubset : ((done ++ todo).map (digitOf t)).toFinset ⊆ Finset.Icc 1 9 := by
    intro d hd
    obtain ⟨p, hp, rfl⟩ := mem_map.mp (mem_toFinset.mp hd)
    exact Finset.mem_Icc.mpr (hsmall p hp).digitOf.2
  calc (done ++ todo).length = ((done ++ todo).map (digitOf t)).toFinset.card := by
        rw [toFinset_card_of_nodup hnodup, length_map]
    _ ≤ (Finset.Icc 1 9).card := Finset.card_le_card hsubset
    _ = 9 := rfl

section
variable (h : Exploration t pid done (p :: todo))
include h

/-- The children of the slot on top have not been met. -/
lemma not_mem (ht : SmallPids t pid) (hforest : Forest t)
    {c : Fin NPROC} (hc : (t.proc c).parent = some p) : c ∉ done ++ p :: todo := by
  intro hmem
  have hp : p ∈ done ++ p :: todo := mem_append_right _ mem_cons_self
  obtain ⟨q, hq, hroot | hdone⟩ := h.parent c hmem
  · obtain rfl : p = q := Option.some.inj (hc.symm.trans hq)
    -- `p` is the process that was asked for, and below itself
    obtain ⟨r, hr, hbelow⟩ := h.below p hp
    obtain rfl : p = r := ht.inj p r (h.below p hp) (hroot.trans hr.symm)
    exact hforest p hbelow
  · obtain rfl : p = q := Option.some.inj (hc.symm.trans hq)
    exact disjoint_of_nodup_append h.nodup hdone mem_cons_self

lemma parent_of_mem (ht : SmallPids t pid)
    {c : Fin NPROC} (hc : c ∈ childSlots t (t.proc p).pid) : (t.proc c).parent = some p := by
  have hp : p ∈ done ++ p :: todo := mem_append_right _ mem_cons_self
  obtain ⟨q, hq, hpid⟩ := mem_childSlots.mp hc
  rwa [ht.inj p q (h.below p hp) hpid.symm]

lemma step (ht : SmallPids t pid) (hforest : Forest t) :
    Exploration t pid (p :: done) ((childSlots t (t.proc p).pid).reverse ++ todo) := by
  have hp : p ∈ done ++ p :: todo := mem_append_right _ mem_cons_self
  have hperm := perm_explored (p := p) (childSlots t (t.proc p).pid) done todo
  -- what is known of the children, and of the others
  have hcases : ∀ q ∈ (p :: done) ++ ((childSlots t (t.proc p).pid).reverse ++ todo),
      (t.proc q).parent = some p ∨ q ∈ done ++ p :: todo := by
    intro q hq
    obtain hq | hq := mem_append.mp (hperm.subset hq)
    · exact .inl (h.parent_of_mem ht hq)
    · exact .inr hq
  refine ⟨hperm.nodup_iff.mpr ?_, fun q hq => ?_, fun q hq => ?_⟩
  · refine nodup_append'.mpr ⟨slots_nodup.filter _, h.nodup, fun c hc => ?_⟩
    exact h.not_mem ht hforest (h.parent_of_mem ht hc)
  · obtain hchild | hq := hcases q hq
    · exact ⟨p, hchild, .inr mem_cons_self⟩
    obtain ⟨r, hr, hroot⟩ := h.parent q hq
    exact ⟨r, hr, hroot.imp id (mem_cons_of_mem p)⟩
  obtain hchild | hq := hcases q hq
  · obtain ⟨r, hr, hbelow⟩ := h.below p hp
    exact ⟨r, hr, hbelow.head hchild⟩
  · exact h.below q hq

end
end Exploration

namespace Reporting

variable {pid : Int32} {done todo met : List (Fin NPROC)}

section
variable (h : Reporting t pid done (p :: todo) met) (ht : SmallPids t pid) (hforest : Forest t)
include h ht hforest

lemma next :
    Reporting t pid (p :: done) ((childSlots t (t.proc p).pid).reverse ++ todo)
      (met ++ childSlots t (t.proc p).pid) := by
  have hperm := perm_explored (p := p) (childSlots t (t.proc p).pid) done todo
  refine ⟨h.step ht hforest, fun c q hc hq => ?_, ?_⟩
  · apply hperm.mem_iff.mpr
    obtain hpid | hdone := hq
    · exact mem_append_right _ (h.closed c q hc (.inl hpid))
    obtain rfl | hdone := mem_cons.mp hdone
    · exact mem_append_left _ (mem_childSlots.mpr ⟨q, hc, rfl⟩)
    · exact mem_append_right _ (h.closed c q hc (.inr hdone))
  · exact (h.perm.append_right _).trans (perm_append_comm.trans hperm.symm)

lemma turn :
    (exploring t (p :: todo) met).turn t =
      exploring t ((childSlots t (t.proc p).pid).reverse ++ todo)
        (met ++ childSlots t (t.proc p).pid) := by
  obtain ⟨hpid, -, hle⟩ := (h.small ht p (mem_append_right _ mem_cons_self)).digitOf
  have hnext := h.next ht hforest
  have hlen := h.length_le ht
  have hlen' := hnext.length_le ht
  rw [← hnext.perm.length_eq] at hlen'
  rw [length_append] at hlen
  have hlt := queueOf_lt (fun q hq => h.small ht q (mem_append_right _ hq)) (by omega)
  have hsmall : ∀ c ∈ childSlots t (t.proc p).pid, OneDigit (t.proc c).pid := fun c hc =>
    hnext.small ht c (hnext.perm.subset (mem_append_right _ hc))
  have hcons : queueOf t (p :: todo) = digitOf t p + 10 * queueOf t todo := Nat.ofDigits_cons
  rw [hcons] at hlt
  rw [← hpid] at hlen' hsmall ⊢
  rw [← turn_queueOf todo met (by omega) hlt hsmall hlen', ← hcons]
  rfl

end

lemma returns (h : Reporting t pid done todo met) (ht : SmallPids t pid) (hforest : Forest t) :
    ∃ n done' l, explore t n false (exploring t todo met) = some (exploring t [] l) ∧
      Reporting t pid done' [] l := by
  have hlen := h.length_le ht
  rw [length_append] at hlen
  -- the slots that have not been met are fewer after each turn
  induction hk : 9 - done.length generalizing done todo met with
  | zero =>
    obtain rfl : todo = [] := length_eq_zero_iff.mp (by omega)
    exact ⟨1, done, met, rfl, h⟩
  | succ k ih =>
    rcases todo with _ | ⟨p, todo⟩
    · exact ⟨1, done, met, rfl, h⟩
    have hnext := h.next ht hforest
    have hlen' := hnext.length_le ht
    rw [length_append] at hlen'
    obtain ⟨n, done', l, hn, hl⟩ := ih hnext hlen' (by rw [length_cons]; omega)
    refine ⟨n + 1, done', l, ?_, hl⟩
    rw [← h.turn ht hforest] at hn
    have hpos : 0 < queueOf t (p :: todo) := by
      have := (h.small ht p (mem_append_right _ mem_cons_self)).digitOf
      have hcons : queueOf t (p :: todo) = digitOf t p + 10 * queueOf t todo := Nat.ofDigits_cons
      omega
    have hlt := queueOf_lt (fun q hq => h.small ht q (mem_append_right done hq)) (by omega)
    rw [explore, if_pos (.inl ((ofNat_pos_iff hlt).mpr hpos)), hn]

lemma mem_iff (h : Reporting t pid done [] met) :
    p ∈ met ↔ Below t pid p := by
  have hperm := h.perm
  rw [append_nil] at hperm
  rw [hperm.mem_iff]
  constructor
  · exact fun hp => h.below p (mem_append_left _ hp)
  rintro ⟨r, hr, hbelow⟩
  induction hbelow using Relation.TransGen.head_induction_on with
  | single hq => simpa using h.closed _ _ hq (.inl hr)
  | head hq _ ih => simpa using h.closed _ _ hq (.inr ih)

end Reporting

lemma reporting_children (t : PTable) (pid : Int32) :
    Reporting t pid [] (childSlots t pid).reverse (childSlots t pid) := by
  have hchild : ∀ c ∈ [] ++ (childSlots t pid).reverse,
      ∃ q, (t.proc c).parent = some q ∧ (t.proc q).pid = pid := by
    intro c hc
    exact mem_childSlots.mp (mem_reverse.mp hc)
  refine ⟨⟨nodup_reverse.mpr (slots_nodup.filter _), fun c hc => ?_, fun c hc => ?_⟩,
    fun c p hc hp => ?_, (reverse_perm _).symm⟩
  · obtain ⟨q, hq, hpid⟩ := hchild c hc
    exact ⟨q, hq, .inl hpid⟩
  · obtain ⟨q, hq, hpid⟩ := hchild c hc
    exact ⟨q, hpid, .single hq⟩
  · exact mem_reverse.mpr (mem_childSlots.mpr ⟨p, hc, hp.elim id nofun⟩)

section
variable (ht : SmallPids t pid) (hforest : Forest t) (hpos : 0 ≤ pid) (hle : pid ≤ 9)
include ht hforest hpos hle

/-- Where all pids below have one digit, the call returns, and what it has put together are these
pids. -/
lemma SmallPids.returns : ∃ n done l,
    explore t n (pid = 0) ⟨pid, 0, 0⟩ = some (exploring t [] l) ∧
      Reporting t pid done [] l := by
  have hreport := reporting_children t pid
  have hlen := hreport.length_le ht
  rw [nil_append, length_reverse] at hlen
  -- the argument is a digit
  have hpos' : (0 : ℤ) ≤ pid.toInt := Int32.le_iff_toInt_le.mp hpos
  have hle' : pid.toInt ≤ 9 := Int32.le_iff_toInt_le.mp hle
  obtain ⟨d, hd⟩ := Int.eq_ofNat_of_zero_le hpos'
  obtain rfl : Int32.ofNat d = pid := by
    rw [← Int32.toInt_inj, Int32.toInt_ofNat_of_lt (by omega), hd]
  have hfirst := turn_queueOf [] [] (show d < 10 by omega) (by change d + 0 < _; omega)
    (fun c hc => hreport.small ht c (by simp [hc])) hlen
  rw [append_nil] at hfirst
  obtain ⟨n, done, l, hn, hl⟩ := hreport.returns ht hforest
  refine ⟨n + 1, done, l, ?_, hl⟩
  have hloop : 0 < Int32.ofNat d ∨ decide (Int32.ofNat d = 0) = true := by
    obtain hlt | heq := Int32.lt_or_eq_of_le hpos
    · exact .inl hlt
    · exact .inr (decide_eq_true heq.symm)
  rw [explore, if_pos hloop]
  exact (congrArg _ hfirst).trans hn

lemma SmallPids.ends : Ends t pid := by
  obtain ⟨n, done, l, hn, -⟩ := ht.returns hforest hpos hle
  refine ⟨n, ?_⟩
  rw [sysGetChildren, hn]
  rfl

end

lemma forest_of_lt (h : ∀ c, ∀ p ∈ (t.proc c).parent, p < c) : Forest t := by
  intro p hp
  have hlt : ∀ q, Relation.TransGen (ParentOf t) p q → q < p := by
    intro q hq
    induction hq with
    | single hq => exact h _ _ hq
    | tail _ hq ih => exact (h _ _ hq).trans ih
  exact lt_irrefl p (hlt p hp)

/-- The processes that are or have a parent have positive pids, and different ones. -/
structure GoodPids (t : PTable) : Prop where
  pos : ∀ c p, (t.proc c).parent = some p → 0 < (t.proc c).pid ∧ 0 < (t.proc p).pid
  inj : ∀ p q, 0 < (t.proc p).pid → (t.proc p).pid = (t.proc q).pid → p = q

lemma GoodPids.pos_of_below (h : GoodPids t) (hp : Below t pid p) :
    0 < (t.proc p).pid ∧ 0 < pid := by
  obtain ⟨r, rfl, hbelow⟩ := hp
  obtain ⟨q, hq, -⟩ := Relation.TransGen.head'_iff.mp hbelow
  obtain ⟨q', -, hq'⟩ := Relation.TransGen.tail'_iff.mp hbelow
  exact ⟨(h.pos _ _ hq).1, (h.pos _ _ hq').2⟩

lemma GoodPids.smallPids (h : GoodPids t) (hle : ∀ p, Below t pid p → (t.proc p).pid ≤ 9) :
    SmallPids t pid where
  small p hp := ⟨(h.pos_of_below hp).1, hle p hp⟩
  inj p q hp := h.inj p q (h.pos_of_below hp).1

/-- A negative pid is not explored. -/
lemma explore_neg (hneg : pid < 0) : explore t 1 (pid = 0) ⟨pid, 0, 0⟩ = some ⟨pid, 0, 0⟩ := by
  rw [explore, if_neg]
  rintro (hpos | hzero)
  · exact absurd (Int32.lt_trans hpos hneg) (by decide)
  · rw [of_decide_eq_true hzero] at hneg
    exact absurd hneg (by decide)

/-- The pids below. -/
def descendants (t : PTable) (pid : Int32) : Set Int32 :=
  { d | ∃ p, (t.proc p).pid = d ∧ Below t pid p }

lemma explore_unique {m n : ℕ} {zero : Bool} {x y y' : Exploring}
    (hm : explore t m zero x = some y) (hn : explore t n zero x = some y') : y = y' := by
  induction m generalizing n zero x with
  | zero => cases hm
  | succ m ih =>
    rcases n with _ | n
    · cases hn
    rw [explore] at hm hn
    split at hm
    · rename_i hloop
      rw [if_pos hloop] at hn
      exact ih hm hn
    rename_i hloop
    rw [if_neg hloop] at hn
    exact Option.some.inj (hm.symm.trans hn)

lemma sysGetChildren_unique {m n : ℕ} {r r' : Int32} (hm : sysGetChildren t m pid = some r)
    (hn : sysGetChildren t n pid = some r') : r = r' := by
  obtain ⟨y, hy, rfl⟩ := Option.map_eq_some_iff.mp hm
  obtain ⟨y', hy', rfl⟩ := Option.map_eq_some_iff.mp hn
  rw [explore_unique hy hy']

/-- The call returns, and its result lists the pids below, each once. -/
def Reports (t : PTable) (pid : Int32) : Prop := ∃ fuel r, sysGetChildren t fuel pid = some r ∧
  (digits r).Nodup ∧ (∀ d, d ∈ digits r ↔ d ∈ descendants t pid) ∧
    (r = -1 ↔ descendants t pid = ∅)

lemma SmallPids.reports (ht : SmallPids t pid) (hforest : Forest t) (hpos : 0 ≤ pid)
    (hle : pid ≤ 9) : Reports t pid := by
  obtain ⟨n, done, l, hn, hl⟩ := ht.returns hforest hpos hle
  have hperm := hl.perm
  have hsmall : ∀ p ∈ l, OneDigit (t.proc p).pid := fun p hp => hl.small ht p (hperm.subset hp)
  have hlt : queueOf t l < 2 ^ 31 := queueOf_lt hsmall (hperm.length_eq ▸ hl.length_le ht)
  have hdigits : digits (if (exploring t [] l).grandchildren = 0 then -1
      else (exploring t [] l).grandchildren) = l.map fun p => (t.proc p).pid := by
    rw [← map_digitOf hsmall, ← digits_queueOf hsmall, ← digits_ofNat hlt]
    split
    · rename_i hzero
      exact (congrArg digits hzero).symm
    · rfl
  have hmem : ∀ d, d ∈ l.map (fun p => (t.proc p).pid) ↔ d ∈ descendants t pid := by
    intro d
    rw [mem_map]
    constructor
    · rintro ⟨p, hp, rfl⟩
      exact ⟨p, rfl, hl.mem_iff.mp hp⟩
    · rintro ⟨p, rfl, hbelow⟩
      exact ⟨p, hl.mem_iff.mpr hbelow, rfl⟩
  refine ⟨n, _, congrArg (Option.map _) hn, ?_⟩
  beta_reduce
  rw [hdigits]
  refine ⟨(hperm.nodup_iff.mpr hl.nodup).map_on fun p hp q _ => ht.inj p q (hl.mem_iff.mp hp),
    hmem, fun hnone => ?_, fun hempty => ?_⟩
  · rw [hnone] at hdigits
    ext d
    rw [← hmem, ← hdigits]
    exact iff_of_false not_mem_nil id
  have hnil : l = [] := by
    apply map_eq_nil_iff.mp
    exact eq_nil_iff_forall_not_mem.mpr fun d hd => hempty.subset ((hmem d).mp hd)
  rw [hnil]
  rfl

lemma le_nine_of_mem_digitsUpto {n : ℕ} {x d : Int32} (hd : d ∈ digitsUpto n x) : d ≤ 9 := by
  induction n generalizing x with
  | zero => cases hd
  | succ n ih =>
    rw [digitsUpto] at hd
    split at hd
    · obtain rfl | hd := mem_cons.mp hd
      · rw [Int32.le_iff_toInt_le, Int32.toInt_mod]
        exact Int.le_of_lt_add_one (Int.tmod_lt_of_pos _ (by decide))
      · exact ih hd
    · cases hd

/-- A value that is returned in two tables stands for the same pids. -/
lemma Reports.unique {t' : PTable} {fuel fuel' : ℕ} {r : Int32} (h : Reports t pid)
    (h' : Reports t' pid) (hr : sysGetChildren t fuel pid = some r)
    (hr' : sysGetChildren t' fuel' pid = some r) : descendants t pid = descendants t' pid := by
  obtain ⟨n, r₁, hn, -, hmem, -⟩ := h
  obtain ⟨n', r₂, hn', -, hmem', -⟩ := h'
  obtain rfl := sysGetChildren_unique hr hn
  obtain rfl := sysGetChildren_unique hr' hn'
  ext d
  rw [← hmem, hmem']

/-- The pids below are reported only if they have one digit, and always then if the argument has
one digit as well; the value that is returned then determines them. -/
theorem get_children_reports (t : PTable) (pid : Int32) (hforest : Forest t)
    (hpids : GoodPids t) :
    (Reports t pid → ∀ d ∈ descendants t pid, d ≤ 9) ∧
      (pid ≤ 9 → (∀ d ∈ descendants t pid, d ≤ 9) → Reports t pid) ∧
      ∀ t' fuel fuel' r, Reports t pid → Reports t' pid → sysGetChildren t fuel pid = some r →
        sysGetChildren t' fuel' pid = some r → descendants t pid = descendants t' pid := by
  refine ⟨fun h d hd => ?_, fun hle h => ?_, fun t' fuel fuel' r h h' => h.unique h'⟩
  · obtain ⟨fuel, r, -, -, hmem, -⟩ := h
    exact le_nine_of_mem_digitsUpto ((hmem d).mpr hd)
  have ht : SmallPids t pid := hpids.smallPids fun p hp => h _ ⟨p, rfl, hp⟩
  by_cases hpos : 0 ≤ pid
  · exact ht.reports hforest hpos hle
  have hempty : descendants t pid = ∅ := by
    ext d
    refine iff_of_false (fun ⟨p, _, hp⟩ => hpos ?_) id
    exact Int32.le_of_lt (hpids.pos_of_below hp).2
  refine ⟨1, -1, ?_, ?_⟩
  · rw [sysGetChildren, explore_neg (Int32.not_le.mp hpos)]
    rfl
  · rw [hempty]
    exact ⟨nodup_nil, fun d => iff_of_false not_mem_nil id, iff_of_true rfl rfl⟩

/-- Process 5 with children of these pids. -/
def childrenTable (pids : List Int32) : PTable where
  proc := fun p =>
    if p = 0 then { state := .runnable, pid := 5 }
    else match pids[p.val - 1]? with
      | some pid => { state := .runnable, pid := pid, parent := some 0 }
      | none => {}
  nextpid := 24
  initproc := 0

lemma childrenTable_forest (pids : List Int32) : Forest (childrenTable pids) := by
  refine forest_of_lt fun c p hp => ?_
  unfold childrenTable at hp
  dsimp only at hp
  split_ifs at hp with hc
  · cases hp
  split at hp
  · cases hp
    exact Fin.pos_iff_ne_zero.mpr hc
  · cases hp

/-- Process 5 has the children 3 and 2. -/
theorem get_children_reports_32 : Reports (childrenTable [3, 2]) 5 := by
  refine (get_children_reports _ 5 (childrenTable_forest [3, 2])
    ⟨by decide +kernel, by decide +kernel⟩).2.1 (by decide) ?_
  rintro d ⟨p, rfl, -⟩
  revert p
  decide +kernel

/-- Process 5 may have the children 3 and 2, or the child 23. -/
theorem get_children_confuses :
    (∀ pids ∈ [[3, 2], [23]], Forest (childrenTable pids) ∧ (5 :: pids).Nodup ∧
      (∀ pid ∈ pids, 0 < pid) ∧ sysGetChildren (childrenTable pids) 9 5 = some 23) ∧
    3 ∈ descendants (childrenTable [3, 2]) 5 ∧ 3 ∉ descendants (childrenTable [23]) 5 := by
  refine ⟨fun pids hpids => ⟨childrenTable_forest pids, ?_⟩, ⟨1, rfl, 0, rfl, .single rfl⟩, ?_⟩
  · obtain rfl | rfl : pids = [3, 2] ∨ pids = [23] := by simpa using hpids
    all_goals exact ⟨by decide, by simp, by decide +kernel⟩
  · rintro ⟨p, r, hp, -⟩
    revert p
    decide +kernel

end Xv6.Process
