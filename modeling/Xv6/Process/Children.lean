import Mathlib.Data.List.Induction
import Mathlib.Data.Nat.Digits.Defs
import Xv6.Process.Table

/-!
# `get_children`

The call explores the processes below one of them. What is still to be explored is in
one `int`, whose decimal digits are taken for pids, and the children of a process are
concatenated into one `int` as well.

## Implementation notes

A process without a parent is nobody's child; the code reads `p->parent->pid` for it
nevertheless. The arithmetic is that of the machine. The loop over the digits of an
`int` has at most ten turns. The other loop need not end, so that the call has a result
only for enough fuel.
-/

namespace Xv6.Process
open Int32

/-! ### The code -/

/-- `pow` of `proc.c` -/
def pow (a n : Int32) : Int32 := if n = 0 then 1 else (· * a)^[(n.toInt - 1).toNat] a

/-- `pow2` of `sysproc.c`, which has the same body -/
def pow2 (a n : Int32) : Int32 := pow a n

/-- The variables of `get_children_of`. -/
structure Concat where
  concatChildren : Int32 := 0
  numOfChildren : Int32 := 0
  hasZero : Bool := false
  deriving DecidableEq, Repr

/-- One child. -/
def Concat.add (x : Concat) (pid : Int32) : Concat where
  concatChildren := x.concatChildren + pid * pow 10 x.numOfChildren
  numOfChildren := x.numOfChildren + 1
  hasZero := x.hasZero || decide (pid = 0)

/-- `p->parent->pid == pid` -/
def IsChildOf (t : PTable) (pid : Int32) (p : Fin NPROC) : Prop :=
  ∃ q, (t.proc p).parent = some q ∧ (t.proc q).pid = pid

instance (t : PTable) (pid : Int32) (p : Fin NPROC) : Decidable (IsChildOf t pid p) :=
  match h : (t.proc p).parent with
  | none => isFalse fun ⟨_, hq, _⟩ => by rw [h] at hq; cases hq
  | some q => decidable_of_iff ((t.proc q).pid = pid) (by simp [IsChildOf, h])

def getChildrenOf (t : PTable) (pid : Int32) : Int32 :=
  let x := slots.foldl (fun x p => if IsChildOf t pid p then x.add (t.proc p).pid else x)
    ({} : Concat)
  if x.concatChildren = 0 ∧ x.hasZero = false then -1 else x.concatChildren

/-- `new_child_id` in each turn of `while (temp_children > 0)`, for at most `n` turns -/
def digitsUpto : ℕ → Int32 → List Int32
  | 0, _ => []
  | n + 1, x => if 0 < x then x % 10 :: digitsUpto n (x / 10) else []

/-- An `int` has at most ten digits. -/
def digits (x : Int32) : List Int32 := digitsUpto 10 x

/-- The variables of `sys_get_children`. -/
structure Exploring where
  exploringQueue : Int32
  grandchildren : Int32 := 0
  grandCounter : Int32 := 0
  deriving DecidableEq, Repr

/-- One digit of `children`. -/
def Exploring.push (x : Exploring) (newChildId : Int32) : Exploring where
  exploringQueue := x.exploringQueue * 10 + newChildId
  grandchildren := x.grandchildren + newChildId * pow2 10 x.grandCounter
  grandCounter := x.grandCounter + 1

/-- One turn of the loop. -/
def Exploring.turn (t : PTable) (x : Exploring) : Exploring :=
  let children := getChildrenOf t (x.exploringQueue % 10)
  (digits children).foldl push { x with exploringQueue := x.exploringQueue / 10 }

/-- `while (exploring_queue > 0 || pid == 0)`; `zero` is `pid == 0`, which the first turn ends. -/
def explore (t : PTable) : ℕ → Bool → Exploring → Option Exploring
  | 0, _, _ => none
  | n + 1, zero, x =>
    if 0 < x.exploringQueue ∨ zero = true then explore t n false (x.turn t) else some x

def sysGetChildren (t : PTable) (fuel : ℕ) (pid : Int32) : Option Int32 :=
  (explore t fuel (pid = 0) ⟨pid, 0, 0⟩).map fun x =>
    if x.grandchildren = 0 then -1 else x.grandchildren

/-! ### When the loop ends -/

/-- The call returns. -/
def Ends (t : PTable) (pid : Int32) : Prop := ∃ fuel, (sysGetChildren t fuel pid).isSome

variable {t : PTable}

section
variable {m : ℕ}

lemma ofNat_pos_iff (hm : m < 2 ^ 31) : 0 < ofNat m ↔ 0 < m := by
  rw [lt_iff_toInt_lt, toInt_ofNat_of_lt hm]
  change (0 : ℤ) < m ↔ 0 < m
  omega

lemma ofNat_mod_ten (hm : m < 2 ^ 31) : ofNat m % 10 = ofNat (m % 10) := by
  rw [← toInt_inj, toInt_mod, toInt_ofNat_of_lt hm, toInt_ofNat_of_lt (by omega)]
  exact (Int.ofNat_tmod m 10).symm

lemma ofNat_div_ten (hm : m < 2 ^ 31) : ofNat m / 10 = ofNat (m / 10) := by
  rw [← toInt_inj, toInt_div, toInt_ofNat_of_lt hm, toInt_ofNat_of_lt (by omega)]
  change ((m : ℤ).tdiv 10).bmod (2 ^ 32) = _
  rw [show (m : ℤ).tdiv 10 = ((m / 10 : ℕ) : ℤ) from (Int.ofNat_tdiv m 10).symm]
  exact Int.bmod_eq_of_le (by omega) (by omega)

lemma digitsUpto_ofNat {n : ℕ} (hn : m < 10 ^ n) (hm : m < 2 ^ 31) :
    digitsUpto n (ofNat m) = (Nat.digits 10 m).map ofNat := by
  induction n generalizing m with
  | zero =>
    obtain rfl : m = 0 := by omega
    rfl
  | succ n ih =>
    rw [digitsUpto]
    by_cases hpos : 0 < m
    · rw [if_pos ((ofNat_pos_iff hm).mpr hpos), Nat.digits_def' (by decide) hpos, List.map_cons,
        ofNat_mod_ten hm, ofNat_div_ten hm, ih (by omega) (by omega)]
    · obtain rfl : m = 0 := by omega
      rfl

lemma digits_ofNat (hm : m < 2 ^ 31) : digits (ofNat m) = (Nat.digits 10 m).map ofNat :=
  digitsUpto_ofNat (by omega) hm

end

lemma pow_ofNat {n : ℕ} (hn : n < 2 ^ 31) : pow 10 (ofNat n) = ofNat (10 ^ n) := by
  have hloop : ∀ k, (· * (10 : Int32))^[k] 10 = ofNat (10 ^ (k + 1)) := by
    intro k
    induction k with
    | zero => rfl
    | succ k ih =>
      rw [Function.iterate_succ_apply', ih, Nat.pow_succ 10 (k + 1), ofNat_mul]
      rfl
  have hzero : ofNat n = 0 ↔ n = 0 := by
    rw [← toInt_inj, toInt_ofNat_of_lt hn]
    exact Int.natCast_eq_zero
  unfold pow
  rcases n with _ | n
  · rfl
  rw [if_neg (fun h => nomatch hzero.mp h), hloop, toInt_ofNat_of_lt hn]
  congr 2
  omega

/-- Children with pids of one digit are concatenated, the first one as the lowest digit. -/
lemma foldl_add (ds : List ℕ) (hlen : ds.length < 2 ^ 31) :
    (ds.map Int32.ofNat).foldl Concat.add {} =
      ⟨Int32.ofNat (Nat.ofDigits 10 ds), Int32.ofNat ds.length,
        (ds.map Int32.ofNat).any (decide <| · = 0)⟩ := by
  induction ds using List.reverseRecOn with
  | nil => rfl
  | append_singleton ds d ih =>
    rw [List.length_append, List.length_singleton] at hlen
    rw [List.map_append, List.foldl_append, ih (by omega), List.map_singleton, List.foldl_cons,
      List.foldl_nil, Concat.add, pow_ofNat (by omega), List.length_append,
      List.length_singleton, Int32.ofNat_add ds.length, Nat.ofDigits_append, Int32.ofNat_add,
      List.any_append, Nat.ofDigits_singleton, Int32.ofNat_mul, Int32.mul_comm]
    simp

end Xv6.Process
