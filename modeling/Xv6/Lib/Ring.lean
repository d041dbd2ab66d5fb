import Mathlib.Data.Nat.ModEq

/-!
# Ring buffers with wrapping counters

A ring buffer has `N` cells and two counters that only go up: how many values
have been taken out and how many have been put in. The counters wrap at `M`, a
multiple of `N`, and their remainders modulo `N` are the positions in the ring.
Values may also be put into the middle of the queue or taken from there; the values
behind that place then move by one cell.
-/

namespace Xv6.Lib
open Function List

variable {α : Type} {N M : ℕ} [NeZero N]

/-- The ring holds the queue `q`, whose first value is at `head`. -/
structure RingHolds (M : ℕ) (data : Fin N → α) (head tail : ℕ) (q : List α) : Prop where
  head_lt : head < M
  length_le : q.length ≤ N
  tail_eq : tail = (head + q.length) % M
  cell : ∀ i (h : i < q.length), data (Fin.ofNat N ((head + i) % M)) = q[i]

/-- `for (i = n; i > 0; i--) data[(a + i) % N] = data[(a + i - 1) % N]` -/
def shiftUp (M a : ℕ) : ℕ → (Fin N → α) → Fin N → α
  | 0, data => data
  | n + 1, data =>
    shiftUp M a n (update data (Fin.ofNat N ((a + n + 1) % M)) (data (Fin.ofNat N ((a + n) % M))))

/-- `for (i = 0; i < n; i++) data[(a + i) % N] = data[(a + i + 1) % N]` -/
def shiftDown (M a : ℕ) : ℕ → (Fin N → α) → Fin N → α
  | 0, data => data
  | n + 1, data =>
    let data' := shiftDown M a n data
    update data' (Fin.ofNat N ((a + n) % M)) (data' (Fin.ofNat N ((a + n + 1) % M)))

lemma shiftUp_mod (a n : ℕ) (data : Fin N → α) :
    shiftUp M (a % M) n data = shiftUp M a n data := by
  induction n generalizing data with
  | zero => rfl
  | succ n ih =>
    rw [shiftUp, shiftUp, ih, Nat.add_assoc (a % M), Nat.mod_add_mod, Nat.mod_add_mod,
      Nat.add_assoc]

lemma shiftDown_mod (a n : ℕ) (data : Fin N → α) :
    shiftDown M (a % M) n data = shiftDown M a n data := by
  induction n with
  | zero => rfl
  | succ n ih =>
    rw [shiftDown, shiftDown, ih, Nat.add_assoc (a % M), Nat.mod_add_mod, Nat.mod_add_mod,
      Nat.add_assoc]

namespace RingHolds

variable {data : Fin N → α} {head tail : ℕ} {q : List α}

lemma nil (h : head < M) : RingHolds M data head head [] where
  head_lt := h
  length_le := Nat.zero_le N
  tail_eq := (Nat.mod_eq_of_lt h).symm
  cell i hi := absurd hi (Nat.not_lt_zero i)

section
variable (h : RingHolds M data head tail q) (hNM : N < M)
include h hNM

lemma tail_eq_iff {i : ℕ} (hi : i ≤ N) : tail = (head + i) % M ↔ q.length = i := by
  have hlen := h.length_le
  rw [h.tail_eq]
  constructor
  · intro heq
    have hmod : q.length ≡ i [MOD M] := Nat.ModEq.add_left_cancel' head heq
    exact hmod.eq_of_lt_of_lt (by omega) (by omega)
  · rintro rfl
    rfl

lemma full_iff : tail = (head + N) % M ↔ q.length = N := h.tail_eq_iff hNM le_rfl

lemma empty_iff : head = tail ↔ q = [] := by
  have hzero := h.tail_eq_iff hNM (Nat.zero_le N)
  rw [Nat.add_zero, Nat.mod_eq_of_lt h.head_lt] at hzero
  rw [eq_comm, hzero, length_eq_zero_iff]

lemma distance : (tail + (M - head)) % M = q.length := by
  have hhead := h.head_lt
  have hlen := h.length_le
  calc (tail + (M - head)) % M
      = (head + q.length + (M - head)) % M := by rw [h.tail_eq, Nat.mod_add_mod]
    _ = (q.length + M) % M := by congr 1; omega
    _ = q.length := by rw [Nat.add_mod_right, Nat.mod_eq_of_lt (by omega)]

end

variable {i j a n : ℕ} {l r : List α}

lemma ofNat_mod_ne (hdvd : N ∣ M) (hij : i < j) (hj : j < N) :
    Fin.ofNat N ((head + i) % M) ≠ Fin.ofNat N ((head + j) % M) := by
  intro heq
  have hval : (head + i) % M % N = (head + j) % M % N := congrArg Fin.val heq
  rw [Nat.mod_mod_of_dvd _ hdvd, Nat.mod_mod_of_dvd _ hdvd] at hval
  have hmod : i ≡ j [MOD N] := Nat.ModEq.add_left_cancel' head hval
  have := hmod.eq_of_lt_of_lt (by omega) hj
  omega

lemma push (h : RingHolds M data head tail q) (hdvd : N ∣ M) (hroom : q.length < N) (b : α) :
    RingHolds M (update data (Fin.ofNat N tail) b) head ((tail + 1) % M) (q ++ [b]) where
  head_lt := h.head_lt
  length_le := by
    rw [length_append]
    exact hroom
  tail_eq := by
    rw [h.tail_eq, Nat.mod_add_mod, length_append]
    rfl
  cell i hi := by
    rw [length_append, length_singleton] at hi
    rw [h.tail_eq]
    obtain hlt | rfl : i < q.length ∨ i = q.length := by omega
    · rw [update_of_ne (ofNat_mod_ne hdvd hlt hroom), h.cell i hlt, getElem_append_left hlt]
    · simp

lemma pop {b : α} (h : RingHolds M data head tail (b :: q)) :
    data (Fin.ofNat N head) = b ∧ RingHolds M data ((head + 1) % M) tail q := by
  have hM : 0 < M := Nat.zero_lt_of_lt h.head_lt
  constructor
  · have hcell := h.cell 0 (Nat.zero_lt_succ _)
    rwa [Nat.add_zero, Nat.mod_eq_of_lt h.head_lt] at hcell
  constructor
  · exact Nat.mod_lt _ hM
  · exact Nat.le_of_succ_le h.length_le
  · rw [h.tail_eq, Nat.mod_add_mod, length_cons]
    congr 1
    omega
  intro i hi
  have hcell := h.cell (i + 1) (Nat.succ_lt_succ hi)
  rw [Nat.mod_add_mod]
  rwa [show head + 1 + i = head + (i + 1) by omega]

/-! ### Changes in the middle -/

lemma ofNat_mod_inj (hdvd : N ∣ M) (hi : i < N) (hj : j < N) :
    Fin.ofNat N ((head + i) % M) = Fin.ofNat N ((head + j) % M) ↔ i = j := by
  constructor
  · intro heq
    rcases Nat.lt_trichotomy i j with hij | hij | hij
    · exact absurd heq (ofNat_mod_ne hdvd hij hj)
    · exact hij
    · exact absurd heq.symm (ofNat_mod_ne hdvd hij hi)
  · rintro rfl
    rfl

lemma shiftUp_apply (hdvd : N ∣ M) (hn : a + n < N) (hi : i < N) :
    shiftUp M (head + a) n data (Fin.ofNat N ((head + i) % M)) =
      if a < i ∧ i ≤ a + n then data (Fin.ofNat N ((head + (i - 1)) % M))
      else data (Fin.ofNat N ((head + i) % M)) := by
  induction n generalizing data with
  | zero => rw [shiftUp, if_neg (by omega)]
  | succ n ih =>
    have hn' : a + n + 1 < N := hn
    rw [shiftUp, ih (by omega), Nat.add_assoc head a n, Nat.add_assoc head (a + n) 1]
    simp only [update_apply, ofNat_mod_inj hdvd hi hn',
      ofNat_mod_inj hdvd (show i - 1 < N by omega) hn']
    -- the last value has moved, and the others move next
    by_cases hlast : i = a + n + 1
    · subst hlast
      rw [if_neg (by omega), if_pos rfl, if_pos (by omega), Nat.add_sub_cancel]
    by_cases hin : a < i ∧ i ≤ a + n
    · rw [if_pos hin, if_neg (by omega), if_pos (by omega)]
    · rw [if_neg hin, if_neg hlast, if_neg (by omega)]

lemma shiftDown_apply (hdvd : N ∣ M) (hn : a + n < N) (hi : i < N) :
    shiftDown M (head + a) n data (Fin.ofNat N ((head + i) % M)) =
      if a ≤ i ∧ i < a + n then data (Fin.ofNat N ((head + (i + 1)) % M))
      else data (Fin.ofNat N ((head + i) % M)) := by
  induction n generalizing i with
  | zero => rw [shiftDown, if_neg (by omega)]
  | succ n ih =>
    have hlast : shiftDown M (head + a) n data (Fin.ofNat N ((head + (a + n + 1)) % M)) =
        data (Fin.ofNat N ((head + (a + n + 1)) % M)) := by
      rw [ih (by omega) (show a + n + 1 < N by omega), if_neg (by omega)]
    rw [shiftDown, Nat.add_assoc head a n, Nat.add_assoc head (a + n) 1, hlast]
    simp only [update_apply, ofNat_mod_inj hdvd hi (show a + n < N by omega)]
    rw [ih (by omega) hi]
    by_cases heq : i = a + n
    · subst heq
      simp
    · rw [if_neg heq]
      exact if_congr (by omega) rfl rfl

lemma tail_mod (h : RingHolds M data head tail q) :
    RingHolds M data head ((head + q.length) % M) q :=
  ⟨h.head_lt, h.length_le, rfl, h.cell⟩

lemma take (h : RingHolds M data head tail (l ++ r)) :
    RingHolds M data head ((head + l.length) % M) l where
  head_lt := h.head_lt
  length_le := by
    have hlen := h.length_le
    rw [length_append] at hlen
    omega
  tail_eq := rfl
  cell i hi := by
    have hcell := h.cell i (by rw [length_append]; omega)
    rwa [getElem_append_left hi] at hcell

lemma write (h : RingHolds M data head tail q) (hdvd : N ∣ M) (hle : q.length ≤ i) (hi : i < N)
    (b : α) : RingHolds M (update data (Fin.ofNat N ((head + i) % M)) b) head tail q where
  head_lt := h.head_lt
  length_le := h.length_le
  tail_eq := h.tail_eq
  cell j hj := by
    rw [update_of_ne (ofNat_mod_ne hdvd (by omega) hi), h.cell j hj]

lemma insert (h : RingHolds M data head tail (l ++ r)) (hdvd : N ∣ M)
    (hroom : l.length + r.length < N) (b : α) :
    RingHolds M (update (shiftUp M (head + l.length) r.length data)
      (Fin.ofNat N ((head + l.length) % M)) b) head ((tail + 1) % M) (l ++ b :: r) where
  head_lt := h.head_lt
  length_le := by
    rw [length_append, length_cons]
    omega
  tail_eq := by
    rw [h.tail_eq, Nat.mod_add_mod, length_append, length_append, length_cons]
    rfl
  cell i hi := by
    have hcell := h.cell
    rw [length_append, length_cons] at hi
    simp only [length_append] at hcell
    simp only [update_apply, ofNat_mod_inj hdvd (show i < N by omega) (show l.length < N by omega)]
    rcases Nat.lt_trichotomy i l.length with hlt | rfl | hgt
    · rw [if_neg (by omega), shiftUp_apply hdvd hroom (by omega), if_neg (by omega),
        hcell i (by omega), getElem_append_left hlt, getElem_append_left hlt]
    · simp
    rw [if_neg (by omega), shiftUp_apply hdvd hroom (by omega), if_pos (by omega),
      hcell (i - 1) (by omega), getElem_append_right (by omega),
      getElem_append_right (by omega), getElem_cons, dif_neg (by omega)]
    congr 1
    omega

lemma erase {b : α} (h : RingHolds M data head tail (l ++ b :: r)) (hdvd : N ∣ M) :
    RingHolds M (shiftDown M (head + l.length) r.length data) head ((head + (l ++ r).length) % M)
      (l ++ r) where
  head_lt := h.head_lt
  length_le := by
    have hlen := h.length_le
    rw [length_append, length_cons] at hlen
    rw [length_append]
    omega
  tail_eq := rfl
  cell i hi := by
    have hlen := h.length_le
    have hcell := h.cell
    rw [length_append, length_cons] at hlen
    rw [length_append] at hi
    simp only [length_append, length_cons] at hcell
    rw [shiftDown_apply hdvd (by omega) (by omega)]
    by_cases hlt : i < l.length
    · rw [if_neg (by omega), hcell i (by omega), getElem_append_left hlt, getElem_append_left hlt]
    rw [if_pos (by omega), hcell (i + 1) (by omega), getElem_append_right (by omega),
      getElem_append_right (by omega), getElem_cons, dif_neg (by omega)]
    congr 1
    omega

end RingHolds
end Xv6.Lib
