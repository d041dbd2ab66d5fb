import Mathlib.Data.List.Nodup

/-!
# Circular doubly linked lists

The nodes of a list have a pointer to the next and one to the previous node. A
list starts and ends at a node of its own, its head. Insertion and removal are
the usual assignments to the pointers, and a loop along the pointers finds what
a search of the list finds.
-/

namespace Xv6.Lib
open Function List

variable {ν : Type}

/-- The pointers of all nodes. -/
structure Links (ν : Type) where
  next : ν → ν
  prev : ν → ν

namespace Links

/-- `a`, the nodes of the list and `z` are linked in this order, both ways. -/
def Path (k : Links ν) : ν → List ν → ν → Prop
  | a, [], z => k.next a = z ∧ k.prev z = a
  | a, b :: l, z => k.next a = b ∧ k.prev b = a ∧ k.Path b l z

/-- The list around `head`. -/
structure Circle (k : Links ν) (head : ν) (l : List ν) : Prop where
  path : k.Path head l head
  nodup : (head :: l).Nodup

variable {k k' : Links ν} {a b z : ν} {l l' : List ν}

/-- A path depends on the pointers of its own nodes only. -/
lemma Path.congr (h : k.Path a l z) (hnext : ∀ x ∈ a :: l, k'.next x = k.next x)
    (hprev : ∀ x ∈ l ++ [z], k'.prev x = k.prev x) : k'.Path a l z := by
  induction l generalizing a with
  | nil =>
    exact ⟨(hnext a mem_cons_self).trans h.1, (hprev z (by simp)).trans h.2⟩
  | cons b l ih =>
    refine ⟨(hnext a mem_cons_self).trans h.1, (hprev b (by simp)).trans h.2.1, ?_⟩
    exact ih h.2.2 (fun x hx => hnext x (mem_cons_of_mem a hx))
      (fun x hx => hprev x (mem_cons_of_mem b hx))

lemma path_append_iff : k.Path a (l ++ b :: l') z ↔ k.Path a l b ∧ k.Path b l' z := by
  induction l generalizing a with
  | nil =>
    constructor
    · rintro ⟨hn, hp, h⟩
      exact ⟨⟨hn, hp⟩, h⟩
    · rintro ⟨⟨hn, hp⟩, h⟩
      exact ⟨hn, hp, h⟩
  | cons c l ih =>
    constructor
    · rintro ⟨hn, hp, h⟩
      obtain ⟨h₁, h₂⟩ := ih.mp h
      exact ⟨⟨hn, hp, h₁⟩, h₂⟩
    · rintro ⟨⟨hn, hp, h₁⟩, h₂⟩
      exact ⟨hn, hp, ih.mpr ⟨h₁, h₂⟩⟩

lemma Path.next_mem (h : k.Path a l z) : k.next a ∈ l ++ [z] := by
  cases l with
  | nil => simp [h.1]
  | cons b l => simp [h.1]

lemma Path.prev_mem (h : k.Path a l z) : k.prev z ∈ a :: l := by
  induction l generalizing a with
  | nil => simp [h.2]
  | cons b l ih => exact mem_cons_of_mem a (ih h.2.2)

/-- The pointers with their directions exchanged. -/
@[simps]
def swap (k : Links ν) : Links ν := ⟨k.prev, k.next⟩

lemma Path.swap (h : k.Path a l z) : k.swap.Path z l.reverse a := by
  induction l generalizing a with
  | nil => exact ⟨h.2, h.1⟩
  | cons b l ih =>
    rw [reverse_cons, path_append_iff]
    exact ⟨ih h.2.2, h.2.1, h.1⟩

variable {head : ν}

lemma Circle.swap (h : k.Circle head l) : k.swap.Circle head l.reverse :=
  ⟨h.path.swap, by simpa [nodup_reverse] using h.nodup⟩

/-- A loop along the pointers, from `b` up to `head`. It gives up when it has looked at as many
nodes as it is allowed to. -/
def scan [DecidableEq ν] (step : ν → ν) (head : ν) (p : ν → Bool) : ℕ → ν → Option (Option ν)
  | 0, _ => none
  | n + 1, b =>
    if b = head then some none else if p b then some (some b) else scan step head p n (step b)

lemma Path.scan_eq [DecidableEq ν] (h : k.Path a l z) (hz : z ∉ l) (p : ν → Bool) {n : ℕ}
    (hn : l.length < n) : scan k.next z p n (k.next a) = some (l.find? p) := by
  induction l generalizing a n with
  | nil =>
    obtain ⟨m, rfl⟩ := Nat.exists_eq_succ_of_ne_zero (Nat.ne_of_gt hn)
    simp [scan, h.1]
  | cons b l ih =>
    obtain ⟨m, rfl⟩ := Nat.exists_eq_succ_of_ne_zero (Nat.ne_of_gt (Nat.zero_lt_of_lt hn))
    obtain ⟨hb, hl⟩ := not_or.mp (mt mem_cons.mpr hz)
    rw [h.1, scan, if_neg (Ne.symm hb), find?_cons]
    cases p b with
    | true => rfl
    | false => exact ih h.2.2 hl (Nat.lt_of_succ_lt_succ hn)

variable [DecidableEq ν]

def setNext (k : Links ν) (a b : ν) : Links ν := { k with next := update k.next a b }

def setPrev (k : Links ν) (a b : ν) : Links ν := { k with prev := update k.prev a b }

/-- Put `b` behind the head. -/
def insertFront (k : Links ν) (head b : ν) : Links ν :=
  let k := k.setNext b (k.next head)
  let k := k.setPrev b head
  let k := k.setPrev (k.next head) b
  k.setNext head b

/-- Take `b` out. -/
def unlink (k : Links ν) (b : ν) : Links ν :=
  let k := k.setPrev (k.next b) (k.prev b)
  k.setNext (k.prev b) (k.next b)

lemma insertFront_next (k : Links ν) (head b : ν) : (k.insertFront head b).next =
    update (update k.next b (k.next head)) head b := rfl

lemma insertFront_prev (k : Links ν) (hb : b ≠ head) :
    (k.insertFront head b).prev = update (update k.prev b head) (k.next head) b := by
  have hnext : update k.next b (k.next head) head = k.next head := update_of_ne (Ne.symm hb) ..
  change update (update k.prev b head) (update k.next b (k.next head) head) b = _
  rw [hnext]

lemma Circle.insertFront (h : k.Circle head l) (hb : b ∉ head :: l) :
    (k.insertFront head b).Circle head (b :: l) := by
  obtain ⟨hpath, hnodup⟩ := h
  obtain ⟨hbh, hbl⟩ := not_or.mp (mt mem_cons.mpr hb)
  obtain ⟨hhl, hl⟩ := nodup_cons.mp hnodup
  refine ⟨?_, ?_⟩
  · -- the node that was behind the head
    have hy : k.next head ≠ b := by
      rintro rfl
      have hmem := hpath.next_mem
      simp [hbl, hbh] at hmem
    refine ⟨?_, ?_, ?_⟩
    · rw [insertFront_next, update_self]
    · rw [insertFront_prev k hbh, update_of_ne (Ne.symm hy), update_self]
    rcases l with _ | ⟨c, l⟩
    · obtain ⟨hn, -⟩ := hpath
      constructor
      · rw [insertFront_next, update_of_ne hbh, update_self, hn]
      · rw [insertFront_prev k hbh, hn, update_self]
    obtain ⟨hn, -, hrest⟩ := hpath
    obtain ⟨hbc, hbl⟩ := not_or.mp (mt mem_cons.mpr hbl)
    obtain ⟨hhc, hhl⟩ := not_or.mp (mt mem_cons.mpr hhl)
    obtain ⟨hcl, -⟩ := nodup_cons.mp hl
    refine ⟨?_, ?_, hrest.congr (fun x hx => ?_) fun x hx => ?_⟩
    · rw [insertFront_next, update_of_ne hbh, update_self, hn]
    · rw [insertFront_prev k hbh, hn, update_self]
    · have hxb : x ≠ b := by
        rintro rfl
        simp [hbc, hbl] at hx
      have hxh : x ≠ head := by
        rintro rfl
        simp [hhc, hhl] at hx
      rw [insertFront_next, update_of_ne hxh, update_of_ne hxb]
    have hxb : x ≠ b := by
      rintro rfl
      simp [hbh, hbl] at hx
    have hxc : x ≠ c := by
      rintro rfl
      simp [Ne.symm hhc, hcl] at hx
    rw [insertFront_prev k hbh, hn, update_of_ne hxc, update_of_ne hxb]
  · refine nodup_cons.mpr ⟨?_, nodup_cons.mpr ⟨hbl, hl⟩⟩
    simp [Ne.symm hbh, hhl]

lemma Circle.insertAll (h : k.Circle head l) {bs : List ν} (hbs : bs.Nodup)
    (hout : ∀ b ∈ bs, b ∉ head :: l) :
    (bs.foldl (fun k b => k.insertFront head b) k).Circle head (bs.reverse ++ l) := by
  induction bs generalizing k l with
  | nil => exact h
  | cons b bs ih =>
    obtain ⟨hb, hbs⟩ := nodup_cons.mp hbs
    rw [foldl_cons, reverse_cons, append_assoc, singleton_append]
    refine ih (h.insertFront (hout b mem_cons_self)) hbs fun c hc => ?_
    have hcb : c ≠ b := by
      rintro rfl
      exact hb hc
    have hcl := hout c (mem_cons_of_mem b hc)
    simp only [mem_cons, not_or] at hcl ⊢
    exact ⟨hcl.1, hcb, hcl.2⟩

lemma unlink_next (k : Links ν) (hb : k.next b ≠ b) :
    (k.unlink b).next = update k.next (k.prev b) (k.next b) := by
  have hprev : update k.prev (k.next b) (k.prev b) b = k.prev b := update_of_ne (Ne.symm hb) ..
  change update k.next (update k.prev (k.next b) (k.prev b) b) (k.next b) = _
  rw [hprev]

lemma unlink_prev (k : Links ν) (b : ν) :
    (k.unlink b).prev = update k.prev (k.next b) (k.prev b) := rfl

lemma Path.unlink (h : k.Path a (l ++ b :: l') z) (ha : (a :: (l ++ b :: l')).Nodup)
    (hz : z ∉ l ++ b :: l') : (k.unlink b).Path a (l ++ l') z := by
  induction l generalizing a with
  | nil =>
    obtain ⟨hn, hp, hrest⟩ := h
    obtain ⟨hab, hbl⟩ := nodup_cons.mp ha
    obtain ⟨hbl, hl⟩ := nodup_cons.mp hbl
    have hb : k.next b ≠ b := by
      intro heq
      have hmem := hrest.next_mem
      rw [heq] at hmem
      obtain hmem | hmem := mem_append.mp hmem
      · exact hbl hmem
      · exact hz (mem_singleton.mp hmem ▸ mem_cons_self)
    rcases l' with _ | ⟨c, l'⟩
    · constructor
      · rw [unlink_next k hb, hp, update_self, hrest.1]
      · rw [unlink_prev, hrest.1, update_self, hp]
    obtain ⟨hn', -, hrest⟩ := hrest
    refine ⟨?_, ?_, hrest.congr (fun x hx => ?_) fun x hx => ?_⟩
    · rw [unlink_next k hb, hp, update_self, hn']
    · rw [unlink_prev, hn', update_self, hp]
    · have hxa : x ≠ a := by
        rintro rfl
        exact hab (mem_cons_of_mem b hx)
      rw [unlink_next k hb, hp, update_of_ne hxa]
    have hxc : x ≠ c := by
      rintro rfl
      obtain hx | hx := mem_append.mp hx
      · exact (nodup_cons.mp hl).1 hx
      · exact hz (by simp [mem_singleton.mp hx])
    rw [unlink_prev, hn', update_of_ne hxc]
  | cons d l ih =>
    obtain ⟨hn, hp, hrest⟩ := h
    obtain ⟨hada, hd⟩ := nodup_cons.mp ha
    obtain ⟨hbefore, hafter⟩ := path_append_iff.mp hrest
    have hdb : d ∉ l ++ b :: l' := (nodup_cons.mp hd).1
    have hzd : z ≠ d ∧ z ∉ l ++ b :: l' := not_or.mp (mt mem_cons.mpr hz)
    -- the pointers of `a` and `d` are not the ones that change
    have hnext : k.next b ≠ d ∧ k.next b ≠ b := by
      have hmem := hafter.next_mem
      have hbl : b ∉ l' := by
        have := (nodup_append.mp (nodup_cons.mp hd).2).2.1
        exact (nodup_cons.mp this).1
      constructor
      · intro heq
        rw [heq] at hmem
        simp only [mem_append, mem_cons, not_mem_nil, or_false, not_or] at hmem hdb
        exact hmem.elim hdb.2.2 (Ne.symm hzd.1)
      intro heq
      rw [heq] at hmem
      simp only [mem_append, mem_cons, not_mem_nil, or_false, not_or] at hmem hzd
      exact hmem.elim hbl (Ne.symm hzd.2.2.1)
    have hprev : a ≠ k.prev b := by
      intro heq
      have hmem := hbefore.prev_mem
      rw [← heq] at hmem
      exact hada (mem_append_left (b :: l') hmem)
    refine ⟨?_, ?_, ih hrest hd hzd.2⟩
    · rw [unlink_next k hnext.2, update_of_ne hprev, hn]
    · rw [unlink_prev, update_of_ne (Ne.symm hnext.1), hp]

lemma Circle.unlink (h : k.Circle head (l ++ b :: l')) : (k.unlink b).Circle head (l ++ l') := by
  obtain ⟨hpath, hnodup⟩ := h
  refine ⟨hpath.unlink hnodup (nodup_cons.mp hnodup).1, hnodup.sublist ?_⟩
  exact List.Sublist.cons_cons _ (List.Sublist.append_left (sublist_cons_self b l') l)

end Links
end Xv6.Lib
