import Mathlib.Data.Multiset.UnionInter

/-!
# Owned cells and a free list

A memory is a function from keys to values. Of a fixed stock of keys, some are on
a free list that runs through the values themselves, and the others are owned:
code has a multiset of cells, and for each cell it may know the value. As no key
occurs twice, a write to one cell touches neither the list nor another cell. The
rules below are those of an allocator: take a cell from the list, give it back,
read and write it.
-/

namespace Xv6.Lib
open Function Multiset

variable {κ β : Type}

/-- A cell that is owned, with its value if that is known. -/
structure Cell (κ β : Type) where
  key : κ
  val : Option β

/-- The memory has what is known of the cell. -/
def Cell.Holds (m : κ → β) (c : Cell κ β) : Prop := ∀ b, c.val = some b → m c.key = b

/-- The list that starts at a pointer and goes on as the values say. -/
def Chain (next : β → Option κ) (m : κ → β) : Option κ → List κ → Prop
  | p, [] => p = none
  | p, k :: l => p = some k ∧ Chain next m (next (m k)) l

/-- The key that one comes to from a pointer by a number of steps along the values. -/
def walk (next : β → Option κ) (m : κ → β) : Option κ → ℕ → Option κ
  | p, 0 => p
  | none, _ + 1 => none
  | some k, n + 1 => walk next m (next (m k)) n

/-- The keys of `stock` are on the free list or owned. -/
structure Owned (next : β → Option κ) (stock : Multiset κ) (m : κ → β) (head : Option κ)
    (cs : Multiset (Cell κ β)) : Prop where
  nodup : stock.Nodup
  split : ∃ l : List κ, Chain next m head l ∧ (l : Multiset κ) + cs.map Cell.key = stock
  holds : ∀ c ∈ cs, c.Holds m

section
variable {next : β → Option κ} {stock : Multiset κ} {m m' : κ → β} {head : Option κ}
  {cs : Multiset (Cell κ β)} {k : κ} {b : β} {v : Option β} {l : List κ}

lemma Chain.congr (h : Chain next m head l) (hm : ∀ k ∈ l, m' k = m k) :
    Chain next m' head l := by
  induction l generalizing head with
  | nil => exact h
  | cons k l ih =>
    refine ⟨h.1, ?_⟩
    rw [hm k List.mem_cons_self]
    exact ih h.2 fun k' hk' => hm k' (List.mem_cons_of_mem k hk')

lemma Chain.getElem?_eq (h : Chain next m head l) (n : ℕ) : l[n]? = walk next m head n := by
  induction l generalizing head n with
  | nil =>
    obtain rfl : head = none := h
    cases n with
    | zero => rfl
    | succ n => rfl
  | cons k l ih =>
    obtain ⟨rfl, hchain⟩ := h
    cases n with
    | zero => rfl
    | succ n => exact ih hchain n

namespace Owned

lemma keys_le (h : Owned next stock m head cs) : cs.map Cell.key ≤ stock := by
  obtain ⟨-, ⟨l, -, hl⟩, -⟩ := h
  rw [← hl]
  exact Multiset.le_add_left ..

lemma read (h : Owned next stock m head (⟨k, some b⟩ ::ₘ cs)) : m k = b :=
  h.holds ⟨k, some b⟩ (mem_cons_self ..) b rfl

section
variable (h : Owned next stock m head (⟨k, v⟩ ::ₘ cs))
include h

/-- The key of an owned cell is in the stock, not on the list, and no other cell has it. -/
lemma alone :
    k ∈ stock ∧ (∀ l : List κ, (l : Multiset κ) + (⟨k, v⟩ ::ₘ cs).map Cell.key = stock → k ∉ l) ∧
      ∀ c ∈ cs, c.key ≠ k := by
  obtain ⟨hnodup, ⟨l, -, hl⟩, -⟩ := h
  have hmem : ∀ l : List κ, (l : Multiset κ) + (⟨k, v⟩ ::ₘ cs).map Cell.key = stock →
      k ∉ (l : Multiset κ) + cs.map Cell.key := by
    intro l hl
    rw [← hl, map_cons, add_cons] at hnodup
    exact (nodup_cons.mp hnodup).1
  refine ⟨?_, fun l hl hk => ?_, fun c hc hck => ?_⟩
  · rw [← hl]
    simp
  · exact hmem l hl (mem_add.mpr (.inl (mem_coe.mpr hk)))
  · refine hmem l hl (mem_add.mpr (.inr ?_))
    exact hck ▸ mem_map_of_mem Cell.key hc

lemma mem : k ∈ stock := h.alone.1

lemma forget : Owned next stock m head (⟨k, none⟩ ::ₘ cs) := by
  refine ⟨h.nodup, ?_, fun c hc => ?_⟩
  · simpa using h.split
  rcases mem_cons.mp hc with rfl | hc
  · intro b hb
    cases hb
  · exact h.holds c (mem_cons_of_mem hc)

end

lemma pop (h : Owned next stock m (some k) cs) :
    Owned next stock m (next (m k)) (⟨k, none⟩ ::ₘ cs) := by
  obtain ⟨hnodup, ⟨l, hchain, hl⟩, hholds⟩ := h
  rcases l with _ | ⟨k', l⟩
  · cases hchain
  obtain ⟨hk, hchain⟩ := hchain
  cases hk
  refine ⟨hnodup, ⟨l, hchain, ?_⟩, fun c hc => ?_⟩
  · rw [← hl, map_cons, add_cons, ← cons_coe, cons_add]
  rcases mem_cons.mp hc with rfl | hc
  · intro b hb
    cases hb
  · exact hholds c hc

lemma card_of_empty (h : Owned next stock m none cs) :
    Multiset.card cs = Multiset.card stock := by
  obtain ⟨-, ⟨l, hchain, hl⟩, -⟩ := h
  cases l with
  | nil =>
    rw [← hl]
    simp
  | cons k l => cases hchain.1

variable [DecidableEq κ]

section
variable (h : Owned next stock m head (⟨k, v⟩ ::ₘ cs))
include h

lemma write (b : β) : Owned next stock (update m k b) head (⟨k, some b⟩ ::ₘ cs) := by
  obtain ⟨-, hlist, hother⟩ := h.alone
  obtain ⟨l, hchain, hl⟩ := h.split
  refine ⟨h.nodup, ⟨l, ?_, by simpa using hl⟩, fun c hc => ?_⟩
  · refine hchain.congr fun k' hk' => update_of_ne ?_ ..
    rintro rfl
    exact hlist l hl hk'
  rcases mem_cons.mp hc with rfl | hc
  · intro b' hb'
    obtain rfl := Option.some.inj hb'
    exact update_self ..
  intro b' hb'
  rw [update_of_ne (hother c hc)]
  exact h.holds c (mem_cons_of_mem hc) b' hb'

lemma push (hb : next b = head) : Owned next stock (update m k b) (some k) cs := by
  obtain ⟨hnodup, ⟨l, hchain, hl⟩, hholds⟩ := h.write b
  refine ⟨hnodup, ⟨k :: l, ⟨rfl, ?_⟩, ?_⟩, fun c hc => hholds c (mem_cons_of_mem hc)⟩
  · rw [update_self, hb]
    exact hchain
  · rw [← hl, map_cons, add_cons, ← cons_coe, cons_add]

end
end Owned

end
end Xv6.Lib
