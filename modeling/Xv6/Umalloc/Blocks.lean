import Mathlib.Algebra.BigOperators.Group.List.Basic
import Xv6.Umalloc.Model

/-!
# The blocks of the heap

`Holds` is what is true of the heap between two calls: the free blocks, in the
order of their addresses, form the circle through `base`, no two of them touch,
and together with the blocks in use they are what `sbrk` has returned, without
overlap.

## Implementation notes

The blocks in use are a list whose order does not matter (`Holds.perm`). A block
that `free` is about to insert counts as one in use.
-/

namespace Xv6.Umalloc
open Xv6.Lib List

/-! ## Headers -/

section
variable (m : ℕ → UInt8) {p q : ℕ} (v : ℕ)

lemma ptr_lt : ptr m p < 2 ^ 32 := word_lt m

lemma ptr_setPtr (h : v < 2 ^ 32) : ptr (setPtr m p v) p = v := by
  rw [ptr, setPtr, word_setWord, Nat.mod_eq_of_lt h]

lemma size_setSize (h : v < 2 ^ 32) : size (setSize m p v) p = v := by
  rw [size, setSize, word_setWord, Nat.mod_eq_of_lt h]

@[simp]
lemma size_setPtr_self : size (setPtr m p v) p = size m p :=
  word_setWord_of_apart m v (.inl le_rfl)

@[simp]
lemma ptr_setSize_self : ptr (setSize m p v) p = ptr m p :=
  word_setWord_of_apart m v (.inr le_rfl)

/-- Two headers do not overlap. -/
def HeadersApart (p q : ℕ) : Prop := p + HEADER ≤ q ∨ q + HEADER ≤ p

section
variable (h : HeadersApart p q)
include h

lemma HeadersApart.symm : HeadersApart q p := Or.symm h

lemma ptr_setPtr_of_apart : ptr (setPtr m p v) q = ptr m q :=
  word_setWord_of_apart m v (by unfold HeadersApart HEADER at h; omega)

lemma size_setPtr_of_apart : size (setPtr m p v) q = size m q :=
  word_setWord_of_apart m v (by unfold HeadersApart HEADER at h; omega)

lemma ptr_setSize_of_apart : ptr (setSize m p v) q = ptr m q :=
  word_setWord_of_apart m v (by unfold HeadersApart HEADER at h; omega)

lemma size_setSize_of_apart : size (setSize m p v) q = size m q :=
  word_setWord_of_apart m v (by unfold HeadersApart HEADER at h; omega)

end
end

/-! ## Stretches of memory -/

/-- The bytes of a block. -/
def Block.Has (b : Block) (a : ℕ) : Prop := b.addr ≤ a ∧ a < b.fin

/-- Two blocks do not overlap. -/
def Apart (b c : Block) : Prop := b.fin ≤ c.addr ∨ c.fin ≤ b.addr

lemma Apart.symm {b c : Block} (h : Apart b c) : Apart c b := Or.symm h

instance : Std.Symm Apart := ⟨fun _ _ h => h.symm⟩

/-- The units of some blocks. -/
def total (l : List Block) : ℕ := (l.map Block.size).sum

@[simp]
lemma total_nil : total [] = 0 := rfl

@[simp]
lemma total_cons (b : Block) (l : List Block) : total (b :: l) = b.size + total l := by
  simp [total]

@[simp]
lemma total_append (l l' : List Block) : total (l ++ l') = total l + total l' := by
  simp [total]

/-- Some block of the list has the byte. -/
def Covers (l : List Block) (a : ℕ) : Prop := ∃ b ∈ l, b.Has a

@[simp]
lemma covers_nil (a : ℕ) : ¬ Covers [] a := by simp [Covers]

@[simp]
lemma covers_cons (b : Block) (l : List Block) (a : ℕ) :
    Covers (b :: l) a ↔ b.Has a ∨ Covers l a := by simp [Covers]

@[simp]
lemma covers_append (l l' : List Block) (a : ℕ) :
    Covers (l ++ l') a ↔ Covers l a ∨ Covers l' a := by simp [Covers, or_and_right, exists_or]

/-- Blocks that are not empty overlap exactly if they share a byte. -/
lemma apart_iff {b c : Block} (hb : 0 < b.size) (hc : 0 < c.size) :
    Apart b c ↔ ∀ a, ¬ (b.Has a ∧ c.Has a) := by
  constructor
  · rintro h a ⟨hba, hca⟩
    simp only [Apart, Block.Has] at h hba hca
    omega
  intro h
  have hmax := h (max b.addr c.addr)
  simp only [Apart, Block.Has, Block.fin, HEADER] at hmax ⊢
  omega

/-- A block that shares no byte with any block of the list. -/
lemma apart_all_iff {b : Block} {l : List Block} (hb : 0 < b.size) (hl : ∀ c ∈ l, 0 < c.size) :
    (∀ c ∈ l, Apart b c) ↔ ∀ a, b.Has a → ¬ Covers l a := by
  constructor
  · rintro h a ha ⟨c, hc, hca⟩
    exact (apart_iff hb (hl c hc)).mp (h c hc) a ⟨ha, hca⟩
  · intro h c hc
    exact (apart_iff hb (hl c hc)).mpr fun a ⟨hba, hca⟩ => h a hba ⟨c, hc, hca⟩

lemma mem_of_mem_ends {α : Type} {front mid back : List α} {x : α} (h : x ∈ front ++ back) :
    x ∈ front ++ (mid ++ back) := by
  obtain h | h := mem_append.mp h
  · exact mem_append_left _ h
  · exact mem_append_right _ (mem_append_right _ h)

/-! ## The heap between two calls -/

/-- The addresses of the nodes of the circle behind `base`. -/
def addrs (l : List Block) : List ℕ := l.map Block.addr

@[simp]
lemma addrs_append (l l' : List Block) : addrs (l ++ l') = addrs l ++ addrs l' := by simp [addrs]

@[simp]
lemma addrs_cons (b : Block) (l : List Block) : addrs (b :: l) = b.addr :: addrs l := rfl

@[simp]
lemma addrs_nil : addrs [] = [] := rfl

/-- The free blocks in the order of their addresses, with room between them. -/
def Spaced (l : List Block) : Prop := l.Pairwise fun b c => b.fin < c.addr

/-- Where the blocks are and how large. -/
structure Placed (lay : Layout) (brk : ℕ) (areas used l : List Block) : Prop where
  spaced : Spaced l
  apart : (used ++ l).Pairwise Apart
  inside : ∀ b ∈ used ++ l, lay.start ≤ b.addr ∧ b.fin ≤ brk ∧ 0 < b.size
  below : ∀ b ∈ areas, lay.start ≤ b.addr ∧ b.fin ≤ brk
  brk_lt : brk < 2 ^ 32
  start_le : lay.start ≤ brk
  units : total areas = total (used ++ l)
  covers : ∀ a, Covers areas a ↔ Covers (used ++ l) a

/-- The headers agree with the lists of blocks. -/
structure Listed (lay : Layout) (m : ℕ → UInt8) (freep : ℕ) (used l : List Block) : Prop where
  circle : Circle (ptr m) lay.base (addrs l)
  freep_mem : freep ∈ lay.base :: addrs l
  base_size : size m lay.base = 0
  sizes : ∀ b ∈ used ++ l, size m b.addr = b.size

/-- The heap once `base` is in the list. -/
structure Holds (lay : Layout) (h : Heap) (used l : List Block) : Prop where
  placed : Placed lay h.brk h.areas used l
  listed : Listed lay h.mem h.freep used l

section
variable {lay : Layout} {brk : ℕ} {areas used used' l : List Block} {m : ℕ → UInt8} {freep : ℕ}

lemma covers_perm (h : used.Perm used') (a : ℕ) : Covers used a ↔ Covers used' a := by
  simp only [Covers, h.mem_iff]

lemma total_perm (h : used.Perm used') : total used = total used' := (h.map Block.size).sum_eq

lemma Placed.perm (h : Placed lay brk areas used l) (hperm : used.Perm used') :
    Placed lay brk areas used' l := by
  have hall : (used ++ l).Perm (used' ++ l) := hperm.append_right l
  exact {
    spaced := h.spaced
    apart := (hall.pairwise_iff Apart.symm).mp h.apart
    inside := fun b hb => h.inside b (hall.mem_iff.mpr hb)
    below := h.below
    brk_lt := h.brk_lt
    start_le := h.start_le
    units := h.units.trans (total_perm hall)
    covers := fun a => (h.covers a).trans (covers_perm hall a) }

lemma Listed.perm (h : Listed lay m freep used l) (hperm : used.Perm used') :
    Listed lay m freep used' l :=
  ⟨h.circle, h.freep_mem, h.base_size, fun b hb => h.sizes b
    ((hperm.append_right l).mem_iff.mpr hb)⟩

lemma Holds.perm {h : Heap} (hh : Holds lay h used l) (hperm : used.Perm used') :
    Holds lay h used' l := ⟨hh.placed.perm hperm, hh.listed.perm hperm⟩

section
variable (h : Placed lay brk areas used l)
include h

lemma Placed.headersApart {b c : Block} (hb : b ∈ used ++ l)
    (hc : c ∈ used ++ l) (hbc : Apart b c) : HeadersApart b.addr c.addr := by
  have := (h.inside b hb).2.2
  have := (h.inside c hc).2.2
  simp only [Apart, HeadersApart, Block.fin, HEADER] at hbc ⊢
  omega

lemma Placed.base_lt {b : Block} (hb : b ∈ used ++ l) :
    lay.base + HEADER ≤ b.addr := lay.below.trans (h.inside b hb).1

lemma Placed.nodes_sorted : (lay.base :: addrs l).Pairwise (· < ·) := by
  refine pairwise_cons.mpr ⟨fun a ha => ?_, ?_⟩
  · obtain ⟨b, hb, rfl⟩ := mem_map.mp ha
    have := h.base_lt (mem_append_right used hb)
    unfold HEADER at this
    omega
  refine pairwise_map.mpr (h.spaced.imp fun {b c} hbc => ?_)
  have : b.addr ≤ b.fin := Nat.le_add_right _ _
  omega

lemma Placed.nodes_nodup : (lay.base :: addrs l).Nodup :=
  h.nodes_sorted.imp fun {_ _} hlt => hlt.ne

end

/-- Exchange the free blocks `mid` for `new` and the blocks in use for others with the same
bytes. -/
lemma Placed.replace {front mid new back : List Block}
    (h : Placed lay brk areas used (front ++ (mid ++ back)))
    (hspaced : Spaced (front ++ (new ++ back))) (hapart : (used' ++ new).Pairwise Apart)
    (hpos : ∀ b ∈ used' ++ new, 0 < b.size) (hunits : total (used' ++ new) = total (used ++ mid))
    (hcovers : ∀ a, Covers (used' ++ new) a ↔ Covers (used ++ mid) a) :
    Placed lay brk areas used' (front ++ (new ++ back)) := by
  have hperm : ∀ us ms : List Block,
      (us ++ (front ++ (ms ++ back))).Perm ((us ++ ms) ++ (front ++ back)) := by
    intro us ms
    calc us ++ (front ++ (ms ++ back))
      _ |>.Perm (us ++ (ms ++ (front ++ back))) :=
          (perm_append_comm_assoc front ms back).append_left us
      _ = (us ++ ms) ++ (front ++ back) := by simp
  have hold := (hperm used mid).pairwise_iff Apart.symm |>.mp h.apart
  obtain ⟨_, hrest, hcross⟩ := pairwise_append.mp hold
  have hinside : ∀ b ∈ (used ++ mid) ++ (front ++ back),
      lay.start ≤ b.addr ∧ b.fin ≤ brk ∧ 0 < b.size := fun b hb =>
    h.inside b ((hperm used mid).mem_iff.mpr hb)
  have hrestpos : ∀ c ∈ front ++ back, 0 < c.size := fun c hc =>
    (hinside c (mem_append_right _ hc)).2.2
  refine ⟨hspaced, ?_, fun b hb => ?_, h.below, h.brk_lt, h.start_le, ?_, fun a => ?_⟩
  · refine ((hperm used' new).pairwise_iff Apart.symm).mpr
      (pairwise_append.mpr ⟨hapart, hrest, fun b hb => ?_⟩)
    -- a byte of the new blocks is a byte of the old ones
    refine (apart_all_iff (hpos b hb) hrestpos).mpr fun a ha => ?_
    obtain ⟨c, hc, hca⟩ := (hcovers a).mp ⟨b, hb, ha⟩
    have hcpos := (hinside c (mem_append_left _ hc)).2.2
    exact (apart_all_iff hcpos hrestpos).mp (hcross c hc) a hca
  · obtain hb | hb := mem_append.mp ((hperm used' new).mem_iff.mp hb)
    · have hbpos := hpos b hb
      have hfin : b.fin = b.addr + 8 * b.size := rfl
      obtain ⟨c, hc, hca, _⟩ := (hcovers b.addr).mp ⟨b, hb, le_rfl, by omega⟩
      obtain ⟨d, hd, _, hda⟩ := (hcovers (b.fin - 1)).mp ⟨b, hb, by omega, by omega⟩
      have hcin := hinside c (mem_append_left _ hc)
      have hdin := hinside d (mem_append_left _ hd)
      exact ⟨by omega, by omega, hbpos⟩
    · exact hinside b (mem_append_right _ hb)
  · rw [h.units, total_perm (hperm used mid), total_perm (hperm used' new), total_append,
      total_append (used' ++ new), hunits]
  · rw [h.covers, covers_perm (hperm used mid), covers_perm (hperm used' new), covers_append,
      covers_append _ (front ++ back), hcovers]

end
end Xv6.Umalloc
