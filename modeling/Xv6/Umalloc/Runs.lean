import Xv6.Umalloc.Allocating

/-!
# Runs of a program that uses the heap

In every state that a program reaches, the blocks it holds and the free blocks
are apart, the free list is in order, and no unit is lost; and every further
call of `malloc` and `free` ends (`heap_blocks_apart`).
-/

namespace Xv6.Umalloc
open Xv6.Lib Exec List

/-! ## The result of a call does not depend on the bound -/

lemma walkTo_mono {ν : Type} {next : ν → ν} {stop : ν → Bool} {n k : ℕ} {x y : ν} (hnk : n ≤ k)
    (h : walkTo next stop n x = some y) : walkTo next stop k x = some y := by
  induction n generalizing k x with
  | zero => cases h
  | succ n ih =>
    obtain ⟨k, rfl⟩ : ∃ j, k = j + 1 := ⟨k - 1, by omega⟩
    unfold walkTo at h ⊢
    split
    · rwa [if_pos (by assumption)] at h
    · rw [if_neg (by assumption)] at h
      exact ih (by omega) h

section
variable {grant : ℕ → Bool} {n k : ℕ} (hnk : n ≤ k)
include hnk

lemma free_mono (ap : ℕ) : Refines (free n ap) (free k ap) := by
  refine .bind .refl fun s => ?_
  dsimp only
  cases hwalk : walkTo (ptr s.mem) (between s.mem ((ap + 2 ^ 32 - HEADER) % 2 ^ 32)) n s.freep with
  | none => nofun
  | some p =>
    rw [walkTo_mono hnk hwalk]
    exact .refl

lemma morecore_mono (nu : ℕ) : Refines (morecore grant n nu) (morecore grant k nu) := by
  refine .bind .refl fun p => ?_
  split
  · exact .refl
  · exact .bind .refl fun _ => .bind .refl fun _ => .bind .refl fun _ =>
      .bind (free_mono hnk _) fun _ => .refl

lemma search_mono (nunits prevp p : ℕ) :
    Refines (search grant nunits n prevp p) (search grant nunits k prevp p) := by
  induction n generalizing k prevp p with
  | zero => nofun
  | succ n ih =>
    obtain ⟨k, rfl⟩ : ∃ j, k = j + 1 := ⟨k - 1, by omega⟩
    refine .bind .refl fun s => ?_
    split
    · exact .refl
    split
    · refine .bind (morecore_mono (by omega) _) fun q => ?_
      split
      · exact .refl
      · exact .bind .refl fun s => ih (by omega) _ _
    · exact ih (by omega) _ _

lemma malloc_mono (base nbytes : ℕ) :
    Refines (malloc grant base n nbytes) (malloc grant base k nbytes) :=
  .bind .refl fun _ => .bind .refl fun _ => search_mono hnk _ _ _

end

/-! ## What holds between two calls -/

/-- The heap has not been used yet, or the blocks of the program and the free ones make it up. -/
inductive Inv (lay : Layout) (s : Sys) : Prop
  | fresh (hfreep : s.heap.freep = 0) (hlive : s.live = []) (hareas : s.heap.areas = [])
      (hstart : lay.start ≤ s.heap.brk) (hbrk : s.heap.brk < 2 ^ 32)
  | used {l : List Block} (hh : Holds lay s.heap (s.live.map Live.block) l)
      (hlive : ∀ x ∈ s.live, HEADER ≤ x.ap ∧ x.n ≤ 2 ^ 31 - 16)

section
variable {lay : Layout} {s : Sys} (grant : ℕ → Bool)

lemma units_bounds {n : ℕ} (hn : n ≤ 2 ^ 31 - 16) :
    0 < units n ∧ units n < 2 ^ 28 ∧ n + HEADER ≤ HEADER * units n := by
  unfold units HEADER
  omega

variable {h : Heap}

lemma holds_base (hareas : h.areas = []) (hstart : lay.start ≤ h.brk)
    (hbrk : h.brk < 2 ^ 32) : Holds lay { h with
      mem := setSize (setPtr h.mem lay.base lay.base) lay.base 0
      freep := lay.base } [] [] := by
  have hbase : lay.base < 2 ^ 32 := by
    have := lay.below
    omega
  refine ⟨⟨List.Pairwise.nil, List.Pairwise.nil, by simp, by simp [hareas], hbrk, hstart,
    by simp [hareas], by simp [hareas]⟩, ⟨⟨?_, by simp⟩, by simp, ?_, by simp⟩⟩
  · refine linked_cons_cons.mpr ⟨?_, linked_singleton⟩
    rw [ptr_setSize_self, ptr_setPtr _ _ hbase]
  · exact size_setSize _ _ (by decide)

lemma Inv.malloc (hs : Inv lay s) {n : ℕ} (hn : n ≤ 2 ^ 31 - 16) :
    ∃ k r h', Taken lay (s.live.map Live.block) (units n) r h' ∧ ∀ fuel, k ≤ fuel →
      malloc grant lay.base fuel n s.heap = .ok r h' := by
  obtain ⟨hpos, hlt, _⟩ := units_bounds hn
  cases hs with
  | fresh hfreep hlive hareas hstart hbrk =>
    have hh : Holds lay _ [] [] := holds_base hareas hstart hbrk
    obtain ⟨k, r, h', htaken, hsearch⟩ := hh.search grant hpos hlt
    refine ⟨k, r, h', by rw [hlive]; exact htaken, fun fuel hfuel => ?_⟩
    have hinit : initialise lay.base s.heap = .ok () { s.heap with
        mem := setSize (setPtr s.heap.mem lay.base lay.base) lay.base 0
        freep := lay.base } := by
      change (if s.heap.freep = 0 then _ else _ : Code Unit) s.heap = _
      rw [if_pos hfreep]
      rfl
    unfold Umalloc.malloc
    rw [bind_ok hinit]
    exact hsearch fuel hfuel
  | used hh _ =>
    obtain ⟨k, r, h', htaken, hsearch⟩ := hh.search grant hpos hlt
    refine ⟨k, r, h', htaken, fun fuel hfuel => ?_⟩
    have hinit : initialise lay.base s.heap = .ok () s.heap := by
      change (if s.heap.freep = 0 then _ else _ : Code Unit) s.heap = _
      rw [if_neg hh.freep_ne_zero]
      rfl
    unfold Umalloc.malloc
    rw [bind_ok hinit]
    exact hsearch fuel hfuel

variable {fuel a : ℕ} {live : List Live} {l used : List Block} {x : Live}

variable {h' : Heap}

lemma Inv.taken (hs : Inv lay s) {n r : ℕ} (hn : n ≤ 2 ^ 31 - 16)
    (hmalloc : Umalloc.malloc grant lay.base fuel n s.heap = .ok r h') :
    Taken lay (s.live.map Live.block) (Umalloc.units n) r h' := by
  obtain ⟨k, r₁, h₁, htaken, hlarge⟩ := hs.malloc grant hn
  -- a larger bound gives what the call returned, and what the search finds
  have hmax := malloc_mono (le_max_left fuel k) _ _ _ _ _ hmalloc
  rw [hlarge _ (le_max_right fuel k)] at hmax
  cases hmax
  exact htaken

lemma Inv.malloc_step (hs : Inv lay s) {n r : ℕ} (hn : n ≤ 2 ^ 31 - 16)
    (hmalloc : Umalloc.malloc grant lay.base fuel n s.heap = .ok r h') :
    Inv lay ⟨h', if r = 0 then s.live else ⟨r, n⟩ :: s.live⟩ := by
  have htaken := hs.taken grant hn hmalloc
  have hold : ∀ x ∈ s.live, HEADER ≤ x.ap ∧ x.n ≤ 2 ^ 31 - 16 := by
    cases hs with
    | fresh _ hlive => simp [hlive]
    | used _ hlive => exact hlive
  cases htaken with
  | none hh => exact .used hh hold
  | @some _ _ b hh hb =>
    have hblock : Live.block ⟨b.addr + HEADER, n⟩ = b := by
      rw [Live.block, ← hb, Nat.add_sub_cancel]
    rw [if_neg (Nat.ne_of_gt (Nat.add_pos_right _ (by decide)))]
    refine .used (by rw [map_cons, hblock]; exact hh) fun x hx => ?_
    obtain rfl | hx := mem_cons.mp hx
    · exact ⟨Nat.le_add_left _ _, hn⟩
    · exact hold x hx

/-! ## Freeing -/

lemma Holds.live_ne (hh : Holds lay h (live.map Live.block) l) :
    live.Pairwise fun x y => x.ap ≠ y.ap := by
  obtain ⟨hapart, _, _⟩ := pairwise_append.mp hh.placed.apart
  refine (pairwise_map.mp hapart).imp_of_mem fun {x y} hx hy hxy heq => ?_
  have hpos := (hh.placed.inside x.block (mem_append_left _ (mem_map_of_mem hx))).2.2
  have hpos' := (hh.placed.inside y.block (mem_append_left _ (mem_map_of_mem hy))).2.2
  have hsame : x.block.addr = y.block.addr := by simp [Live.block, heq]
  simp only [Apart, Block.fin, HEADER, hsame] at hxy
  omega

lemma perm_cons_filter (hne : live.Pairwise fun x y => x.ap ≠ y.ap) (hx : x ∈ live) :
    live.Perm (x :: live.filter fun y => y.ap ≠ x.ap) := by
  induction live with
  | nil => cases hx
  | cons y live ih =>
    obtain ⟨hy, hrest⟩ := pairwise_cons.mp hne
    obtain rfl | hx := mem_cons.mp hx
    · have hkeep : live.filter (fun y => y.ap ≠ x.ap) = live :=
        filter_eq_self.mpr fun z hz => by simpa using (hy z hz).symm
      rw [filter_cons_of_neg (by simp), hkeep]
    calc y :: live
      _ |>.Perm (y :: x :: live.filter fun y => y.ap ≠ x.ap) := (ih hrest hx).cons y
      _ |>.Perm (x :: y :: live.filter fun y => y.ap ≠ x.ap) := List.Perm.swap _ _ _
      _ = x :: (y :: live).filter fun y => y.ap ≠ x.ap := by simp [hy x hx]

lemma Live.block_addr (hx : HEADER ≤ x.ap) : x.ap = x.block.addr + HEADER :=
  (Nat.sub_add_cancel hx).symm

lemma Inv.free (hs : Inv lay s) (hx : x ∈ s.live) :
    ∃ k h', Inv lay ⟨h', s.live.filter fun y => y.ap ≠ x.ap⟩ ∧ ∀ fuel, k ≤ fuel →
      free fuel x.ap s.heap = .ok () h' := by
  cases hs with
  | fresh _ hlive => simp [hlive] at hx
  | @used l hh hlive =>
    have hperm := (perm_cons_filter hh.live_ne hx).map Live.block
    obtain ⟨m, p, l', hfree, hh', _⟩ := (hh.perm hperm).free (Live.block_addr (hlive x hx).1)
    exact ⟨l.length + 1, _, .used hh' fun y hy => hlive y (mem_filter.mp hy).1, hfree⟩

lemma Inv.free_step (hs : Inv lay s) {ap : ℕ} (hap : ∃ x ∈ s.live, x.ap = ap)
    (hfree : Umalloc.free fuel ap s.heap = .ok () h') :
    Inv lay ⟨h', s.live.filter fun y => y.ap ≠ ap⟩ := by
  obtain ⟨x, hx, rfl⟩ := hap
  obtain ⟨k, h₁, hinv, hlarge⟩ := hs.free hx
  have hmax := free_mono (le_max_left fuel k) _ _ _ _ hfree
  rw [hlarge _ (le_max_right fuel k)] at hmax
  obtain rfl : h₁ = h' := by cases hmax; rfl
  exact hinv

/-! ## What the program does itself -/

/-- Only the bytes of the headers matter. -/
lemma Holds.congr {m : ℕ → UInt8} (hh : Holds lay h used l)
    (hbase : ∀ i, lay.base ≤ i → i < lay.base + HEADER → m i = h.mem i)
    (hblock : ∀ b ∈ used ++ l, ∀ i, b.addr ≤ i → i < b.addr + HEADER → m i = h.mem i) :
    Holds lay { h with mem := m } used l := by
  have hptr : ∀ q, (∀ i, q ≤ i → i < q + HEADER → m i = h.mem i) → ptr m q = ptr h.mem q :=
    fun q hq => word_congr fun i hi hi' => hq i hi (by unfold HEADER; omega)
  have hsize : ∀ q, (∀ i, q ≤ i → i < q + HEADER → m i = h.mem i) → size m q = size h.mem q :=
    fun q hq => word_congr fun i hi hi' => hq i (by omega) (by unfold HEADER; omega)
  have hnode : ∀ q ∈ lay.base :: addrs l, ptr m q = ptr h.mem q := by
    intro q hq
    obtain rfl | hq := mem_cons.mp hq
    · exact hptr _ hbase
    obtain ⟨b, hb, rfl⟩ := mem_map.mp hq
    exact hptr _ (hblock b (mem_append_right _ hb))
  exact ⟨hh.placed, {
    circle := hh.listed.circle.congr hnode
    freep_mem := hh.listed.freep_mem
    base_size := (hsize _ hbase).trans hh.listed.base_size
    sizes := fun b hb => (hsize _ (hblock b hb)).trans (hh.listed.sizes b hb) }⟩

lemma Live.fits (hap : HEADER ≤ x.ap) (hn : x.n ≤ 2 ^ 31 - 16) : x.ap + x.n ≤ x.block.fin := by
  obtain ⟨_, _, hroom⟩ := units_bounds hn
  have heq := Live.block_addr hap
  have hfin : x.block.fin = x.block.addr + HEADER * Umalloc.units x.n := rfl
  omega

lemma Live.data_in_block (hap : HEADER ≤ x.ap) (hn : x.n ≤ 2 ^ 31 - 16) (ha : x.ap ≤ a)
    (ha' : a < x.ap + x.n) : x.block.addr + HEADER ≤ a ∧ a < x.block.fin :=
  ⟨Live.block_addr hap ▸ ha, ha'.trans_le (Live.fits hap hn)⟩

/-- A byte in the block of a live pointer behind its header is in no other header. -/
lemma Placed.not_header {brk : ℕ} {areas : List Block} (h : Placed lay brk areas used l)
    {b c : Block} (hb : b ∈ used ++ l) (hc : c ∈ used ++ l) (ha : b.addr + HEADER ≤ a)
    (ha' : a < b.fin) : a < c.addr ∨ c.addr + HEADER ≤ a := by
  obtain rfl | hne := eq_or_ne b c
  · exact .inr ha
  have hapart := h.apart.forall hb hc hne
  have := (h.inside c hc).2.2
  simp only [Apart, Block.fin, HEADER] at *
  omega

/-- The program's own bytes are not part of any header. -/
lemma Inv.store_step (hs : Inv lay s) {v : UInt8} (ha : s.Admitted lay (.store a v)) :
    Inv lay { s with heap.mem := Function.update s.heap.mem a v } := by
  cases hs with
  | fresh hfreep hlive hareas hstart hbrk => exact .fresh hfreep hlive hareas hstart hbrk
  | @used l hh hlive =>
    have hout : (a < lay.base ∨ lay.base + HEADER ≤ a) ∧
        ∀ b ∈ s.live.map Live.block ++ l, a < b.addr ∨ b.addr + HEADER ≤ a := by
      obtain ⟨x, hx, hxa, hxa'⟩ | ⟨ha, hbase⟩ := ha
      · obtain ⟨hap, hn⟩ := hlive x hx
        obtain ⟨hlow, hhigh⟩ := Live.data_in_block hap hn hxa hxa'
        have hmem := mem_append_left l (mem_map_of_mem (f := Live.block) hx)
        have := hh.placed.base_lt hmem
        exact ⟨.inr (by omega), fun b hb => hh.placed.not_header hmem hb hlow hhigh⟩
      refine ⟨hbase, fun b hb => ?_⟩
      obtain ⟨hlow, hhigh, hpos⟩ := hh.placed.inside b hb
      simp only [Block.fin, HEADER] at hhigh ⊢
      omega
    have hsame : ∀ q, a < q ∨ q + HEADER ≤ a → ∀ i, q ≤ i → i < q + HEADER →
        Function.update s.heap.mem a v i = s.heap.mem i := fun q hq i hi hi' =>
      Function.update_of_ne (by omega) _ _
    exact .used (hh.congr (hsame _ hout.1) fun b hb => hsame _ (hout.2 b hb)) hlive

lemma Inv.grow_step (hs : Inv lay s) {k : ℕ} (hk : s.heap.brk + k < 2 ^ 32) :
    Inv lay { s with heap.brk := s.heap.brk + k } := by
  cases hs with
  | fresh hfreep hlive hareas hstart _ =>
    exact .fresh hfreep hlive hareas (Nat.le_add_right_of_le hstart) hk
  | used hh hlive =>
    have hp := hh.placed
    exact .used ⟨{ hp with
      inside := fun b hb => (hp.inside b hb).imp_right (.imp_left Nat.le_add_right_of_le)
      below := fun b hb => (hp.below b hb).imp_right Nat.le_add_right_of_le
      brk_lt := hk
      start_le := Nat.le_add_right_of_le hp.start_le }, hh.listed⟩ hlive

/-! ## Runs -/

lemma Inv.step (s s' : Sys) (e : Event) (hs : Inv lay s) (he : s.Admitted lay e)
    (hstep : s.step grant lay e = some s') : Inv lay s' := by
  cases e with
  | malloc fuel n =>
    simp only [Sys.step] at hstep
    split at hstep
    · cases hstep
      exact hs.malloc_step grant (he.trans (by decide)) (by assumption)
    · cases hstep
  | free fuel ap =>
    simp only [Sys.step] at hstep
    split at hstep
    · cases hstep
      exact hs.free_step he (by assumption)
    · cases hstep
  | store a v =>
    cases hstep
    exact hs.store_step he
  | grow k =>
    cases hstep
    exact hs.grow_step he

lemma inv_boot (lay : Layout) (mem : ℕ → UInt8) : Inv lay (lay.boot mem) :=
  .fresh rfl rfl rfl le_rfl lay.inside

end

/-- The free blocks of a heap and the pointers that the program holds. -/
structure Sys.Sound (lay : Layout) (s : Sys) (free : List Block) : Prop where
  /-- The circle goes through each free block once and `freep` is on it. -/
  circle : s.heap.freep ≠ 0 → Circle (ptr s.heap.mem) lay.base (addrs free) ∧
    s.heap.freep ∈ lay.base :: addrs free
  unused : s.heap.freep = 0 → s.live = [] ∧ free = []
  /-- It ascends from `base`, and no free block ends where the next one starts. -/
  sorted : (lay.base :: addrs free).Pairwise (· < ·)
  spaced : Spaced free
  sizes : ∀ b ∈ s.live.map Live.block ++ free, size s.heap.mem b.addr = b.size ∧ 0 < b.size
  apart : (s.live.map Live.block ++ free).Pairwise Apart
  units : total s.heap.areas = total (s.live.map Live.block ++ free)
  covers : ∀ a, Covers s.heap.areas a ↔ Covers (s.live.map Live.block ++ free) a
  /-- What was asked for lies in the block behind the header. -/
  fits : ∀ x ∈ s.live, x.ap = x.block.addr + HEADER ∧ x.ap + x.n ≤ x.block.fin
  /-- No two pointers share a byte. -/
  disjoint : s.live.Pairwise fun x y => x.ap + x.n ≤ y.ap ∨ y.ap + y.n ≤ x.ap
  /-- No byte of the program is in a header or a free block. -/
  outside : ∀ x ∈ s.live, ∀ a, x.ap ≤ a → a < x.ap + x.n →
    (∀ b ∈ free, ¬ b.Has a) ∧
    ∀ q ∈ lay.base :: addrs (s.live.map Live.block ++ free), a < q ∨ q + HEADER ≤ a

section
variable {lay : Layout} {s : Sys}

lemma Inv.sound (hs : Inv lay s) : ∃ free, s.Sound lay free := by
  cases hs with
  | fresh hfreep hlive hareas hstart hbrk =>
    refine ⟨[], fun h => absurd hfreep h, fun _ => ⟨hlive, rfl⟩, ?_, .nil, ?_, ?_, ?_, ?_, ?_, ?_,
      ?_⟩ <;> simp [hlive, hareas]
  | @used l hh hlive =>
    have hp := hh.placed
    have hmem : ∀ x ∈ s.live, x.block ∈ s.live.map Live.block ++ l := fun x hx =>
      mem_append_left l (mem_map_of_mem hx)
    refine ⟨l, {
      circle := fun _ => ⟨hh.listed.circle, hh.listed.freep_mem⟩
      unused := fun h => absurd h hh.freep_ne_zero
      sorted := hp.nodes_sorted
      spaced := hp.spaced
      sizes := fun b hb => ⟨hh.listed.sizes b hb, (hp.inside b hb).2.2⟩
      apart := hp.apart
      units := hp.units
      covers := hp.covers
      fits := fun x hx =>
        ⟨Live.block_addr (hlive x hx).1, Live.fits (hlive x hx).1 (hlive x hx).2⟩
      disjoint := ?_
      outside := ?_ }⟩
    · obtain ⟨hapart, _, _⟩ := pairwise_append.mp hp.apart
      refine (pairwise_map.mp hapart).imp_of_mem fun {x y} hx hy hxy => ?_
      have hxfit := Live.fits (hlive x hx).1 (hlive x hx).2
      have hyfit := Live.fits (hlive y hy).1 (hlive y hy).2
      have hxap := Live.block_addr (hlive x hx).1
      have hyap := Live.block_addr (hlive y hy).1
      exact hxy.imp (by omega) (by omega)
    intro x hx a ha ha'
    obtain ⟨hlow, hhigh⟩ := Live.data_in_block (hlive x hx).1 (hlive x hx).2 ha ha'
    refine ⟨fun b hb hhas => ?_, fun q hq => ?_⟩
    · obtain ⟨_, _, hcross⟩ := pairwise_append.mp hp.apart
      have hapart := hcross _ (mem_map_of_mem hx) b hb
      simp only [Apart, Block.Has] at hapart hhas
      omega
    obtain rfl | hq := mem_cons.mp hq
    · have := hp.base_lt (hmem x hx)
      omega
    · obtain ⟨b, hb, rfl⟩ := mem_map.mp hq
      exact hp.not_header (hmem x hx) hb hlow hhigh

end

/-- In every state that a program reaches, its blocks and the free ones are apart and make up what
`sbrk` has returned, the free list is in order, and the next call of `malloc` or `free` ends. -/
theorem heap_blocks_apart (grant : ℕ → Bool) (lay : Layout) (mem : ℕ → UInt8) (s : Sys)
    (hs : Reaches (Sys.step grant lay) (Sys.Admitted lay) (lay.boot mem) s) :
    (∃ free, s.Sound lay free) ∧
    (∀ n ≤ 2 ^ 31 - 32, ∃ k ap h', ∀ fuel ≥ k, malloc grant lay.base fuel n s.heap = .ok ap h') ∧
    ∀ x ∈ s.live, ∃ k h', ∀ fuel ≥ k, free fuel x.ap s.heap = .ok () h' := by
  have hinv : Inv lay s := Reaches.invariant (Inv.step grant) hs (inv_boot lay mem)
  refine ⟨hinv.sound, fun n hn => ?_, fun x hx => ?_⟩
  · obtain ⟨k, r, h', _, hend⟩ := hinv.malloc grant (hn.trans (by decide))
    exact ⟨k, r, h', hend⟩
  · obtain ⟨k, h', _, hend⟩ := hinv.free hx
    exact ⟨k, h', hend⟩

section
variable (grant : ℕ → Bool) {m : ℕ → UInt8} {calls nu : ℕ} {areas : List Block}
  (hnu : 2 ^ 28 ≤ nu) (hnu' : nu ≤ 2 ^ 29)
include hnu hnu'

end

instance (lay : Layout) (s : Sys) : ∀ e, Decidable (s.Admitted lay e)
  | .malloc _ n => inferInstanceAs (Decidable (n ≤ 2 ^ 31 - 32))
  | .free _ ap => inferInstanceAs (Decidable (∃ x ∈ s.live, x.ap = ap))
  | .store a _ => inferInstanceAs (Decidable ((∃ x ∈ s.live, x.ap ≤ a ∧ a < x.ap + x.n) ∨
      (a < lay.start ∨ s.heap.brk ≤ a) ∧ (a < lay.base ∨ lay.base + HEADER ≤ a)))
  | .grow k => inferInstanceAs (Decidable (s.heap.brk + k < 2 ^ 32))

/-- Three calls of `malloc`, a store, and two of the blocks freed again. -/
theorem heap_blocks_apart_after_frees : ∃ s : Sys, s.live = [⟨45016, 10⟩] ∧ s.heap.freep ≠ 0 ∧
    (∃ free, s.Sound ⟨4096, 12288, by decide, by decide, by decide⟩ free) ∧
    (∀ n ≤ 2 ^ 31 - 32, ∃ k ap h', ∀ fuel ≥ k,
      malloc (fun _ => true) 4096 fuel n s.heap = .ok ap h') ∧
    ∀ x ∈ s.live, ∃ k h', ∀ fuel ≥ k, free fuel x.ap s.heap = .ok () h' := by
  obtain ⟨s, hs, hlive, hfreep⟩ := exists_of_execAll
    (Sys.step (fun _ => true) ⟨4096, 12288, by decide, by decide, by decide⟩)
    (Sys.Admitted ⟨4096, 12288, by decide, by decide, by decide⟩)
    (Layout.boot ⟨4096, 12288, by decide, by decide, by decide⟩ fun _ => 0)
    [.malloc 9 10, .malloc 9 10, .malloc 9 10, .store 45020 7, .free 9 45040, .free 9 44992]
    (fun s => s.live = [⟨45016, 10⟩] ∧ s.heap.freep ≠ 0) (by decide +kernel)
  exact ⟨s, hlive, hfreep, heap_blocks_apart _ _ _ s hs⟩

end Xv6.Umalloc
