import Xv6.Umalloc.Blocks

/-!
# Freeing a block

The loop of `free` finds the node behind which the block belongs, whatever node
it starts from, and the assignments join the block to its neighbours where they
touch (`Holds.free`).
-/

namespace Xv6.Umalloc
open Xv6.Lib List

/-! ## The assignments -/

section
variable {m : ℕ → UInt8} {bp p q : ℕ}

lemma joinUpper_of_apart (h : HeadersApart bp q) :
    ptr (joinUpper m bp p) q = ptr m q ∧ size (joinUpper m bp p) q = size m q := by
  unfold joinUpper
  split
  · constructor
    · rw [ptr_setPtr_of_apart _ _ h, ptr_setSize_of_apart _ _ h]
    · rw [size_setPtr_of_apart _ _ h, size_setSize_of_apart _ _ h]
  · exact ⟨ptr_setPtr_of_apart _ _ h, size_setPtr_of_apart _ _ h⟩

lemma joinLower_of_apart (h : HeadersApart p q) :
    ptr (joinLower m bp p) q = ptr m q ∧ size (joinLower m bp p) q = size m q := by
  unfold joinLower
  split
  · constructor
    · rw [ptr_setPtr_of_apart _ _ h, ptr_setSize_of_apart _ _ h]
    · rw [size_setPtr_of_apart _ _ h, size_setSize_of_apart _ _ h]
  · exact ⟨ptr_setPtr_of_apart _ _ h, size_setPtr_of_apart _ _ h⟩

lemma joinUpper_touching (hp : HeadersApart bp p) (hnext : HeadersApart bp (ptr m p))
    (h : padd bp (size m bp) = ptr m p) (hsum : size m bp + size m (ptr m p) < 2 ^ 32) :
    ptr (joinUpper m bp p) bp = ptr m (ptr m p) ∧
      size (joinUpper m bp p) bp = size m bp + size m (ptr m p) := by
  rw [joinUpper, if_pos h]
  rw [ptr_setPtr _ _ (ptr_lt _), size_setPtr_self, size_setSize _ _ hsum,
    ptr_setSize_of_apart _ _ hp, ptr_setSize_of_apart _ _ hnext]
  exact ⟨rfl, rfl⟩

lemma joinUpper_clear (h : padd bp (size m bp) ≠ ptr m p) :
    ptr (joinUpper m bp p) bp = ptr m p ∧ size (joinUpper m bp p) bp = size m bp := by
  rw [joinUpper, if_neg h]
  exact ⟨ptr_setPtr _ _ (ptr_lt _), size_setPtr_self ..⟩

lemma joinLower_touching (hp : HeadersApart p bp) (h : padd p (size m p) = bp)
    (hsum : size m p + size m bp < 2 ^ 32) :
    ptr (joinLower m bp p) p = ptr m bp ∧ size (joinLower m bp p) p = size m p + size m bp := by
  rw [joinLower, if_pos h]
  rw [ptr_setPtr _ _ (ptr_lt _), size_setPtr_self, size_setSize _ _ hsum,
    ptr_setSize_of_apart _ _ hp]
  exact ⟨rfl, rfl⟩

lemma joinLower_clear (h : padd p (size m p) ≠ bp) (hbp : bp < 2 ^ 32) :
    ptr (joinLower m bp p) p = bp ∧ size (joinLower m bp p) p = size m p := by
  rw [joinLower, if_neg h]
  exact ⟨ptr_setPtr _ _ hbp, size_setPtr_self ..⟩

end

/-! ## The place of a block -/

section
variable {b : Block} {l : List Block}

/-- A block that overlaps no free block lies between two of them. -/
lemma exists_split (hspaced : Spaced l) (hapart : ∀ c ∈ l, Apart b c) :
    ∃ l₁ l₂, l = l₁ ++ l₂ ∧ (∀ c ∈ l₁, c.fin ≤ b.addr) ∧ ∀ c ∈ l₂, b.fin ≤ c.addr := by
  induction l with
  | nil => exact ⟨[], [], rfl, by simp, by simp⟩
  | cons c l ih =>
    obtain ⟨hc, hl⟩ := pairwise_cons.mp hspaced
    obtain habove | hbelow := hapart c mem_cons_self
    · refine ⟨[], c :: l, rfl, by simp, fun d hd => ?_⟩
      obtain rfl | hd := mem_cons.mp hd
      · exact habove
      have := hc d hd
      have : c.addr ≤ c.fin := Nat.le_add_right _ _
      omega
    obtain ⟨l₁, l₂, rfl, h₁, h₂⟩ := ih hl fun d hd => hapart d (mem_cons_of_mem c hd)
    refine ⟨c :: l₁, l₂, rfl, fun d hd => ?_, h₂⟩
    obtain rfl | hd := mem_cons.mp hd
    · exact hbelow
    · exact h₁ d hd

end

/-- The loop of `free` ends at the last node below the block, and at no other. -/
lemma between_iff {m : ℕ → UInt8} {base bp p q : ℕ} {nodes : List ℕ}
    (hlinked : Linked (ptr m) (nodes ++ [base])) (hsorted : nodes.Pairwise (· < ·))
    (hp : p ∈ nodes) (hpb : p < bp) (hgap : ∀ x ∈ nodes, x ≤ p ∨ bp < x) (hbase : base ≤ p)
    (hq : q ∈ nodes) : between m bp q = true ↔ q = p := by
  simp only [between, Bool.or_eq_true, decide_eq_true_eq]
  have hqp := hgap q hq
  obtain ⟨hnext, hlast⟩ | ⟨hmem, hlt, hnone⟩ := hlinked.next_cases hsorted hq
  · have := hlast p hp
    rw [hnext]
    omega
  have := hnone p hp
  have := hgap _ hmem
  omega

/-! ## The neighbours of a block -/

/-- The block `c` consists of `b` and of the blocks in `mid`. -/
structure Grown (b : Block) (mid : List Block) (c : Block) : Prop where
  size : c.size = b.size + total mid
  has : ∀ a, c.Has a ↔ b.Has a ∨ Covers mid a

lemma Grown.refl (b : Block) : Grown b [] b := ⟨by simp, fun a => by simp⟩

lemma grown_of_touching {b c : Block} (h : b.fin = c.addr) :
    Grown b [c] ⟨b.addr, b.size + c.size⟩ ∧ Grown c [b] ⟨b.addr, b.size + c.size⟩ := by
  have hhas : ∀ a, Block.Has ⟨b.addr, b.size + c.size⟩ a ↔ b.Has a ∨ c.Has a := by
    intro a
    simp only [Block.Has, Block.fin, HEADER] at h ⊢
    omega
  refine ⟨⟨by simp, fun a => ?_⟩, ⟨by simp; omega, fun a => ?_⟩⟩
  · simp [hhas]
  rw [hhas]
  simp [or_comm]

lemma padd_eq_fin {b : Block} {n : ℕ} (hn : n = b.size) (h : b.fin < 2 ^ 32) :
    padd b.addr n = b.fin := by
  rw [hn, padd]
  exact Nat.mod_eq_of_lt h

lemma Block.size_lt {b : Block} (h : b.fin < 2 ^ 32) : b.size < 2 ^ 32 := by
  simp only [Block.fin, HEADER] at h
  omega

section
variable {m : ℕ → UInt8} {base p : ℕ} {b : Block} {l : List Block}

section
variable (hb : size m b.addr = b.size) (hl : ∀ c ∈ l, size m c.addr = c.size) (hspaced : Spaced l)
include hb hl hspaced

lemma exists_upper (habove : ∀ c ∈ l, b.fin ≤ c.addr)
    (hlinked : Linked (ptr m) (p :: (addrs l ++ [base]))) (hbase : base < b.addr)
    (hfin : ∀ c ∈ b :: l, c.fin < 2 ^ 32) (hp : HeadersApart b.addr p)
    (hheaders : ∀ c ∈ l, HeadersApart b.addr c.addr) :
    ∃ mid back c, l = mid ++ back ∧ c.addr = b.addr ∧ Grown b mid c ∧ (∀ d ∈ back, c.fin < d.addr) ∧
      (addrs back ++ [base]).head? = some (ptr (joinUpper m b.addr p) b.addr) ∧
      size (joinUpper m b.addr p) b.addr = c.size ∧ c.fin < 2 ^ 32 := by
  have hbfin := hfin b mem_cons_self
  have hpadd := padd_eq_fin hb hbfin
  have hle : b.addr ≤ b.fin := Nat.le_add_right _ _
  rcases l with _ | ⟨c, l⟩
  · have hnext : ptr m p = base := (linked_cons_cons.mp hlinked).1
    have hclear : padd b.addr (size m b.addr) ≠ ptr m p := by
      rw [hpadd, hnext]
      omega
    obtain ⟨hptr, hsize⟩ := joinUpper_clear hclear
    exact ⟨[], [], b, rfl, rfl, .refl b, by simp, by simp [hptr, hnext], hsize.trans hb, hbfin⟩
  obtain ⟨hnext, hrest⟩ := linked_cons_cons.mp hlinked
  obtain ⟨hc, _⟩ := pairwise_cons.mp hspaced
  by_cases htouch : b.fin = c.addr
  · have hcsize := hl c mem_cons_self
    have hcfin := hfin c (by simp)
    have hfin' : Block.fin ⟨b.addr, b.size + c.size⟩ = c.fin := by
      simp only [Block.fin, HEADER] at htouch ⊢
      omega
    have hsum := Block.size_lt (hfin' ▸ hcfin)
    obtain ⟨hptr, hsize⟩ := joinUpper_touching hp
      (by rw [hnext]; exact hheaders c mem_cons_self) (by rw [hpadd, hnext, htouch])
      (by rw [hb, hnext, hcsize]; exact hsum)
    refine ⟨[c], l, ⟨b.addr, b.size + c.size⟩, rfl, rfl, (grown_of_touching htouch).1,
      fun d hd => ?_, ?_, ?_, hfin' ▸ hcfin⟩
    · rw [hfin']
      exact hc d hd
    · rw [hptr, hnext]
      cases l with
      | nil | cons d l => simp [(linked_cons_cons.mp hrest).1]
    · rw [hsize, hb, hnext, hcsize]
  have hclear : padd b.addr (size m b.addr) ≠ ptr m p := by
    rwa [hpadd, hnext]
  obtain ⟨hptr, hsize⟩ := joinUpper_clear hclear
  refine ⟨[], c :: l, b, rfl, rfl, .refl b, fun d hd => ?_, by simp [hptr, hnext],
    hsize.trans hb, hbfin⟩
  have hbc := habove c mem_cons_self
  have hcle : c.addr ≤ c.fin := Nat.le_add_right _ _
  obtain rfl | hd := mem_cons.mp hd
  · omega
  have := hc d hd
  omega

lemma exists_lower (hbelow : ∀ c ∈ l, c.fin ≤ b.addr)
    (hbase : base < b.addr)
    (hsize0 : size m base = 0) (hbfin : b.fin < 2 ^ 32) {pre : List ℕ}
    (hlast : base :: addrs l = pre ++ [p]) (hp : HeadersApart p b.addr) :
    ∃ front mid c, l = front ++ mid ∧ Grown b mid c ∧ (∀ d ∈ front, d.fin < c.addr) ∧
      c.fin = b.fin ∧ size (joinLower m b.addr p) c.addr = c.size ∧
      ((mid = [] ∧ c = b ∧ ptr (joinLower m b.addr p) p = b.addr ∧
          size (joinLower m b.addr p) p = size m p) ∨
        (∃ d, mid = [d] ∧ d.addr = p ∧ c.addr = p ∧
          ptr (joinLower m b.addr p) p = ptr m b.addr)) := by
  have hble : b.addr ≤ b.fin := Nat.le_add_right _ _
  obtain rfl | ⟨front, d, rfl⟩ := l.eq_nil_or_concat
  · obtain ⟨rfl, rfl⟩ : pre = [] ∧ base = p := by
      cases pre with
      | nil => simpa using hlast
      | cons x pre => simp at hlast
    have hclear : padd base (size m base) ≠ b.addr := by
      rw [hsize0, padd, Nat.mul_zero, Nat.add_zero, Nat.mod_eq_of_lt (by omega)]
      omega
    obtain ⟨hptr, hsize⟩ := joinLower_clear hclear (by omega)
    have hown := (@joinLower_of_apart m b.addr base b.addr hp).2
    exact ⟨[], [], b, rfl, .refl b, by simp, rfl, hown.trans hb, .inl ⟨rfl, rfl, hptr, hsize⟩⟩
  rw [concat_eq_append] at *
  obtain ⟨-, rfl⟩ : pre = base :: addrs front ∧ d.addr = p := by
    have : (base :: addrs front) ++ [d.addr] = pre ++ [p] := by rw [← hlast]; simp
    obtain ⟨h₁, h₂⟩ := append_inj' this rfl
    exact ⟨h₁.symm, by simpa using h₂⟩
  have hdsize := hl d (by simp)
  have hdfin := hbelow d (by simp)
  have hpadd := padd_eq_fin hdsize (by omega)
  have hfront : ∀ c ∈ front, c.fin < d.addr := fun c hc =>
    (pairwise_append.mp hspaced).2.2 c hc d (by simp)
  by_cases htouch : d.fin = b.addr
  · have hfin' : Block.fin ⟨d.addr, d.size + b.size⟩ = b.fin := by
      simp only [Block.fin, HEADER] at htouch ⊢
      omega
    have hsum := Block.size_lt (hfin' ▸ hbfin)
    obtain ⟨hptr, hsize⟩ := joinLower_touching hp (by rw [hpadd, htouch])
      (by rw [hdsize, hb]; exact hsum)
    refine ⟨front, [d], ⟨d.addr, d.size + b.size⟩, rfl, (grown_of_touching htouch).2, hfront,
      hfin', ?_, .inr ⟨d, rfl, rfl, rfl, hptr⟩⟩
    rw [hsize, hdsize, hb]
  have hclear : padd d.addr (size m d.addr) ≠ b.addr := by
    rwa [hpadd]
  obtain ⟨hptr, hsize⟩ := joinLower_clear hclear (by omega)
  have hown := (@joinLower_of_apart m b.addr d.addr b.addr hp).2
  refine ⟨front ++ [d], [], b, by simp, .refl b, fun c hc => ?_, rfl, hown.trans hb,
    .inl ⟨rfl, rfl, hptr, hsize⟩⟩
  have hdle : d.addr ≤ d.fin := Nat.le_add_right _ _
  obtain hc | hc := mem_append.mp hc
  · have := hfront c hc
    omega
  · obtain rfl := mem_singleton.mp hc
    omega

end

end

/-! ## The call -/

section
variable {lay : Layout} {h : Heap} {b : Block} {used l : List Block}
variable {brk : ℕ} {areas : List Block}

lemma Placed.apart_head (hh : Placed lay brk areas (b :: used) l) : ∀ c ∈ used ++ l, Apart b c :=
  (pairwise_cons.mp hh.apart).1

/-- The header of a block in use does not overlap those of the circle. -/
lemma Placed.node_apart {q : ℕ} {c : Block} (hh : Placed lay brk areas used l) (hc : c ∈ used)
    (hq : q ∈ lay.base :: addrs l) : HeadersApart c.addr q := by
  obtain rfl | hq := mem_cons.mp hq
  · exact .inr (hh.base_lt (mem_append_left l hc))
  obtain ⟨d, hd, rfl⟩ := mem_map.mp hq
  refine hh.headersApart (mem_append_left l hc) (mem_append_right used hd) ?_
  exact (pairwise_append.mp hh.apart).2.2 c hc d hd

/-- The headers of the circle do not overlap. -/
lemma Placed.nodes_apart {q q' : ℕ} (hh : Placed lay brk areas used l)
    (hq : q ∈ lay.base :: addrs l) (hq' : q' ∈ lay.base :: addrs l) (hne : q ≠ q') :
    HeadersApart q q' := by
  have hin : ∀ c ∈ l, c ∈ used ++ l := fun c hc => mem_append_right used hc
  obtain rfl | hq := mem_cons.mp hq
  · obtain rfl | hq' := mem_cons.mp hq'
    · exact absurd rfl hne
    obtain ⟨d, hd, rfl⟩ := mem_map.mp hq'
    exact .inl (hh.base_lt (hin d hd))
  obtain ⟨c, hc, rfl⟩ := mem_map.mp hq
  obtain rfl | hq' := mem_cons.mp hq'
  · exact .inr (hh.base_lt (hin c hc))
  obtain ⟨d, hd, rfl⟩ := mem_map.mp hq'
  refine hh.headersApart (hin c hc) (hin d hd) ?_
  have hpair := (pairwise_append.mp hh.apart).2.1
  exact hpair.forall hc hd fun heq => hne (congrArg Block.addr heq)

lemma Placed.insert {front mid back : List Block} {c : Block}
    (hh : Placed lay brk areas (b :: used) (front ++ (mid ++ back))) (hc : Grown b mid c)
    (hfront : ∀ d ∈ front, d.fin < c.addr) (hback : ∀ d ∈ back, c.fin < d.addr) :
    Placed lay brk areas used (front ++ ([c] ++ back)) := by
  have hpos : ∀ d ∈ b :: used ++ (front ++ (mid ++ back)), 0 < d.size := fun d hd =>
    (hh.inside d hd).2.2
  have hcpos : 0 < c.size := by
    have := hpos b (by simp)
    rw [hc.size]
    omega
  refine hh.replace ?_ ?_ ?_ ?_ ?_
  · obtain ⟨hf, hmb, hcross⟩ := pairwise_append.mp hh.spaced
    obtain ⟨_, hb, _⟩ := pairwise_append.mp hmb
    refine pairwise_append.mpr ⟨hf, pairwise_cons.mpr ⟨hback, hb⟩, ?_⟩
    intro d hd e he
    obtain rfl | he := mem_cons.mp he
    · exact hfront d hd
    · exact hcross d hd e (mem_append_right mid he)
  · have hused := (pairwise_cons.mp (pairwise_append.mp hh.apart).1).2
    refine pairwise_append.mpr ⟨hused, pairwise_singleton _ _, fun u hu => ?_⟩
    have hupos := hpos u (by simp [hu])
    refine (apart_all_iff hupos (by simpa using hcpos)).mpr fun a ha hcov => ?_
    have hca : b.Has a ∨ Covers mid a := (hc.has a).mp (by simpa using hcov)
    have hmids : ∀ d ∈ b :: mid, Apart u d := by
      intro d hd
      obtain rfl | hd := mem_cons.mp hd
      · exact (hh.apart_head u (by simp [hu])).symm
      · exact (pairwise_append.mp hh.apart).2.2 u (by simp [hu]) d (by simp [hd])
    have hmidpos : ∀ d ∈ b :: mid, 0 < d.size := by
      intro d hd
      obtain rfl | hd := mem_cons.mp hd
      · exact hpos d (by simp)
      · exact hpos d (by simp [hd])
    exact (apart_all_iff hupos hmidpos).mp hmids a ha (by simpa using hca)
  · intro d hd
    obtain hd | hd := mem_append.mp hd
    · exact hpos d (by simp [hd])
    obtain rfl := mem_singleton.mp hd
    exact hcpos
  · simp only [total_append, total_cons, total_nil, hc.size]
    omega
  intro a
  simp only [covers_append, covers_cons, covers_nil, or_false, hc.has]
  tauto

lemma Holds.inserted (hh : Holds lay h (b :: used) l) {l₁ l₂ : List Block} (hl : l = l₁ ++ l₂)
    (hbelow : ∀ c ∈ l₁, c.fin ≤ b.addr) (habove : ∀ c ∈ l₂, b.fin ≤ c.addr) {pre : List ℕ} {p : ℕ}
    (hlast : lay.base :: addrs l₁ = pre ++ [p]) :
    ∃ l', Holds lay { h with mem := joinLower (joinUpper h.mem b.addr p) b.addr p, freep := p }
      used l' ∧ ∃ c ∈ l', b.size ≤ c.size := by
  obtain ⟨hplaced, hlisted⟩ := hh
  subst hl
  have hpmem : p ∈ lay.base :: addrs (l₁ ++ l₂) := by
    rw [addrs_append, ← cons_append, hlast]
    simp
  have hbase : lay.base < b.addr := by
    have := hplaced.base_lt (b := b) (by simp)
    unfold HEADER at this
    omega
  have hnode : ∀ q ∈ lay.base :: addrs (l₁ ++ l₂), HeadersApart b.addr q := fun q hq =>
    hplaced.node_apart mem_cons_self hq
  have hmem₁ : ∀ c ∈ l₁, c.addr ∈ lay.base :: addrs (l₁ ++ l₂) := fun c hc =>
    mem_cons_of_mem _ (mem_map_of_mem (mem_append_left l₂ hc))
  have hmem₂ : ∀ c ∈ l₂, c.addr ∈ lay.base :: addrs (l₁ ++ l₂) := fun c hc =>
    mem_cons_of_mem _ (mem_map_of_mem (mem_append_right l₁ hc))
  have hfin : ∀ c ∈ b :: used ++ (l₁ ++ l₂), c.fin < 2 ^ 32 := fun c hc =>
    (hplaced.inside c hc).2.1.trans_lt hplaced.brk_lt
  have hspaced := pairwise_append.mp hplaced.spaced
  have hlinked : Linked (ptr h.mem) (pre ++ p :: (addrs l₂ ++ [lay.base])) := by
    have := hlisted.circle.linked
    rwa [addrs_append, append_assoc, ← cons_append, hlast, append_assoc] at this
  have hfin₂ : ∀ c ∈ b :: l₂, c.fin < 2 ^ 32 := by
    intro c hc
    obtain rfl | hc := mem_cons.mp hc
    · exact hfin c (by simp)
    · exact hfin c (by simp [hc])
  -- the blocks above
  obtain ⟨mid, back, c₁, rfl, hc₁, hgrown₁, hback, hhead, hsize₁, hfin₁⟩ :=
    exists_upper (hlisted.sizes b (by simp)) (fun c hc => hlisted.sizes c (by simp [hc]))
      hspaced.2.1 habove (linked_append_cons.mp hlinked).2 hbase hfin₂ (hnode p hpmem)
      (fun c hc => hnode _ (hmem₂ c hc))
  have hkeep₁ : ∀ q, HeadersApart b.addr q → ptr (joinUpper h.mem b.addr p) q = ptr h.mem q ∧
      size (joinUpper h.mem b.addr p) q = size h.mem q := fun q hq => joinUpper_of_apart hq
  generalize joinUpper h.mem b.addr p = m₁ at *
  -- the blocks below
  have hlower := exists_lower (by rw [hc₁, hsize₁])
    (fun c hc => by rw [(hkeep₁ _ (hnode _ (hmem₁ c hc))).2, hlisted.sizes c (by simp [hc])])
    hspaced.1 (by rwa [hc₁]) (by rwa [hc₁])
    (by rw [(hkeep₁ _ (hnode _ mem_cons_self)).2, hlisted.base_size]) hfin₁ hlast
    (by rw [hc₁]; exact (hnode p hpmem).symm)
  rw [hc₁] at hlower
  obtain ⟨front, mid', c₂, rfl, hgrown₂, hfront, hfin₂, hsize₂, hcases⟩ := hlower
  have hkeep₂ : ∀ q, HeadersApart p q → ptr (joinLower m₁ b.addr p) q = ptr m₁ q ∧
      size (joinLower m₁ b.addr p) q = size m₁ q := fun q hq => joinLower_of_apart hq
  generalize joinLower m₁ b.addr p = m₂ at *
  have hgrown : Grown b (mid' ++ mid) c₂ := by
    refine ⟨?_, fun a => ?_⟩
    · rw [hgrown₂.size, hgrown₁.size, total_append]
      omega
    · rw [hgrown₂.has, hgrown₁.has, covers_append]
      tauto
  have hold : front ++ mid' ++ (mid ++ back) = front ++ ((mid' ++ mid) ++ back) := by simp
  rw [hold] at hplaced
  have hnew := hplaced.insert hgrown hfront fun d hd => by
    rw [hfin₂]
    exact hback d hd
  refine ⟨front ++ ([c₂] ++ back), ⟨hnew, ?_⟩, c₂, by simp, by rw [hgrown.size]; omega⟩
  rw [hold] at hlisted hpmem hnode
  have hr : lay.base :: addrs (front ++ ((mid' ++ mid) ++ back)) =
      pre ++ p :: (addrs mid ++ addrs back) := by
    rw [← hold, addrs_append, ← cons_append, hlast]
    simp
  have hnodup := hlisted.circle.nodup
  rw [hr] at hnodup
  -- the new part of the circle, and what happens to the size at `p`
  obtain ⟨mids, hr', hmid, hsizep⟩ : ∃ mids,
      lay.base :: addrs (front ++ ([c₂] ++ back)) = pre ++ p :: (mids ++ addrs back) ∧
      Linked (ptr m₂) (p :: (mids ++ [ptr m₁ b.addr])) ∧
      (size m₂ p = size m₁ p ∨ ∀ q ∈ lay.base :: addrs (front ++ back), q ≠ p) := by
    obtain ⟨rfl, rfl, hptr, hsz⟩ | ⟨d, rfl, hd, hc₂, hptr⟩ := hcases
    · refine ⟨[b.addr], ?_, ?_, .inl hsz⟩
      · rw [append_nil] at hlast
        rw [addrs_append, ← cons_append, hlast]
        simp [hc₁]
      · have hown := (hkeep₂ _ (hnode p hpmem).symm).1
        exact linked_cons_cons.mpr ⟨hptr, linked_cons_cons.mpr ⟨hown, linked_singleton⟩⟩
    have hpre : lay.base :: addrs front = pre := by
      have : (lay.base :: addrs front) ++ [d.addr] = pre ++ [p] := by rw [← hlast]; simp
      exact (append_inj' this rfl).1
    refine ⟨[], ?_, linked_cons_cons.mpr ⟨hptr, linked_singleton⟩, .inr fun q hq => ?_⟩
    · rw [addrs_append, ← cons_append, hpre]
      simp [hc₂]
    have hnodup' : ((lay.base :: addrs front) ++ p :: addrs back).Nodup := by
      have := hnew.nodes_nodup
      simpa [hc₂] using this
    rintro rfl
    exact (nodup_cons.mp (nodup_middle.mp hnodup')).1 (by simpa using hq)
  have hne : ∀ q ∈ pre ++ addrs back, q ≠ p := by
    rintro q hq rfl
    exact (nodup_cons.mp (nodup_middle.mp hnodup)).1 (mem_of_mem_ends hq)
  have hold_mem : ∀ q ∈ pre ++ addrs back,
      q ∈ lay.base :: addrs (front ++ ((mid' ++ mid) ++ back)) := by
    intro q hq
    rw [hr, ← cons_append]
    exact mem_of_mem_ends hq
  have hkeep : ∀ q ∈ lay.base :: addrs (front ++ back), size m₂ q = size h.mem q := by
    intro q hq
    have hq' : q ∈ lay.base :: addrs (front ++ ((mid' ++ mid) ++ back)) := by
      obtain rfl | hq := mem_cons.mp hq
      · exact mem_cons_self
      rw [addrs_append] at hq
      rw [addrs_append, addrs_append (mid' ++ mid)]
      exact mem_cons_of_mem _ (mem_of_mem_ends hq)
    have hkeep := (hkeep₁ q (hnode q hq')).2
    by_cases hqp : q = p
    · obtain hsz | hno := hsizep
      · rwa [hqp, hsz, ← hqp]
      · exact absurd hqp (hno q hq)
    · rw [(hkeep₂ q (hplaced.nodes_apart hpmem hq' (Ne.symm hqp))).2, hkeep]
  refine ⟨?_, ?_, ?_, fun x hx => ?_⟩
  · refine hlisted.circle.relink hr hr' (fun q hq => ?_) hhead hmid hnew.nodes_nodup
    have hapart := hplaced.nodes_apart hpmem (hold_mem q hq) (hne q hq).symm
    rw [(hkeep₂ q hapart).1, (hkeep₁ q (hnode q (hold_mem q hq))).1]
  · rw [hr']
    simp
  · rw [hkeep _ mem_cons_self, hlisted.base_size]
  obtain hx | hx := mem_append.mp hx
  · have hbx := hplaced.headersApart (by simp) (by simp [hx]) (hplaced.apart_head x (by simp [hx]))
    have hpx := (hplaced.node_apart (mem_cons_of_mem b hx) hpmem).symm
    rw [(hkeep₂ _ hpx).2, (hkeep₁ _ hbx).2, hlisted.sizes x (by simp [hx])]
  by_cases hxc : x = c₂
  · rw [hxc, hsize₂]
  have hx' : x ∈ front ++ back := by simpa [hxc] using hx
  rw [hkeep _ (mem_cons_of_mem _ (mem_map_of_mem hx')),
    hlisted.sizes x (mem_append_right _ (mem_of_mem_ends hx'))]

lemma free_eq {n ap bp p : ℕ} (hbp : (ap + 2 ^ 32 - HEADER) % 2 ^ 32 = bp)
    (hwalk : walkTo (ptr h.mem) (between h.mem bp) n h.freep = some p) : free n ap h =
      .ok () { h with mem := joinLower (joinUpper h.mem bp p) bp p, freep := p } := by
  rw [Umalloc.free, Exec.bind_ok (x := Exec.get) rfl, hbp, hwalk]
  rfl

lemma Holds.free (hh : Holds lay h (b :: used) l) {ap : ℕ} (hap : ap = b.addr + HEADER) :
    ∃ m p l', (∀ n, l.length + 1 ≤ n → free n ap h = .ok () { h with mem := m, freep := p }) ∧
      Holds lay { h with mem := m, freep := p } used l' ∧ ∃ c ∈ l', b.size ≤ c.size := by
  have hbin := hh.placed.inside b (by simp)
  have hbrk := hh.placed.brk_lt
  have hbp : (ap + 2 ^ 32 - HEADER) % 2 ^ 32 = b.addr := by
    have : b.addr ≤ b.fin := Nat.le_add_right _ _
    unfold HEADER at *
    omega
  obtain ⟨l₁, l₂, rfl, hbelow, habove⟩ := exists_split hh.placed.spaced fun c hc =>
    hh.placed.apart_head c (mem_append_right used hc)
  obtain ⟨pre, p, hlast⟩ : ∃ pre p, lay.base :: addrs l₁ = pre ++ [p] :=
    ⟨_, _, (dropLast_append_getLast (cons_ne_nil _ _)).symm⟩
  obtain ⟨l', hl', hlarge⟩ := hh.inserted rfl hbelow habove hlast
  refine ⟨_, p, l', fun n hn => ?_, hl', hlarge⟩
  have hbpos : b.addr < b.fin := by
    simp only [Block.fin, HEADER]
    omega
  have hsorted := hh.placed.nodes_sorted
  have hnodes : lay.base :: addrs (l₁ ++ l₂) = pre ++ p :: addrs l₂ := by
    rw [addrs_append, ← cons_append, hlast]
    simp
  have hpmem : p ∈ lay.base :: addrs (l₁ ++ l₂) := by
    rw [hnodes]
    simp
  have hbase : lay.base ≤ p := by
    obtain heq | hp := mem_cons.mp hpmem
    · exact heq.ge
    · exact ((pairwise_cons.mp hsorted).1 p hp).le
  have hlow : ∀ x ∈ lay.base :: addrs l₁, x < b.addr := by
    intro x hx
    obtain rfl | hx := mem_cons.mp hx
    · have := hh.placed.base_lt (b := b) (by simp)
      unfold HEADER at this
      omega
    obtain ⟨c, hc, rfl⟩ := mem_map.mp hx
    have := hbelow c hc
    have := (hh.placed.inside c (by simp [hc])).2.2
    simp only [Block.fin, HEADER] at *
    omega
  have hgap : ∀ x ∈ lay.base :: addrs (l₁ ++ l₂), x ≤ p ∨ b.addr < x := by
    intro x hx
    rw [hnodes] at hx hsorted
    obtain hx | hx := mem_append.mp hx
    · exact .inl ((pairwise_append.mp hsorted).2.2 x hx p (by simp)).le
    obtain rfl | hx := mem_cons.mp hx
    · exact .inl le_rfl
    obtain ⟨c, hc, rfl⟩ := mem_map.mp hx
    exact .inr (hbpos.trans_le (habove c hc))
  have hiff : ∀ q ∈ lay.base :: addrs (l₁ ++ l₂), between h.mem b.addr q = true ↔ q = p :=
    fun q hq => between_iff hh.listed.circle.linked hsorted hpmem
      (hlow p (by rw [hlast]; simp)) hgap hbase hq
  have hwalk := hh.listed.circle.walkTo_eq hh.listed.freep_mem hpmem ((hiff p hpmem).mpr rfl)
      (fun q hq => (hiff q hq).mp) (by simpa [addrs] using hn)
  exact free_eq hbp hwalk

end
end Xv6.Umalloc
