import Xv6.Umalloc.Freeing

/-!
# Allocating a block

The loop of `malloc` goes once around the circle. It takes the units off the
first block that is large enough (`Holds.take`) or asks for more memory, which
`free` puts into the list; a second round then finds a block. So `malloc` ends
(`Holds.search`).
-/

namespace Xv6.Umalloc
open Xv6.Lib Exec List

section
variable {lay : Layout} {h : Heap} {used l : List Block}

/-! ## Taking units off a block -/

variable {brk n freep prevp p k nu nunits : ℕ} {areas back front : List Block} {c : Block}
  {m : ℕ → UInt8}

section
variable (hh : Placed lay brk areas used (front ++ ([c] ++ back)))
include hh

lemma Placed.remove : Placed lay brk areas (c :: used) (front ++ ([] ++ back)) := by
  have hperm := perm_append_singleton c used
  have happart : (used ++ [c]).Pairwise Apart := by
    have hsub := (List.Sublist.refl used).append
        ((sublist_append_left [c] back).trans (sublist_append_right front _))
    exact hh.apart.sublist hsub
  have hspaced := (List.Sublist.refl front).append (sublist_append_right [c] back)
  refine hh.replace (hh.spaced.sublist hspaced) ?_ ?_ ?_ fun a => ?_
  · rw [append_nil]
    exact (hperm.pairwise_iff Apart.symm).mp happart
  · intro b hb
    refine (hh.inside b ?_).2.2
    simp only [append_nil, mem_cons] at hb
    obtain rfl | hb := hb
    · simp
    · simp [hb]
  · rw [append_nil]
    exact (total_perm hperm).symm
  · rw [append_nil]
    exact (covers_perm hperm a).symm

lemma Placed.shrink (hn : 0 < n)
    (hlt : n < c.size) : Placed lay brk areas (⟨c.addr + HEADER * (c.size - n), n⟩ :: used)
      (front ++ ([⟨c.addr, c.size - n⟩] ++ back)) := by
  have hhas : ∀ a, c.Has a ↔ Block.Has ⟨c.addr, c.size - n⟩ a ∨
      Block.Has ⟨c.addr + HEADER * (c.size - n), n⟩ a := by
    intro a
    simp only [Block.Has, Block.fin, HEADER]
    omega
  have hcross : ∀ u ∈ used, Apart u c := fun u hu =>
    (pairwise_append.mp hh.apart).2.2 u hu c (by simp)
  have hused := (pairwise_append.mp hh.apart).1
  refine hh.replace ?_ ?_ ?_ ?_ fun a => ?_
  · obtain ⟨hf, hcb, hfc⟩ := pairwise_append.mp hh.spaced
    obtain ⟨hc, hb⟩ := pairwise_cons.mp hcb
    refine pairwise_append.mpr ⟨hf, pairwise_cons.mpr ⟨fun d hd => ?_, hb⟩, ?_⟩
    · have := hc d hd
      simp only [Block.fin, HEADER] at this ⊢
      omega
    intro d hd e he
    obtain rfl | he := mem_cons.mp he
    · exact hfc d hd c (by simp)
    · exact hfc d hd e (mem_cons_of_mem c he)
  · rw [cons_append]
    refine pairwise_cons.mpr ⟨fun u hu => ?_, pairwise_append.mpr
      ⟨hused, pairwise_singleton _ _, fun u hu d hd => ?_⟩⟩
    · obtain hu | hu := mem_append.mp hu
      · have := hcross u hu
        simp only [Apart, Block.fin, HEADER] at this ⊢
        omega
      obtain rfl := mem_singleton.mp hu
      simp only [Apart, Block.fin, HEADER]
      omega
    obtain rfl := mem_singleton.mp hd
    have := hcross u hu
    simp only [Apart, Block.fin, HEADER] at this ⊢
    omega
  · intro b hb
    simp only [cons_append, mem_cons, mem_append, not_mem_nil, or_false] at hb
    obtain rfl | hb | rfl := hb
    · exact hn
    · exact (hh.inside b (by simp [hb])).2.2
    · exact Nat.sub_pos_of_lt hlt
  · simp only [cons_append, total_cons, total_append, total_nil]
    omega
  · simp only [cons_append, covers_cons, covers_append, covers_nil, or_false, hhas]
    tauto

end

/-- The block that a node points to, unless it points to `base`. -/
lemma Listed.exists_split (hl : Listed lay m freep used l) (hprev : prevp ∈ lay.base :: addrs l)
    (hne : ptr m prevp ≠ lay.base) :
    ∃ front c back pre, l = front ++ ([c] ++ back) ∧ c.addr = ptr m prevp ∧
      lay.base :: addrs front = pre ++ [prevp] := by
  obtain ⟨pre, post, hnodes⟩ := append_of_mem hprev
  have hlinked := hl.circle.linked
  rw [← cons_append, hnodes, append_assoc, cons_append] at hlinked
  rcases post with _ | ⟨y, post⟩
  · exact absurd hlinked.next_eq hne
  have hnext : ptr m prevp = y := hlinked.next_eq
  obtain ⟨z, pre', hpre⟩ : ∃ z pre', pre ++ [prevp] = z :: pre' := exists_cons_of_ne_nil (by simp)
  have hsplit : lay.base :: addrs l = z :: (pre' ++ y :: post) := by
    rw [hnodes, ← cons_append, ← hpre]
    simp
  obtain ⟨rfl, hrest⟩ := List.cons.inj hsplit
  obtain ⟨front, l', rfl, hfront, hl'⟩ := map_eq_append_iff.mp hrest
  obtain ⟨c, back, rfl, hc, _⟩ := map_eq_cons_iff.mp hl'
  exact ⟨front, c, back, pre, rfl, hc.trans hnext.symm, by rw [hpre, ← hfront]; rfl⟩

lemma Listed.head_eq (hl : Listed lay m freep used (front ++ ([c] ++ back))) :
    (addrs back ++ [lay.base]).head? = some (ptr m c.addr) := by
  have hlinked := hl.circle.linked
  rw [addrs_append, addrs_append, ← cons_append, ← cons_append, append_assoc,
    append_assoc] at hlinked
  cases back with
  | nil | cons d back => simpa using (Linked.next_eq hlinked).symm

section
variable (hp : Placed lay brk areas used (front ++ ([c] ++ back)))
include hp

section
variable (hl : Listed lay m freep used (front ++ ([c] ++ back)))
include hl

lemma Listed.remove {pre : List ℕ} (hpre : lay.base :: addrs front = pre ++ [prevp]) :
    Listed lay (setPtr m prevp (ptr m c.addr)) prevp (c :: used) (front ++ ([] ++ back)) := by
  have hr : lay.base :: addrs (front ++ ([c] ++ back)) =
      pre ++ prevp :: ([c.addr] ++ addrs back) := by
    rw [addrs_append, ← cons_append, hpre]
    simp
  have hr' : lay.base :: addrs (front ++ ([] ++ back)) = pre ++ prevp :: ([] ++ addrs back) := by
    rw [addrs_append, ← cons_append, hpre]
    simp
  have hprev : prevp ∈ lay.base :: addrs (front ++ ([c] ++ back)) := by
    rw [hr]
    simp
  have hnodup := hl.circle.nodup
  rw [hr] at hnodup
  have hne := (nodup_cons.mp (nodup_middle.mp hnodup)).1
  have hsize : ∀ q, q ∈ lay.base :: addrs (front ++ ([c] ++ back)) →
      size (setPtr m prevp (ptr m c.addr)) q = size m q := by
    intro q hq
    by_cases hqp : prevp = q
    · rw [hqp, size_setPtr_self]
    · exact size_setPtr_of_apart _ _ (hp.nodes_apart hprev hq hqp)
  refine ⟨?_, ?_, ?_, fun x hx => ?_⟩
  · refine hl.circle.relink hr hr' (fun q hq => ptr_setPtr_of_apart _ _ ?_) hl.head_eq
      (linked_cons_cons.mpr ⟨ptr_setPtr _ _ (ptr_lt _), linked_singleton⟩) hp.remove.nodes_nodup
    refine hp.nodes_apart hprev ?_ ?_
    · rw [hr, ← cons_append]
      exact mem_of_mem_ends hq
    · rintro rfl
      exact hne (mem_of_mem_ends hq)
  · rw [hr']
    simp
  · rw [hsize _ mem_cons_self, hl.base_size]
  have hx' : x ∈ used ++ (front ++ ([c] ++ back)) := by
    simp only [cons_append, mem_cons, mem_append, nil_append] at hx ⊢
    tauto
  rw [← hl.sizes x hx']
  obtain hu | hfree := mem_append.mp hx'
  · exact size_setPtr_of_apart _ _ (hp.node_apart hu hprev).symm
  · exact hsize _ (mem_cons_of_mem _ (mem_map_of_mem hfree))

lemma Listed.shrink (hprev : prevp ∈ lay.base :: addrs (front ++ ([c] ++ back))) (hn : 0 < n)
    (hlt : n < c.size) :
    Listed lay (setSize (setSize m c.addr (c.size - n)) (c.addr + HEADER * (c.size - n)) n) prevp
      (⟨c.addr + HEADER * (c.size - n), n⟩ :: used)
      (front ++ ([⟨c.addr, c.size - n⟩] ++ back)) := by
  have hnew := hp.shrink hn hlt
  have hfin := (hp.inside c (by simp)).2.1.trans_lt hp.brk_lt
  have hcsize := Block.size_lt hfin
  have hsame : addrs (front ++ ([⟨c.addr, c.size - n⟩] ++ back)) =
      addrs (front ++ ([c] ++ back)) := by simp
  have hcmem : c.addr ∈ lay.base :: addrs (front ++ ([c] ++ back)) := by simp
  have htail : ∀ q ∈ lay.base :: addrs (front ++ ([c] ++ back)),
      HeadersApart (c.addr + HEADER * (c.size - n)) q := by
    intro q hq
    rw [← hsame] at hq
    exact hnew.node_apart mem_cons_self hq
  have hkeep : ∀ q ∈ lay.base :: addrs (front ++ ([c] ++ back)), q ≠ c.addr →
      size (setSize (setSize m c.addr (c.size - n)) (c.addr + HEADER * (c.size - n)) n) q =
        size m q := by
    intro q hq hqc
    rw [size_setSize_of_apart _ _ (htail q hq),
      size_setSize_of_apart _ _ (hp.nodes_apart hcmem hq (Ne.symm hqc))]
  have hother : ∀ x ∈ front ++ back,
      size (setSize (setSize m c.addr (c.size - n)) (c.addr + HEADER * (c.size - n)) n) x.addr =
        x.size := by
    intro x hx
    have hx' : x ∈ front ++ ([c] ++ back) := mem_of_mem_ends hx
    rw [hkeep _ (mem_cons_of_mem _ (mem_map_of_mem hx')), hl.sizes x (mem_append_right used hx')]
    intro heq
    have hnodup : ((lay.base :: addrs front) ++ c.addr :: addrs back).Nodup := by
      simpa using hp.nodes_nodup
    refine (nodup_cons.mp (nodup_middle.mp hnodup)).1 ?_
    rw [← heq, cons_append, ← addrs_append]
    exact mem_cons_of_mem _ (mem_map_of_mem hx)
  refine ⟨?_, ?_, ?_, fun x hx => ?_⟩
  · rw [hsame]
    refine hl.circle.congr fun q hq => ?_
    rw [ptr_setSize_of_apart _ _ (htail q hq)]
    by_cases hqc : c.addr = q
    · rw [hqc, ptr_setSize_self]
    · exact ptr_setSize_of_apart _ _ (hp.nodes_apart hcmem hq hqc)
  · rwa [hsame]
  · rw [hkeep _ mem_cons_self, hl.base_size]
    have := hp.base_lt (b := c) (by simp)
    unfold HEADER at this
    omega
  simp only [cons_append, mem_cons, mem_append, nil_append] at hx
  obtain rfl | hu | hf | rfl | hb := hx
  · exact size_setSize _ _ (hlt.trans hcsize)
  · have happ := hnew.headersApart (by simp) (by simp [hu]) (hnew.apart_head x (by simp [hu]))
    rw [size_setSize_of_apart _ _ happ,
      size_setSize_of_apart _ _ (hp.node_apart hu hcmem).symm, hl.sizes x (by simp [hu])]
  · exact hother x (mem_append_left back hf)
  · rw [size_setSize_of_apart _ _ (htail _ hcmem)]
    exact size_setSize _ _ (by omega)
  · exact hother x (mem_append_right front hb)

end

end

lemma take_whole (hs : size h.mem p = n) : take n prevp p h =
    .ok (padd p 1) { h with mem := setPtr h.mem prevp (ptr h.mem p), freep := prevp } := by
  change (if size h.mem p = n then _ else _ : Code ℕ) h = _
  rw [if_pos hs]
  rfl

lemma take_end {q : ℕ} (hs : size h.mem p ≠ n)
    (hq : padd p (size (setSize h.mem p (size h.mem p - n)) p) = q) : take n prevp p h =
    .ok (padd q 1)
      { h with mem := setSize (setSize h.mem p (size h.mem p - n)) q n, freep := prevp } := by
  change (if size h.mem p = n then _ else _ : Code ℕ) h = _
  rw [if_neg hs, ← hq]
  rfl

lemma Holds.take (hh : Holds lay h used l) (hn : 0 < n) (hprev : prevp ∈ lay.base :: addrs l)
    (hfit : n ≤ size h.mem (ptr h.mem prevp)) : ∃ b m l', take n prevp (ptr h.mem prevp) h =
        .ok (b.addr + HEADER) { h with mem := m, freep := prevp } ∧ b.size = n ∧
      Holds lay { h with mem := m, freep := prevp } (b :: used) l' := by
  obtain ⟨hplaced, hlisted⟩ := hh
  have hne : ptr h.mem prevp ≠ lay.base := by
    intro heq
    rw [heq, hlisted.base_size] at hfit
    omega
  obtain ⟨front, c, back, pre, rfl, hc, hpre⟩ := hlisted.exists_split hprev hne
  have hcsize := hlisted.sizes c (by simp)
  rw [← hc, hcsize] at hfit
  have hcin := hplaced.inside c (by simp)
  have hbrk := hplaced.brk_lt
  have hfin : c.fin = c.addr + 8 * c.size := rfl
  obtain heq | hlt := hfit.eq_or_lt
  · refine ⟨c, setPtr h.mem prevp (ptr h.mem c.addr), _, ?_, heq.symm, hplaced.remove,
      hlisted.remove hplaced hpre⟩
    rw [← hc, take_whole (hcsize.trans heq.symm), padd, Nat.mod_eq_of_lt (by unfold HEADER; omega),
      Nat.mul_one]
  refine ⟨⟨c.addr + HEADER * (c.size - n), n⟩,
    setSize (setSize h.mem c.addr (c.size - n)) (c.addr + HEADER * (c.size - n)) n, _, ?_, rfl,
    hplaced.shrink hn hlt, hlisted.shrink hplaced hprev hn hlt⟩
  have hq : padd c.addr (size (setSize h.mem c.addr (size h.mem c.addr - n)) c.addr) =
      c.addr + HEADER * (c.size - n) := by
    rw [hcsize, size_setSize _ _ (by omega), padd, Nat.mod_eq_of_lt (by unfold HEADER; omega)]
  rw [← hc, take_end (by omega) hq, hcsize, padd, Nat.mod_eq_of_lt (by unfold HEADER; omega),
    Nat.mul_one]

/-! ## More memory -/

section
variable (hh : Holds lay h used l)
include hh

lemma Holds.freep_ne_zero : h.freep ≠ 0 := by
  have hpos := lay.pos
  obtain heq | hmem := mem_cons.mp hh.listed.freep_mem
  · omega
  have := (pairwise_cons.mp hh.placed.nodes_sorted).1 _ hmem
  omega

/-- A failed call of `sbrk` changes nothing that matters. -/
lemma Holds.calls (k : ℕ) : Holds lay { h with calls := k } used l := ⟨hh.placed, hh.listed⟩

lemma Holds.grown (hnu : 0 < nu) (hbrk : h.brk + HEADER * nu < 2 ^ 32) :
    Holds lay ⟨setSize h.mem h.brk nu, h.freep, h.brk + HEADER * nu, k,
      h.areas ++ [⟨h.brk, nu⟩]⟩ (⟨h.brk, nu⟩ :: used) l := by
  obtain ⟨hplaced, hlisted⟩ := hh
  have hstart := hplaced.start_le
  have hbelow := lay.below
  have hgrows : h.brk ≤ h.brk + HEADER * nu := Nat.le_add_right _ _
  have hkeep : ∀ q, q + HEADER ≤ h.brk → size (setSize h.mem h.brk nu) q = size h.mem q ∧
      ptr (setSize h.mem h.brk nu) q = ptr h.mem q := fun q hq =>
    ⟨size_setSize_of_apart _ _ (.inr hq), ptr_setSize_of_apart _ _ (.inr hq)⟩
  have hheader : ∀ b ∈ used ++ l, b.addr + HEADER ≤ h.brk := by
    intro b hb
    have := hplaced.inside b hb
    simp only [Block.fin, HEADER] at this ⊢
    omega
  refine ⟨⟨hplaced.spaced, ?_, fun b hb => ?_, fun b hb => ?_, hbrk, hstart.trans hgrows, ?_,
    fun a => ?_⟩,
    ⟨?_, hlisted.freep_mem, ?_, fun b hb => ?_⟩⟩
  · refine pairwise_cons.mpr ⟨fun b hb => .inr (hplaced.inside b hb).2.1, hplaced.apart⟩
  · obtain rfl | hb := mem_cons.mp hb
    · exact ⟨hstart, le_rfl, hnu⟩
    have := hplaced.inside b hb
    exact ⟨this.1, this.2.1.trans hgrows, this.2.2⟩
  · obtain hb | hb := mem_append.mp hb
    · have := hplaced.below b hb
      exact ⟨this.1, this.2.trans hgrows⟩
    · obtain rfl := mem_singleton.mp hb
      exact ⟨hstart, le_rfl⟩
  · simp only [total_append, total_cons, total_nil, cons_append]
    have := hplaced.units
    rw [total_append] at this
    omega
  · simp only [covers_append, covers_cons, covers_nil, or_false, cons_append]
    rw [hplaced.covers a, covers_append]
    tauto
  · refine hlisted.circle.congr fun q hq => (hkeep q ?_).2
    obtain rfl | hq := mem_cons.mp hq
    · omega
    obtain ⟨b, hb, rfl⟩ := mem_map.mp hq
    exact hheader b (mem_append_right used hb)
  · rw [(hkeep _ (by omega)).1, hlisted.base_size]
  obtain rfl | hb := mem_cons.mp hb
  · exact size_setSize _ _ (by unfold HEADER at hbrk; omega)
  · rw [(hkeep _ (hheader b hb)).1, hlisted.sizes b hb]

end

variable (grant : ℕ → Bool)

lemma sbrk_eq (h0 : 0 < k) (h1 : k < 2 ^ 31) : sbrk grant k h =
    if grant h.calls ∧ h.brk + k < 2 ^ 31 then
      .ok h.brk { h with
        brk := h.brk + k
        calls := h.calls + 1
        areas := h.areas ++ [⟨h.brk, k / HEADER⟩] }
    else .ok (2 ^ 32 - 1) { h with calls := h.calls + 1 } := by
  change (if k = 0 then _ else if k < 2 ^ 31 then
    if grant h.calls ∧ h.brk + k < 2 ^ 31 then _ else _ else _ : Code ℕ) _ = _
  rw [if_neg (Nat.ne_of_gt h0), if_pos h1]
  split <;> rfl

lemma morecore_eq {n p : ℕ} {h₁ h₂ : Heap} (hk : (if nu < 4096 then 4096 else nu) = k)
    (hsbrk : sbrk grant (k * HEADER % 2 ^ 32) h = .ok p h₁) (hp : p ≠ 2 ^ 32 - 1)
    (hpage : p + HEADER ≤ h₁.pageEnd)
    (hfree : free n (padd p 1) { h₁ with mem := setSize h₁.mem p k } = .ok () h₂) :
    morecore grant n nu h = .ok h₂.freep h₂ := by
  unfold morecore
  simp only [hk]
  rw [bind_ok hsbrk, if_neg hp]
  change (stopIf (h₁.pageEnd < p + HEADER) _ >>= fun _ => _ : Code ℕ) _ = _
  rw [stopIf, if_neg (Nat.not_lt.mpr hpage)]
  change (free n (padd p 1) >>= fun _ => _ : Code ℕ) _ = _
  rw [bind_ok hfree]
  rfl

/-- More memory, or the answer that there is none. -/
lemma Holds.morecore (hh : Holds lay h used l) (hnu : nu < 2 ^ 28) :
    ∃ r h' l', (∀ n, l.length + 1 ≤ n → morecore grant n nu h = .ok r h') ∧
      Holds lay h' used l' ∧ (r = 0 ∨ (r ≠ 0 ∧ r = h'.freep ∧ ∃ c ∈ l', nu ≤ c.size)) := by
  obtain ⟨k, hk, hk'⟩ : ∃ k, (if nu < 4096 then 4096 else nu) = k ∧ k < 2 ^ 28 ∧
      0 < k ∧ nu ≤ k := ⟨_, rfl, by split <;> omega, by split <;> omega, by split <;> omega⟩
  have hbytes : k * HEADER % 2 ^ 32 = HEADER * k := by
    unfold HEADER
    omega
  have hsbrk : sbrk grant (HEADER * k) h = _ :=
    sbrk_eq grant (by unfold HEADER; omega) (by unfold HEADER; omega)
  by_cases hgrant : grant h.calls = true ∧ h.brk + HEADER * k < 2 ^ 31
  · rw [if_pos hgrant, Nat.mul_div_cancel_left k (by decide)] at hsbrk
    have hlow : h.brk ≠ 2 ^ 32 - 1 := by
      unfold HEADER at hgrant
      omega
    have hap : padd h.brk 1 = h.brk + HEADER := by
      rw [padd, Nat.mul_one, Nat.mod_eq_of_lt]
      unfold HEADER at hgrant ⊢
      omega
    obtain ⟨m, p, l', hfree, hh', c, hc, hck⟩ := (hh.grown hk'.2.1 (by omega)).free hap
    have hp : p ≠ 0 := hh'.freep_ne_zero
    refine ⟨p, _, l', fun n hn => ?_, hh', .inr ⟨hp, rfl, c, hc, hk'.2.2.trans hck⟩⟩
    refine morecore_eq grant hk (by rw [hbytes]; exact hsbrk) hlow ?_ (hfree n hn)
    simp only [Heap.pageEnd, HEADER]
    omega
  rw [if_neg hgrant] at hsbrk
  refine ⟨0, _, l, fun n _ => ?_, hh.calls (h.calls + 1), .inl rfl⟩
  unfold Umalloc.morecore
  simp only [hk, hbytes]
  rw [bind_ok hsbrk, if_pos rfl]
  rfl

/-! ## The loop of `malloc` -/

/-- What the loop does when it is back at `freep`. -/
def refill (nunits n : ℕ) : Code ℕ := do
  let q ← morecore grant n nunits
  if q = 0 then pure 0
  else
    let s ← Exec.get
    search grant nunits n q (ptr s.mem q)

lemma search_succ (nunits n prevp p : ℕ) : search grant nunits (n + 1) prevp p h =
    if nunits ≤ size h.mem p then Umalloc.take nunits prevp p h
    else if p = h.freep then refill grant nunits n h
    else search grant nunits n p (ptr h.mem p) h := by
  change (if nunits ≤ size h.mem p then Umalloc.take nunits prevp p
    else if p = h.freep then refill grant nunits n
    else search grant nunits n p (ptr h.mem p) : Code ℕ) h = _
  split
  · rfl
  · split <;> rfl

lemma search_round (nunits : ℕ) {prevp : ℕ} {path : List ℕ}
    (hlinked : Linked (ptr h.mem) (prevp :: (path ++ [h.freep])))
    (hpath : ∀ x ∈ path, x ≠ h.freep) :
    (∃ q ∈ prevp :: path, nunits ≤ size h.mem (ptr h.mem q) ∧ ∀ n, path.length + 1 ≤ n →
      search grant nunits n prevp (ptr h.mem prevp) h = Umalloc.take nunits q (ptr h.mem q) h) ∨
    ((∀ x ∈ path ++ [h.freep], size h.mem x < nunits) ∧ ∀ n,
      search grant nunits (n + path.length + 1) prevp (ptr h.mem prevp) h =
        refill grant nunits n h) := by
  induction path generalizing prevp with
  | nil =>
    have hnext := (linked_cons_cons.mp hlinked).1
    by_cases hfit : nunits ≤ size h.mem h.freep
    · refine .inl ⟨prevp, mem_cons_self, by rwa [hnext], fun n hn => ?_⟩
      obtain ⟨n, rfl⟩ : ∃ k, n = k + 1 := ⟨n - 1, by simp at hn; omega⟩
      rw [search_succ, hnext, if_pos hfit]
    · refine .inr ⟨by simpa using hfit, fun n => ?_⟩
      rw [length_nil, Nat.add_zero, search_succ, hnext, if_neg hfit, if_pos rfl]
  | cons y path ih =>
    obtain ⟨hnext, hrest⟩ := linked_cons_cons.mp hlinked
    by_cases hfit : nunits ≤ size h.mem y
    · refine .inl ⟨prevp, mem_cons_self, by rwa [hnext], fun n hn => ?_⟩
      obtain ⟨n, rfl⟩ : ∃ k, n = k + 1 := ⟨n - 1, by simp at hn; omega⟩
      rw [search_succ, hnext, if_pos hfit]
    have hy := hpath y mem_cons_self
    have hgo : ∀ n, search grant nunits (n + 1) prevp (ptr h.mem prevp) h =
        search grant nunits n y (ptr h.mem y) h := fun n => by
      rw [search_succ, hnext, if_neg hfit, if_neg hy]
    obtain ⟨q, hq, hqfit, hsearch⟩ | ⟨hnone, hsearch⟩ :=
      ih hrest fun x hx => hpath x (mem_cons_of_mem y hx)
    · refine .inl ⟨q, mem_cons_of_mem _ hq, hqfit, fun n hn => ?_⟩
      obtain ⟨n, rfl⟩ : ∃ k, n = k + 1 := ⟨n - 1, by simp at hn; omega⟩
      rw [hgo, hsearch n (by simpa using hn)]
    refine .inr ⟨?_, fun n => ?_⟩
    · intro x hx
      obtain rfl | hx := mem_cons.mp hx
      · omega
      · exact hnone x hx
    · rw [length_cons, ← Nat.add_assoc, hgo, hsearch n]

/-- What a call of `malloc` leaves: nothing taken, or a block for the caller. -/
inductive Taken (lay : Layout) (used : List Block) (nunits : ℕ) : ℕ → Heap → Prop
  | none {h : Heap} {l : List Block} (hh : Holds lay h used l) : Taken lay used nunits 0 h
  | some {h : Heap} {l : List Block} {b : Block} (hh : Holds lay h (b :: used) l)
      (hb : b.size = nunits) : Taken lay used nunits (b.addr + HEADER) h

/-- A round of the loop takes a block if there is one. -/
lemma Holds.round (hh : Holds lay h used l) (hn : 0 < nunits) :
    (∃ r h', Taken lay used nunits r h' ∧ ∀ n, l.length + 1 ≤ n →
      search grant nunits n h.freep (ptr h.mem h.freep) h = .ok r h') ∨
    ((∀ c ∈ l, c.size < nunits) ∧ ∀ n,
      search grant nunits (n + l.length + 1) h.freep (ptr h.mem h.freep) h =
        refill grant nunits n h) := by
  obtain ⟨path, hcircle, hmem, hlen⟩ := hh.listed.circle.at_mem hh.listed.freep_mem
  have hlen' : path.length = l.length := by rw [hlen, addrs, length_map]
  have hpath : ∀ x ∈ path, x ≠ h.freep := by
    rintro x hx rfl
    exact (nodup_cons.mp hcircle.nodup).1 hx
  obtain ⟨q, hq, hfit, hsearch⟩ | ⟨hnone, hsearch⟩ := search_round grant nunits hcircle.linked hpath
  · obtain ⟨b, m, l', htake, hb, hh'⟩ := hh.take hn ((hmem q).mp hq) hfit
    refine .inl ⟨_, _, .some hh' hb, fun n hn => ?_⟩
    rw [hsearch n (by omega), htake]
  refine .inr ⟨fun c hc => ?_, fun n => ?_⟩
  · have hc' := (hmem c.addr).mpr (mem_cons_of_mem _ (mem_map_of_mem hc))
    have := hnone c.addr (by
      obtain heq | hin := mem_cons.mp hc'
      · simp [heq]
      · simp [hin])
    rwa [hh.listed.sizes c (mem_append_right used hc)] at this
  · rw [← hlen', hsearch n]

lemma Holds.search (hh : Holds lay h used l) (hn : 0 < nunits) (hn' : nunits < 2 ^ 28) :
    ∃ k r h', Taken lay used nunits r h' ∧ ∀ n, k ≤ n →
      search grant nunits n h.freep (ptr h.mem h.freep) h = .ok r h' := by
  obtain ⟨r, h', htaken, hsearch⟩ | ⟨_, hsearch⟩ := hh.round grant hn
  · exact ⟨_, r, h', htaken, hsearch⟩
  obtain ⟨r, h₁, l₁, hmore, hh₁, rfl | ⟨hr, hfreep, c, hc, hfit⟩⟩ := hh.morecore grant hn'
  · refine ⟨2 * l.length + 2, 0, h₁, .none hh₁, fun n hn => ?_⟩
    obtain ⟨k, rfl⟩ : ∃ k, n = k + l.length + 1 := ⟨n - l.length - 1, by omega⟩
    rw [hsearch, refill, bind_ok (hmore k (by omega)), if_pos rfl]
    rfl
  -- the block that was added is large enough for the second round
  obtain ⟨r', h', htaken, hsearch'⟩ | ⟨hnone, _⟩ := hh₁.round grant hn
  · refine ⟨2 * l.length + l₁.length + 2, r', h', htaken, fun n hn => ?_⟩
    obtain ⟨k, rfl⟩ : ∃ k, n = k + l.length + 1 := ⟨n - l.length - 1, by omega⟩
    rw [hsearch, refill, bind_ok (hmore k (by omega)), if_neg hr, hfreep]
    exact hsearch' k (by omega)
  · exact absurd (hnone c hc) (by omega)

end
end Xv6.Umalloc
