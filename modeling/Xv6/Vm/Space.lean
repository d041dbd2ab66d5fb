import Mathlib.Algebra.Order.BigOperators.Group.Finset
import Xv6.Lib.Cells
import Xv6.Vm.PageTable

/-!
# Address spaces and the pages they own

An address space is a page directory, its page tables and, in the lower half, the
pages that these map. It owns the directory, the tables and the user pages; the
pages that the upper half maps belong to the kernel. Everything the allocator was
given is on its free list or owned by somebody.
-/

namespace Xv6.Vm
open Lib Function Exec Multiset

/-- The pages given to the allocator. In a lucky pool `kalloc` fails only for lack of pages. -/
structure Pool where
  layout : Layout
  stock : Multiset ℕ
  valid : ∀ f ∈ stock, layout.kernelEnd ≤ KERNBASE + PGSIZE * f ∧ PGSIZE * f < PHYSTOP
  lucky : Prop

/-- What somebody owns: pages, some of them with their contents. -/
abbrev Cells : Type := Multiset (Cell ℕ Page)

/-- The pages of the pool are on the free list or owned. -/
structure Memory.Owns (P : Pool) (m : Memory) (cs : Cells) : Prop where
  owned : Owned Page.next P.stock m.page m.freelist cs
  luck : P.lucky → ∀ n, m.fate n = true

variable {P : Pool} {m : Memory} {cs : Cells} {f : ℕ} {v : Option Page} {pg : Page}

lemma Pool.ne_zero (hf : f ∈ P.stock) : f ≠ 0 := by
  have hvalid := (P.valid f hf).1
  have htext := P.layout.text_lt
  have hdata := P.layout.data_le
  rintro rfl
  unfold KERNLINK EXTMEM at htext
  omega

namespace Memory.Owns

lemma write (h : m.Owns P (⟨f, v⟩ ::ₘ cs)) (pg : Page) :
    (m.setPage f pg).Owns P (⟨f, some pg⟩ ::ₘ cs) := ⟨h.owned.write pg, h.luck⟩

lemma forget (h : m.Owns P (⟨f, v⟩ ::ₘ cs)) : m.Owns P (⟨f, none⟩ ::ₘ cs) :=
  ⟨h.owned.forget, h.luck⟩

lemma read (h : m.Owns P (⟨f, some pg⟩ ::ₘ cs)) : m.page f = pg := h.owned.read

end Memory.Owns

section Allocator
variable {E : Stop → Memory → Prop}

lemma wp_kfree {Q : Unit → Memory → Prop} (h : m.Owns P (⟨f, v⟩ ::ₘ cs))
    (hQ : ∀ m', m'.Owns P cs → Q () m') : wp (kfree P.layout f) Q E m := by
  have hvalid := P.valid f h.owned.mem
  refine wp_bind.mpr (wp_stopIf.mpr ⟨fun hbad => by omega, fun _ => ?_⟩)
  refine hQ _ ⟨?_, h.luck⟩
  have hpush := (h.write junk).owned.push (b := update junk 0 (Word.ofPtr m.freelist))
    (by simp [Page.next])
  simpa [Memory.setPage, Memory.setFreelist] using hpush

/-- `kalloc` fails only if it is not to succeed or if everything is owned. -/
lemma wp_kalloc {Q : Option ℕ → Memory → Prop} (h : m.Owns P cs)
    (hnone : ∀ m', m'.Owns P cs → (P.lucky → Multiset.card cs = Multiset.card P.stock) → Q none m')
    (hsome : ∀ f m', m'.Owns P (⟨f, none⟩ ::ₘ cs) → Q (some f) m') : wp kalloc Q E m := by
  have hluck : P.lucky → ∀ n, m.spend.fate n = true := fun hl n => h.luck hl (n + 1)
  refine wp_bind.mpr (wp_bind.mpr ?_)
  by_cases hfate : m.fate 0 = true
  · simp only [hfate, if_true]
    rcases hlist : m.freelist with _ | r
    · have howned := h.owned
      rw [hlist] at howned
      refine hnone _ ⟨h.owned, hluck⟩ fun _ => howned.card_of_empty
    have howned := h.owned
    rw [hlist] at howned
    exact hsome r _ ⟨howned.pop, hluck⟩
  · simp only [hfate]
    exact hnone _ ⟨h.owned, hluck⟩ fun hl => absurd (h.luck hl 0) hfate

end Allocator

/-! ### Address spaces -/

/-- A page directory and its page tables. The row of a table that is not there is not looked at. -/
structure Space where
  root : ℕ
  dir : Page
  row : Fin 1024 → Page

/-- The page that an entry owns. -/
def leaf (w : Word) : Cells := if w.p then {⟨w.addr, none⟩} else 0

/-- What an entry of the lower half owns. -/
def leafAt (i : Fin 1024) (w : Word) : Cells := if i.val < 512 then leaf w else 0

/-- What an entry of the page directory owns: the table, and in the lower half its pages. -/
def branch (i : Fin 1024) (pde : Word) (pg : Page) : Cells :=
  if pde.p then ⟨pde.addr, some pg⟩ ::ₘ ∑ j, leafAt i (pg j) else 0

namespace Space

variable (S : Space)

/-- The pages of an address space. -/
def cells : Cells := ⟨S.root, some S.dir⟩ ::ₘ ∑ i, branch i (S.dir i) (S.row i)

/-- The entry in a place; without a table there is none. -/
def entry (i j : Fin 1024) : Word := if (S.dir i).p then S.row i j else {}

/-- With a new page table. -/
def grow (i : Fin 1024) (t : ℕ) : Space where
  root := S.root
  dir := update S.dir i { addr := t, p := true, w := true, u := true }
  row := update S.row i zeroed

/-- With another entry. -/
def set (i j : Fin 1024) (w : Word) : Space where
  root := S.root
  dir := S.dir
  row := update S.row i (update (S.row i) j w)

/-- The branches but one. -/
def others (i : Fin 1024) : Cells := ∑ k ∈ Finset.univ.erase i, branch k (S.dir k) (S.row k)

/-- All but the table `i` and the page of its entry `j`. -/
def frame (i j : Fin 1024) : Cells :=
  ⟨S.root, some S.dir⟩ ::ₘ (∑ k ∈ Finset.univ.erase j, leafAt i (S.row i k) + S.others i)

variable {S} {i j : Fin 1024}

lemma cells_eq (i : Fin 1024) :
    S.cells = ⟨S.root, some S.dir⟩ ::ₘ (branch i (S.dir i) (S.row i) + S.others i) := by
  rw [cells, others, Finset.add_sum_erase Finset.univ (fun k => branch k (S.dir k) (S.row k))
    (Finset.mem_univ i)]

lemma cells_entry (j : Fin 1024) (h : (S.dir i).p = true) :
    S.cells = ⟨(S.dir i).addr, some (S.row i)⟩ ::ₘ (leafAt i (S.entry i j) + S.frame i j) := by
  rw [cells_eq i, branch, if_pos h, entry, if_pos h, frame,
    ← Finset.add_sum_erase Finset.univ (fun k => leafAt i (S.row i k)) (Finset.mem_univ j)]
  simp only [cons_add, add_cons, add_assoc]
  rw [cons_swap]

lemma others_grow (t : ℕ) : (S.grow i t).others i = S.others i := by
  refine Finset.sum_congr rfl fun k hk => ?_
  have hne : k ≠ i := Finset.ne_of_mem_erase hk
  simp only [grow, update_of_ne hne]

lemma frame_set (w : Word) : (S.set i j w).frame i j = S.frame i j := by
  have hothers : (S.set i j w).others i = S.others i := by
    refine Finset.sum_congr rfl fun k hk => ?_
    have hne : k ≠ i := Finset.ne_of_mem_erase hk
    simp only [set, update_of_ne hne]
  have hrow : ∀ k ∈ Finset.univ.erase j,
      leafAt i ((S.set i j w).row i k) = leafAt i (S.row i k) := by
    intro k hk
    have hne : k ≠ j := Finset.ne_of_mem_erase hk
    simp only [set, update_self, update_of_ne hne]
  rw [frame, hothers, Finset.sum_congr rfl hrow]
  rfl

/-- A new table owns itself only. -/
lemma cells_grow (h : (S.dir i).p = false) (t : ℕ) :
    (S.grow i t).cells = ⟨S.root, some (S.grow i t).dir⟩ ::ₘ ⟨t, some zeroed⟩ ::ₘ S.others i ∧
      S.cells = ⟨S.root, some S.dir⟩ ::ₘ S.others i := by
  constructor
  · rw [cells_eq i, others_grow]
    simp [grow, branch, leafAt, leaf, zeroed]
  · rw [cells_eq i, branch, h]
    simp

lemma entry_grow (h : (S.dir i).p = false) (t : ℕ) (k l : Fin 1024) :
    (S.grow i t).entry k l = S.entry k l := by
  by_cases hk : k = i
  · subst hk
    simp [entry, grow, h, zeroed]
  · simp [entry, grow, hk]

lemma entry_set (h : (S.dir i).p = true) (w : Word) (k l : Fin 1024) :
    (S.set i j w).entry k l = if k = i ∧ l = j then w else S.entry k l := by
  by_cases hk : k = i
  · subst hk
    by_cases hl : l = j
    · subst hl
      simp [entry, set, h]
    · simp [entry, set, hl]
  · simp [entry, set, hk]

end Space

-- The sum over all entries is not to be computed.
attribute [irreducible] Space.cells Space.frame

/-! ### Walks and entries -/

section Walk
variable {S : Space} {i j : Fin 1024} {pgdir va : ℕ} {E : Stop → Memory → Prop}

section
variable (h : m.Owns P (S.cells + cs))
include h

lemma Memory.Owns.dir : m.page S.root = S.dir := by
  rw [Space.cells_eq 0, cons_add] at h
  exact h.read

lemma Memory.Owns.row (hp : (S.dir i).p = true) : m.page (S.dir i).addr = S.row i := by
  rw [Space.cells_entry 0 hp, cons_add] at h
  exact h.read

lemma wp_loadEntry {Q : Word → Memory → Prop} (hp : (S.dir i).p = true) (hQ : Q (S.entry i j) m) :
    wp (load (S.dir i).addr j) Q E m := by
  change Q (m.page (S.dir i).addr j) m
  rwa [h.row hp, ← show S.entry i j = S.row i j from if_pos hp]

lemma wp_walk {Q : Option (ℕ × Fin 1024) → Memory → Prop} (hroot : S.root = pgdir)
    (hnone : (S.dir (pdx va)).p = false → Q none m)
    (hsome : (S.dir (pdx va)).p = true → Q (some ((S.dir (pdx va)).addr, ptx va)) m) :
    wp (walkpgdir pgdir va false) Q E m := by
  subst hroot
  refine wp_bind.mpr ?_
  change wp _ Q E m
  rw [h.dir]
  cases hp : (S.dir (pdx va)).p with
  | false => simpa [wp_pure] using hnone hp
  | true => simpa [wp_pure] using hsome hp

end

/-- The same entries; a table may be new in place `i` of the directory. -/
structure Space.Extends (S : Space) (i : Fin 1024) (S' : Space) : Prop where
  root : S'.root = S.root
  entry : ∀ k l, S'.entry k l = S.entry k l
  dir : ∀ k, (S'.dir k).p = true → (S.dir k).p = true ∨ k = i

lemma Space.extends_grow (h : (S.dir i).p = false) (t : ℕ) : S.Extends i (S.grow i t) where
  root := rfl
  entry := Space.entry_grow h t
  dir k hk := by
    by_cases hki : k = i
    · exact .inr hki
    left
    simpa [Space.grow, hki] using hk

lemma wp_walkAlloc {Q : Option (ℕ × Fin 1024) → Memory → Prop} (h : m.Owns P (S.cells + cs))
    (hroot : S.root = pgdir) (hnone : ∀ m', m'.Owns P (S.cells + cs) →
      (P.lucky → Multiset.card (S.cells + cs) = Multiset.card P.stock) → Q none m')
    (hsome : ∀ S' m', S.Extends (pdx va) S' → (S'.dir (pdx va)).p = true →
      m'.Owns P (S'.cells + cs) → Q (some ((S'.dir (pdx va)).addr, ptx va)) m') :
    wp (walkpgdir pgdir va true) Q E m := by
  subst hroot
  refine wp_bind.mpr ?_
  change wp _ Q E m
  rw [h.dir]
  cases hp : (S.dir (pdx va)).p with
  | true =>
    simp only [if_true]
    exact hsome S m ⟨rfl, fun _ _ => rfl, fun _ => .inl⟩ hp h
  | false =>
    simp only [Bool.false_eq_true, if_false, if_true]
    refine wp_bind.mpr (wp_kalloc h hnone fun t m' h' => ?_)
    obtain ⟨hgrown, hcells⟩ := Space.cells_grow hp t
    -- the directory in front, to be written
    have hzero := h'.write zeroed
    rw [hcells, cons_add, cons_swap] at hzero
    have hstore := hzero.write (S.grow (pdx va) t).dir
    rw [← cons_add, ← cons_add, ← hgrown] at hstore
    have hdir := hzero.read
    have hsome := hsome (S.grow (pdx va) t) _ (Space.extends_grow hp t)
      (by simp [Space.grow]) hstore
    rw [show ((S.grow (pdx va) t).dir (pdx va)).addr = t by simp [Space.grow]] at hsome
    change Q _ ((m'.setPage t zeroed).setPage S.root
      (update ((m'.setPage t zeroed).page S.root) (pdx va) _))
    rwa [hdir]

lemma wp_storeEntry {w : Word} {Q : Unit → Memory → Prop}
    (h : m.Owns P (⟨(S.dir i).addr, some (S.row i)⟩ ::ₘ (leafAt i w + S.frame i j + cs)))
    (hp : (S.dir i).p = true) (hQ : ∀ m', m'.Owns P ((S.set i j w).cells + cs) → Q () m') :
    wp (store (S.dir i).addr j w) Q E m := by
  have hrow := h.read
  have hcells : (S.set i j w).cells = ⟨(S.dir i).addr,
      some (update (S.row i) j w)⟩ ::ₘ (leafAt i w + S.frame i j) := by
    have hp' : ((S.set i j w).dir i).p = true := hp
    have hentry : (S.set i j w).entry i j = w := by simp [Space.entry_set hp]
    rw [Space.cells_entry j hp', hentry, Space.frame_set]
    simp [Space.set]
  change Q () (m.setPage (S.dir i).addr (update (m.page (S.dir i).addr) j w))
  rw [hrow]
  refine hQ _ ?_
  rw [hcells, cons_add]
  exact h.write _

end Walk

/-! ### Entries by address -/

/-- The entry for an address. -/
def Space.pte (S : Space) (va : ℕ) : Word := S.entry (pdx va) (ptx va)

/-- `S'` is `S` but for the entries of the addresses in `A`; tables are added for these only. -/
structure Space.Changes (S : Space) (A : ℕ → Prop) (S' : Space) : Prop where
  root : S'.root = S.root
  pte : ∀ b < 2 ^ 32, ¬ A b → S'.pte b = S.pte b
  dir : ∀ i, (S'.dir i).p = true → (S.dir i).p = true ∨ ∃ b < 2 ^ 32, A b ∧ pdx b = i

namespace Space

variable {S S₁ S₂ : Space} {A B C : ℕ → Prop} {a b : ℕ} {w : Word}

lemma Changes.refl : S.Changes A S := ⟨rfl, fun _ _ _ => rfl, fun _ => .inl⟩

lemma Changes.trans (h₁ : S.Changes A S₁) (h₂ : S₁.Changes B S₂) (hA : ∀ b, A b → C b)
    (hB : ∀ b, B b → C b) : S.Changes C S₂ where
  root := h₂.root.trans h₁.root
  pte b hlt hb := by
    rw [h₂.pte b hlt fun h => hb (hB b h), h₁.pte b hlt fun h => hb (hA b h)]
  dir i hi := by
    rcases h₂.dir i hi with hi | ⟨b, hlt, hb, hbi⟩
    · rcases h₁.dir i hi with hi | ⟨b, hlt, hb, hbi⟩
      · exact .inl hi
      · exact .inr ⟨b, hlt, hA b hb, hbi⟩
    · exact .inr ⟨b, hlt, hB b hb, hbi⟩

lemma Changes.mono (h : S.Changes A S₁) (hA : ∀ b, A b → C b) : S.Changes C S₁ :=
  h.trans Changes.refl hA hA

/-- Two addresses have the same entry if they are on the same page. -/
lemma pdx_ptx_eq_iff (ha : a < 2 ^ 32) (hb : b < 2 ^ 32) :
    pdx b = pdx a ∧ ptx b = ptx a ↔ b / PGSIZE = a / PGSIZE := by
  simp only [pdx, ptx, Fin.mk.injEq, PGSIZE]
  omega

lemma dir_of_present (h : (S.pte a).p = true) : (S.dir (pdx a)).p = true := by
  unfold pte entry at h
  split at h
  · assumption
  · cases h

lemma entry_eq_pte (i j : Fin 1024) : S.entry i j = S.pte ((i.val * 1024 + j.val) * PGSIZE) := by
  have hi : pdx ((i.val * 1024 + j.val) * PGSIZE) = i := by
    ext
    simp only [pdx, PGSIZE]
    omega
  have hj : ptx ((i.val * 1024 + j.val) * PGSIZE) = j := by
    ext
    simp only [ptx, PGSIZE]
    omega
  rw [pte, hi, hj]

lemma Extends.changes (h : S.Extends (pdx a) S₁) (hp : (S₁.dir (pdx a)).p = true)
    (ha : a < 2 ^ 32) (w : Word) :
    S.Changes (fun b => b / PGSIZE = a / PGSIZE) (S₁.set (pdx a) (ptx a) w) where
  root := h.root
  pte b hb hne := by
    rw [pte, entry_set hp, if_neg fun heq => hne ((pdx_ptx_eq_iff ha hb).mp heq), h.entry]
    rfl
  dir i hi := (h.dir i hi).imp_right fun hi => ⟨a, ha, rfl, hi.symm⟩

lemma pte_set (hp : (S.dir (pdx a)).p = true) (ha : a < 2 ^ 32) (hb : b < 2 ^ 32)
    (heq : b / PGSIZE = a / PGSIZE) : (S.set (pdx a) (ptx a) w).pte b = w := by
  rw [pte, entry_set hp, if_pos ((pdx_ptx_eq_iff ha hb).mpr heq)]

end Space

section Entries
variable {S : Space} {pgdir a pa last n : ℕ} {E : Stop → Memory → Prop} {perm : Perm}

lemma pdx_lt_iff (h : a < 2 ^ 32) : (pdx a).val < 512 ↔ a < KERNBASE := by
  simp only [pdx, KERNBASE]
  omega

variable {Q : Bool → Memory → Prop}

/-- One turn of the loop of `mappages`, with the page that the new entry will own at hand. -/
lemma wp_mapTurn {w : Word} (h : m.Owns P (leafAt (pdx a) w + (S.cells + cs)))
    (hw : w = ⟨pa / PGSIZE, true, perm.w, perm.u⟩) (hroot : S.root = pgdir) (ha : a < 2 ^ 32)
    (hfree : (S.pte a).p = false) (hfail : ∀ m', m'.Owns P (leafAt (pdx a) w + (S.cells + cs)) →
      (P.lucky → Multiset.card (leafAt (pdx a) w + (S.cells + cs)) = Multiset.card P.stock) →
      Q false m') (hok : ∀ S' m', S.Changes (fun b => b / PGSIZE = a / PGSIZE) S' →
      (∀ b < 2 ^ 32, b / PGSIZE = a / PGSIZE → S'.pte b = w) → m'.Owns P (S'.cells + cs) →
      wp (if a = last then pure true
        else mapLoop pgdir last perm n ((a + PGSIZE) % 2 ^ 32) ((pa + PGSIZE) % 2 ^ 32)) Q E m') :
    wp (mapLoop pgdir last perm (n + 1) a pa) Q E m := by
  rw [add_left_comm] at h hfail
  rw [mapLoop]
  refine wp_bind.mpr (wp_walkAlloc h hroot hfail fun S' m' hext hp h' => ?_)
  refine wp_bind.mpr (wp_loadEntry h' hp ?_)
  have hpte : (S'.entry (pdx a) (ptx a)).p = false := by
    rwa [hext.entry]
  refine wp_bind.mpr (wp_stopIf.mpr ⟨fun hbad => ?_, fun _ => ?_⟩)
  · rw [hpte] at hbad
    cases hbad
  have hnone : leafAt (pdx a) (S'.entry (pdx a) (ptx a)) = 0 := by simp [leafAt, leaf, hpte]
  rw [Space.cells_entry (ptx a) hp, hnone, zero_add, cons_add, add_left_comm, ← add_assoc] at h'
  subst hw
  exact wp_bind.mpr (wp_storeEntry h' hp fun m'' h'' =>
    hok _ m'' (hext.changes hp ha _) (fun b hb => Space.pte_set hp ha hb) h'')

lemma pgRoundDown_eq (h : a % PGSIZE = 0) : pgRoundDown a = a :=
  Nat.div_mul_cancel (Nat.dvd_of_mod_eq_zero h)

lemma wp_mapPage (h : m.Owns P (⟨f, none⟩ ::ₘ (S.cells + cs)))
    (hroot : S.root = pgdir) (ha : a % PGSIZE = 0) (hlt : a < KERNBASE)
    (hfree : (S.pte a).p = false) (hfail : ∀ m', m'.Owns P (⟨f, none⟩ ::ₘ (S.cells + cs)) →
      (P.lucky → Multiset.card (S.cells + cs) + 1 = Multiset.card P.stock) → Q false m')
    (hok : ∀ S' m', S.Changes (fun b => b / PGSIZE = a / PGSIZE) S' →
      (∀ b < 2 ^ 32, b / PGSIZE = a / PGSIZE → S'.pte b = ⟨f, true, perm.w, perm.u⟩) →
      m'.Owns P (S'.cells + cs) → Q true m') :
    wp (mappages pgdir a PGSIZE (PGSIZE * f) perm) Q E m := by
  have hlt' : a < 2 ^ 32 := hlt.trans (by decide)
  have hlast : pgRoundDown ((a + PGSIZE + 2 ^ 32 - 1) % 2 ^ 32) = a := by
    unfold pgRoundDown PGSIZE KERNBASE at *
    omega
  have hleaf : leafAt (pdx a) ⟨f, true, perm.w, perm.u⟩ = {⟨f, none⟩} := by
    simp [leafAt, leaf, (pdx_lt_iff hlt').mpr hlt]
  have hpa : PGSIZE * f / PGSIZE = f := Nat.mul_div_cancel_left f (by decide)
  unfold mappages
  rw [hlast, pgRoundDown_eq ha]
  rw [← singleton_add, ← hleaf] at h
  refine wp_mapTurn h (by rw [hpa]) hroot hlt' hfree (fun m' h' hfull => ?_)
    fun S' m' hS hpte h' => ?_
  · rw [hleaf, singleton_add] at h' hfull
    exact hfail m' h' fun hl => by rw [← hfull hl, card_cons]
  · rw [if_pos rfl]
    exact hok S' m' hS hpte h'

lemma Space.cells_user (ha : a < KERNBASE) (hp : (S.pte a).p = true) :
    S.cells + cs = ⟨(S.pte a).addr, none⟩ ::ₘ ⟨(S.dir (pdx a)).addr, some (S.row (pdx a))⟩ ::ₘ
      (S.frame (pdx a) (ptx a) + cs) := by
  have hlt : (pdx a).val < 512 := (pdx_lt_iff (ha.trans (by decide))).mpr ha
  have hleaf : leafAt (pdx a) (S.entry (pdx a) (ptx a)) = {⟨(S.pte a).addr, none⟩} := by
    change leafAt (pdx a) (S.pte a) = _
    simp [leafAt, leaf, hlt, hp]
  rw [Space.cells_entry (ptx a) (Space.dir_of_present hp), hleaf, singleton_add,
    cons_swap, cons_add, cons_add]

lemma wp_fillUser {Q : Unit → Memory → Prop} (h : m.Owns P (S.cells + cs)) (ha : a < KERNBASE)
    (hp : (S.pte a).p = true) (pg : Page) (hQ : ∀ m', m'.Owns P (S.cells + cs) → Q () m') :
    wp (fill (S.pte a).addr pg) Q E m := by
  refine hQ _ ?_
  rw [Space.cells_user ha hp] at h ⊢
  exact (h.write pg).forget

end Entries
end Xv6.Vm
