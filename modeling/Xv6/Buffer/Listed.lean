import Xv6.Buffer.Shared
import Xv6.Lib.Tally

/-!
# The structure of the buffer cache

Every count is the number of processes that use the buffer, so that a buffer
whose count is zero is in nobody's hands. The list of buffers is in the order in
which they were released, and the buffer in use for a block is the first of its
name: all buffers start with the same name.
-/

namespace Xv6.Buffer.Shared
open Fs Lib Function List

/-- A process in this place counts among the users of the buffer, besides its holder. -/
def Pc.uses (i : Fin NBUF) : Pc → ℕ
  | .acquiring _ j => if j = i then 1 else 0
  | .releasing j => if j = i then 1 else 0
  | _ => 0

/-- The holder of a buffer counts among its users. -/
def Buf.held {ι : Type} (b : Buf ι) : ℕ := if b.holder.isSome then 1 else 0

variable {ι : Type}

/-- What the place of process `p` says about the buffers. -/
def Pc.Fits (buf : Fin NBUF → Buf ι) (p : ι) : Pc → Prop
  | .acquiring id i => (buf i).id = id
  | .filling id i => (buf i).holder = some p ∧ (buf i).id = id
  | .flushing i => (buf i).holder = some p
  | _ => True

/-- The places of the processes are what the buffers say. -/
def Sys.Placed (s : Sys ι) : Prop := ∀ p, (s.pc p).Fits s.buf p

/-- Every count is the number of the users. -/
def Sys.Counted [Fintype ι] (s : Sys ι) : Prop :=
  ∀ i, (s.buf i).refcnt = tally Finset.univ (Pc.uses i) s.pc + (s.buf i).held

/-- The buffer is in use for its block. -/
def Sys.Live (s : Sys ι) (i : Fin NBUF) : Prop := (s.buf i).valid = true ∨ 0 < (s.buf i).refcnt

/-- The list of the buffers. -/
structure Sys.Listed (s : Sys ι) (order : List (Fin NBUF)) : Prop where
  circle : s.links.Circle none (order.map some)
  all : ∀ i, i ∈ order
  sorted : order.Pairwise fun i j => j ∈ s.idled → s.idled.idxOf i < s.idled.idxOf j
  first : ∀ i, s.Live i → order.find? (fun j => (s.buf j).id = (s.buf i).id) = some i

namespace Sys.Listed

variable {s : Sys ι} {order : List (Fin NBUF)}

lemma nodup (h : s.Listed order) : order.Nodup :=
  List.Nodup.of_map some (nodup_cons.mp h.circle.nodup).2

lemma scan_next {k : Links Node} (h : k.Circle none (order.map some)) (hlen : order.length ≤ NBUF)
    (p : Fin NBUF → Bool) : Sys.search k.next p = some (order.find? p) := by
  unfold Sys.search
  rw [h.path.scan_eq (nodup_cons.mp h.nodup).1 _ (by simpa using Nat.lt_succ_of_le hlen)]
  simp only [find?_map, Function.comp_def]
  cases hfind : order.find? p with
  | none | some i => simp [hfind]

section
variable (h : s.Listed order)
include h

lemma length_le : order.length ≤ NBUF := by
  simpa using h.nodup.length_le_card

lemma search_next (p : Fin NBUF → Bool) : Sys.search s.links.next p = some (order.find? p) :=
  scan_next h.circle h.length_le p

lemma search_prev (p : Fin NBUF → Bool) :
    Sys.search s.links.prev p = some (order.reverse.find? p) := by
  have hswap : s.links.swap.Circle none (order.reverse.map some) := by
    rw [map_reverse]
    exact h.circle.swap
  exact scan_next hswap (by simpa using h.length_le) p

lemma unique {i j : Fin NBUF} (hi : s.Live i) (hj : s.Live j)
    (hid : (s.buf i).id = (s.buf j).id) : i = j := by
  have hfirst := h.first i hi
  rw [hid, h.first j hj] at hfirst
  exact (Option.some.inj hfirst).symm

end
end Sys.Listed

variable {s s' : Sys ι} {i : Fin NBUF} {p : ι} {b : Buf ι} {q : Pc}

/-! ### One buffer and one place change -/

lemma Pc.Fits.set {buf : Fin NBUF → Buf ι} (h : q.Fits buf p)
    (hid : b.id = (buf i).id ∨ (buf i).holder = none ∧ q.uses i = 0)
    (hholder : (buf i).holder = some p → b.holder = some p) : q.Fits (update buf i b) p := by
  have hne : ∀ {j}, j ≠ i → update buf i b j = buf j := fun hj =>
    update_of_ne hj ..
  cases q with
  | idle => trivial
  | acquiring id j =>
    by_cases hj : j = i
    · subst hj
      have hused : Pc.uses j (.acquiring id j) ≠ 0 := by simp [Pc.uses]
      have hid := hid.resolve_right fun hfree => hused hfree.2
      simpa [Fits, hid] using h
    · simpa only [Fits, hne hj] using h
  | filling id j =>
    by_cases hj : j = i
    · subst hj
      have hid := hid.resolve_right fun hfree => by simp [Fits, hfree.1] at h
      simpa [Fits, hid, hholder h.1] using h.2
    · simpa only [Fits, hne hj] using h
  | flushing j =>
    by_cases hj : j = i
    · subst hj
      simpa [Fits] using hholder h
    · simpa only [Fits, hne hj] using h
  | releasing j => trivial

lemma Sys.Placed.set [DecidableEq ι] (h : s.Placed) (hbuf : s'.buf = update s.buf i b)
    (hpc : s'.pc = update s.pc p q) (hq : q.Fits s'.buf p)
    (hid : b.id = (s.buf i).id ∨ (s.buf i).holder = none ∧ ∀ r, (s.pc r).uses i = 0)
    (hholder : ∀ r, r ≠ p → (s.buf i).holder = some r → b.holder = some r) : s'.Placed := by
  intro r
  by_cases hr : r = p
  · subst hr
    rwa [hpc, update_self]
  · rw [hpc, update_of_ne hr, hbuf]
    exact (h r).set (hid.imp_right fun hfree => ⟨hfree.1, hfree.2 r⟩) (hholder r hr)

section
variable [Fintype ι]

lemma Sys.Counted.uses_le (h : s.Counted) : (s.pc p).uses i ≤ (s.buf i).refcnt := by
  have hle : (s.pc p).uses i ≤ tally Finset.univ (Pc.uses i) s.pc := le_tally (Finset.mem_univ p)
  rw [h i]
  omega

lemma Sys.Counted.pos_of_holder (h : s.Counted) (hi : (s.buf i).holder = some p) :
    0 < (s.buf i).refcnt := by
  rw [h i, Buf.held, hi]
  simp

lemma Sys.Counted.free (h : s.Counted) (hi : (s.buf i).refcnt = 0) :
    (s.buf i).holder = none ∧ ∀ r, (s.pc r).uses i = 0 := by
  constructor
  · cases hholder : (s.buf i).holder with
    | none => rfl
    | some r => exact absurd (h.pos_of_holder hholder) (by omega)
  intro r
  have := h.uses_le (i := i) (p := r)
  omega

lemma Sys.Counted.set [DecidableEq ι] (h : s.Counted)
    (hbuf : s'.buf = update s.buf i b) (hpc : s'.pc = update s.pc p q)
    (hq : ∀ j, j ≠ i → q.uses j = (s.pc p).uses j)
    (hi : b.refcnt + (s.pc p).uses i + (s.buf i).held = (s.buf i).refcnt + q.uses i + b.held) :
    s'.Counted := by
  intro j
  have hsum := tally_update (w := Pc.uses j) (f := s.pc) (x := q) (Finset.mem_univ p)
  have hj := h j
  rw [hbuf, hpc]
  by_cases hji : j = i
  · subst hji
    rw [update_self]
    omega
  rw [update_of_ne hji]
  have := hq j hji
  omega

end

/-! ### The list -/

namespace Sys.Listed

variable {order : List (Fin NBUF)}

lemma find?_of_imp {α : Type} {l : List α} {f g : α → Bool} {a : α} (h : l.find? f = some a)
    (himp : ∀ x, g x = true → f x = true) (ha : g a = true) : l.find? g = some a := by
  obtain ⟨-, l₁, l₂, rfl, hbefore⟩ := find?_eq_some_iff_append.mp h
  refine find?_eq_some_iff_append.mpr ⟨ha, l₁, l₂, rfl, fun x hx => ?_⟩
  have hx := hbefore x hx
  cases hg : g x with
  | false => rfl
  | true => simp [himp x hg] at hx

lemma id_eq (hbuf : s'.buf = update s.buf i b) (hid : b.id = (s.buf i).id)
    (j : Fin NBUF) : (s'.buf j).id = (s.buf j).id := by
  rw [hbuf]
  by_cases hj : j = i
  · subst hj
    rw [update_self, hid]
  · rw [update_of_ne hj]

section
variable (h : s.Listed order) (hbuf : s'.buf = update s.buf i b) (hlinks : s'.links = s.links)
  (hidled : s'.idled = s.idled)
include h hbuf hlinks hidled

lemma set (hid : b.id = (s.buf i).id)
    (hlive : b.valid = true ∨ 0 < b.refcnt →
      order.find? (fun j => (s.buf j).id = (s.buf i).id) = some i) : s'.Listed order := by
  have hids := id_eq hbuf hid
  refine ⟨hlinks ▸ h.circle, h.all, hidled ▸ h.sorted, fun j hj => ?_⟩
  simp only [hids]
  by_cases hji : j = i
  · subst hji
    rw [Sys.Live, hbuf, update_self] at hj
    exact hlive hj
  · rw [Sys.Live, hbuf, update_of_ne hji] at hj
    exact h.first j hj

/-- A buffer is taken for a block that no buffer has. -/
lemma recycle {id : BlockId} (hid : b.id = id)
    (hnone : ∀ j, (s.buf j).id ≠ id) : s'.Listed order := by
  refine ⟨hlinks ▸ h.circle, h.all, hidled ▸ h.sorted, fun j hj => ?_⟩
  have hother : ∀ k, k ≠ i → s'.buf k = s.buf k := fun k hk => by
    rw [hbuf, update_of_ne hk]
  have hi : (s'.buf i).id = id := by rw [hbuf, update_self, hid]
  by_cases hji : j = i
  · -- no other buffer has this name
    subst hji
    have hsome : (order.find? fun k => (s'.buf k).id = (s'.buf j).id).isSome :=
      find?_isSome.mpr ⟨j, h.all j, by simp⟩
    obtain ⟨k, hk⟩ := Option.isSome_iff_exists.mp hsome
    have hkid : (s'.buf k).id = (s'.buf j).id := by simpa using find?_some hk
    by_cases hkj : k = j
    · rwa [hkj] at hk
    · rw [hother k hkj, hi] at hkid
      exact absurd hkid (hnone k)
  have hfirst : order.find? (fun k => (s.buf k).id = (s.buf j).id) = some j := by
    apply h.first
    rwa [Sys.Live, ← hother j hji]
  refine find?_of_imp hfirst (fun k hk => ?_) (decide_eq_true rfl)
  have hk := of_decide_eq_true hk
  rw [hother j hji] at hk
  by_cases hki : k = i
  · rw [hki, hi] at hk
    exact absurd hk.symm (hnone j)
  · rw [hother k hki] at hk
    exact decide_eq_true hk

end

lemma toFront {l l' : List (Fin NBUF)} (h : s.Listed (l ++ i :: l')) (hi : s.Live i)
    (hbuf : s'.buf = update s.buf i b)
    (hlinks : s'.links = (s.links.unlink (some i)).insertFront none (some i))
    (hidled : s'.idled = i :: s.idled) (hid : b.id = (s.buf i).id) :
    s'.Listed (i :: (l ++ l')) := by
  have hids := id_eq hbuf hid
  have hout : i ∉ l ++ l' := (nodup_middle.mp h.nodup).notMem
  have hne : ∀ {j}, j ∈ l ++ l' → i ≠ j := fun hj hij => hout (hij ▸ hj)
  refine ⟨?_, fun j => ?_, ?_, fun j hj => ?_⟩
  · have hcircle : s.links.Circle none (l.map some ++ some i :: l'.map some) := by
      simpa using h.circle
    rw [hlinks, map_cons, map_append]
    refine hcircle.unlink.insertFront ?_
    simpa using hout
  · have := h.all j
    simp only [mem_append, mem_cons] at this ⊢
    tauto
  · rw [hidled]
    refine pairwise_cons.mpr ⟨fun j hj _ => ?_, ?_⟩
    · rw [idxOf_cons_self, idxOf_cons_ne _ (hne hj)]
      exact Nat.succ_pos _
    have hsub := (sublist_cons_self i l').append_left l
    refine (h.sorted.sublist hsub).imp_of_mem fun {a c} ha hc hac hcin => ?_
    rw [idxOf_cons_ne _ (hne ha), idxOf_cons_ne _ (hne hc)]
    exact Nat.succ_lt_succ (hac ((mem_cons.mp hcin).resolve_left (hne hc).symm))
  simp only [hids]
  by_cases hsame : (s.buf i).id = (s.buf j).id
  · have hij : j = i := by
      by_contra hij
      rw [Sys.Live, hbuf, update_of_ne hij] at hj
      exact hij (h.unique hj hi hsame.symm)
    simp [hij]
  have hji : j ≠ i := by
    rintro rfl
    exact hsame rfl
  rw [Sys.Live, hbuf, update_of_ne hji] at hj
  have hfirst := h.first j hj
  rw [find?_append, find?_cons_of_neg (by simpa using hsame)] at hfirst
  rwa [find?_cons_of_neg (by simpa using hsame), find?_append]

end Sys.Listed

lemma Sys.Listed.init (disk : BlockId → Block) :
    (Sys.init disk : Sys ι).Listed (List.finRange NBUF).reverse := by
  refine ⟨?_, fun i => by simp, ?_, fun i hi => ?_⟩
  · have hempty : (⟨fun _ => none, fun _ => none⟩ : Links Node).Circle none [] :=
      ⟨⟨rfl, rfl⟩, nodup_singleton _⟩
    have hnodup := (nodup_finRange NBUF).map (Option.some_injective _)
    have hall := hempty.insertAll hnodup (by simp)
    rwa [foldl_map, append_nil, ← map_reverse] at hall
  · exact (nodup_reverse.mpr (nodup_finRange NBUF)).imp fun _ hj =>
      absurd hj not_mem_nil
  · simp [Sys.Live, Sys.init] at hi

/-! ### Steps and runs -/

/-- The structure of the cache. -/
structure Sys.Sound [Fintype ι] (s : Sys ι) : Prop where
  placed : s.Placed
  counted : s.Counted
  listed : ∃ order, s.Listed order

lemma Sys.Placed.holder (h : s.Placed)
    (hpc : (∃ id, s.pc p = .filling id i) ∨ s.pc p = .flushing i) : (s.buf i).holder = some p := by
  have hfits := h p
  obtain ⟨id, hpc⟩ | hpc := hpc
  · rw [hpc] at hfits
    exact hfits.1
  · rwa [hpc] at hfits

lemma Sys.Sound.init [Fintype ι] (disk : BlockId → Block) : (Sys.init disk : Sys ι).Sound where
  placed := fun _ => trivial
  counted := fun _ => (tally_eq_zero_iff.mpr fun _ _ => rfl).symm
  listed := ⟨_, Sys.Listed.init disk⟩

lemma Sys.Sound.recyclable [Fintype ι] (h : s.Sound)
    (hfind : Sys.search s.links.prev (fun i => (s.buf i).refcnt = 0 ∧ (s.buf i).dirty = false) =
      some (some i)) : (s.buf i).holder = none ∧ (∀ r, (s.pc r).uses i = 0) ∧ (s.buf i).refcnt = 0 ∧
      (s.buf i).dirty = false := by
  obtain ⟨-, hcounted, order, hlisted⟩ := h
  rw [hlisted.search_prev] at hfind
  have hfree : (s.buf i).refcnt = 0 ∧ (s.buf i).dirty = false := by
    simpa using find?_some (Option.some.inj hfind)
  obtain ⟨hholder, huses⟩ := hcounted.free hfree.1
  exact ⟨hholder, huses, hfree⟩

lemma Sys.Listed.found {order : List (Fin NBUF)} {id : BlockId} (h : s.Listed order)
    (hfind : Sys.search s.links.next (fun i => (s.buf i).id = id) = some (some i)) :
    (s.buf i).id = id ∧ order.find? (fun j => (s.buf j).id = (s.buf i).id) = some i := by
  rw [h.search_next] at hfind
  have hid : (s.buf i).id = id := by simpa using find?_some (Option.some.inj hfind)
  exact ⟨hid, hid ▸ Option.some.inj hfind⟩

section
variable [DecidableEq ι]
variable {m : ι × Op}

section
variable (hm : Moved s m s')
include hm

lemma Moved.placed [Fintype ι] (h : s.Sound) : s'.Placed := by
  have hplaced := h.placed
  cases hm with
  | hit hpc hfind =>
    obtain ⟨order, hlisted⟩ := h.listed
    have hid := (hlisted.found hfind).1
    exact hplaced.set rfl rfl (by simp [Pc.Fits, hid]) (.inl rfl) fun _ _ h => h
  | recycle hpc hnone hfind =>
    obtain ⟨hholder, huses, -⟩ := h.recyclable hfind
    exact hplaced.set rfl rfl (by simp [Pc.Fits]) (.inr ⟨hholder, huses⟩) fun _ _ h => h
  | @lock p id i hpc hfree =>
    have hid : (s.buf i).id = id := by simpa [hpc, Pc.Fits] using hplaced p
    refine hplaced.set rfl rfl ?_ (.inl rfl) fun r _ h => by simp [hfree] at h
    split <;> simp [Pc.Fits, hid]
  | @transfer p i hpc =>
    exact hplaced.set (q := .idle) (s.iderw_buf i)
      (by rw [Sys.setPc_pc, Sys.iderw_pc]) trivial (.inl rfl) fun _ _ h => h
  | @unref p i hpc =>
    exact hplaced.set (q := .idle) (s.unref_buf i)
      (by rw [Sys.setPc_pc, Sys.unref_pc]) trivial (.inl rfl) fun _ _ h => h
  | @modify p i d hpc | @logWrite p i hpc =>
    exact fun r => (hplaced r).set (.inl rfl) fun h => h
  | @bwrite p i hpc hheld =>
    exact hplaced.set rfl rfl (by simp [Pc.Fits, hheld]) (.inl rfl) fun _ _ h => h
  | @brelse p i hpc hheld =>
    refine hplaced.set rfl rfl trivial (.inl rfl) fun r hr h => ?_
    exact absurd (Option.some.inj (h.symm.trans hheld)) hr

lemma Moved.counted [Fintype ι] (h : s.Sound) : s'.Counted := by
  have hcounted := h.counted
  cases hm with
  | @hit p id i hpc hfind =>
    refine hcounted.set rfl rfl (fun j hj => ?_) ?_
    · simp [hpc, Pc.uses, hj.symm]
    · simp [hpc, Pc.uses, Buf.held]
  | recycle hpc hnone hfind =>
    obtain ⟨hholder, -, hrefcnt, -⟩ := h.recyclable hfind
    refine hcounted.set rfl rfl (fun j hj => ?_) ?_
    · simp [hpc, Pc.uses, hj.symm]
    · simp [hpc, Pc.uses, Buf.held, hholder, hrefcnt]
  | @lock p id i hpc hfree =>
    refine hcounted.set rfl rfl (fun j hj => ?_) ?_
    · split <;> simp [hpc, Pc.uses, hj.symm]
    · split <;> simp [hpc, Pc.uses, Buf.held, hfree]
  | @transfer p i hpc =>
    have huses : ∀ j, (s.pc p).uses j = 0 := by
      obtain ⟨id, hpc⟩ | hpc := hpc <;> simp [hpc, Pc.uses]
    refine hcounted.set (q := .idle) (s.iderw_buf i)
      (by rw [Sys.setPc_pc, Sys.iderw_pc]) (fun j _ => (huses j).symm) ?_
    rw [huses]
    simp [Pc.uses, Buf.held]
  | @unref p i hpc =>
    refine hcounted.set (s.unref_buf i)
      (by rw [Sys.setPc_pc, Sys.unref_pc]) (fun j hj => by simp [hpc, Pc.uses, hj.symm]) ?_
    have hle := hcounted.uses_le (i := i) (p := p)
    simp only [hpc, Pc.uses, if_pos, Buf.held, Buf.unref_refcnt, Buf.unref_holder] at hle ⊢
    omega
  | @modify p i d hpc | @logWrite p i hpc =>
    exact hcounted.set (p := p) rfl (update_eq_self ..).symm (fun _ _ => rfl) rfl
  | @bwrite p i hpc hheld =>
    refine hcounted.set rfl rfl (fun j _ => by simp [hpc, Pc.uses]) ?_
    simp [hpc, Pc.uses, Buf.held]
  | @brelse p i hpc hheld =>
    refine hcounted.set rfl rfl (fun j hj => by simp [hpc, Pc.uses, hj.symm]) ?_
    simp [hpc, Pc.uses, Buf.held, hheld]

lemma Moved.listed [Fintype ι] (h : s.Sound) : ∃ order, s'.Listed order := by
  obtain ⟨hplaced, hcounted, order, hlisted⟩ := h
  cases hm with
  | hit hpc hfind =>
    exact ⟨order, hlisted.set rfl rfl rfl rfl fun _ => (hlisted.found hfind).2⟩
  | @recycle p id i hpc hnone hfind =>
    rw [hlisted.search_next] at hnone
    have hnone : ∀ j, (s.buf j).id ≠ id := fun j => by
      simpa using find?_eq_none.mp (Option.some.inj hnone) j (hlisted.all j)
    exact ⟨order, hlisted.recycle rfl rfl rfl rfl hnone⟩
  | @lock p id i hpc hfree | @modify p i d hpc | @logWrite p i hpc | @bwrite p i hpc hheld
  | @brelse p i hpc hheld => exact ⟨order, hlisted.set rfl rfl rfl rfl (hlisted.first i)⟩
  | @transfer p i hpc =>
    have hlive : s.Live i := .inr (hcounted.pos_of_holder (hplaced.holder hpc))
    exact ⟨order, hlisted.set (s.iderw_buf i) (s.iderw_links i) (s.iderw_idled i) rfl fun _ =>
      hlisted.first i hlive⟩
  | @unref p i hpc =>
    have hlive : 0 < (s.buf i).refcnt := by
      have hle := hcounted.uses_le (i := i) (p := p)
      rwa [hpc, Pc.uses, if_pos rfl] at hle
    by_cases hzero : (s.buf i).refcnt - 1 = 0
    · obtain ⟨l, l', rfl⟩ := append_of_mem (hlisted.all i)
      rw [Sys.unref, if_pos hzero]
      exact ⟨_, hlisted.toFront (.inr hlive) rfl rfl rfl rfl⟩
    · rw [Sys.unref, if_neg hzero]
      exact ⟨order, hlisted.set rfl rfl rfl rfl fun _ => hlisted.first i (.inr hlive)⟩

lemma Moved.id_eq [Fintype ι] (h : s.Sound) {j : Fin NBUF}
    (hj : 0 < (s.buf j).refcnt ∨ (s.buf j).dirty = true) : (s'.buf j).id = (s.buf j).id := by
  cases hm with
  | @recycle p id i hpc hnone hfind =>
    obtain ⟨-, -, hrefcnt, hdirty⟩ := h.recyclable hfind
    have hne : j ≠ i := by
      rintro rfl
      simp [hrefcnt, hdirty] at hj
    rw [Sys.setPc_buf, Sys.setBuf_buf, update_of_ne hne]
  | transfer _ => exact Sys.Listed.id_eq (Sys.iderw_buf ..) rfl j
  | unref _ => exact Sys.Listed.id_eq (Sys.unref_buf ..) rfl j
  | hit | lock | modify | logWrite | bwrite | brelse =>
    refine Sys.Listed.id_eq rfl ?_ j
    rfl

end

variable [Fintype ι] {disk : BlockId → Block}

/-- The structure holds whatever the processes do. -/
lemma Sys.Sound.of_reaches {ok : Sys ι → ι × Op → Prop}
    (h : Reaches Sys.step ok (Sys.init disk) s) : s.Sound := by
  refine h.invariant (fun s s' m hs _ hstep => ?_) (Sys.Sound.init disk)
  have hm := Moved.of_step hstep
  exact ⟨hm.placed hs, hm.counted hs, hm.listed hs⟩

/-- The list is circular, has every buffer once, and is in the order of the last release. Buffers
in use have different names, and a buffer that is in use or dirty keeps its name. -/
theorem cache_structure (h : Reaches Sys.step (fun _ _ => True) (Sys.init disk) s) :
    (∃ order : List (Fin NBUF), s.links.Circle none (order.map some) ∧ (∀ i, order.count i = 1) ∧
      order.Pairwise fun i j => j ∈ s.idled → s.idled.idxOf i < s.idled.idxOf j) ∧
    (∀ i j, s.Live i → s.Live j → (s.buf i).id = (s.buf j).id → i = j) ∧
    ∀ m s', s.step m = some s' → ∀ i, 0 < (s.buf i).refcnt ∨ (s.buf i).dirty = true →
      (s'.buf i).id = (s.buf i).id := by
  have hsound := Sys.Sound.of_reaches h
  obtain ⟨order, hlisted⟩ := hsound.listed
  refine ⟨⟨order, hlisted.circle, fun i => ?_, hlisted.sorted⟩, fun i j => hlisted.unique,
    fun m s' hstep i => (Moved.of_step hstep).id_eq hsound⟩
  exact count_eq_one_of_mem hlisted.nodup (hlisted.all i)

/-- The run in which a process reads two blocks and releases the first one. -/
theorem readTwo_structure :
    ∃ s : Sys (Fin 1), (Reaches Sys.step (fun _ _ => True) (Sys.init fun _ _ => 0) s ∧
      s.idled = [0] ∧ (s.buf 1).id = ⟨1, 7⟩) ∧
    ((∃ order : List (Fin NBUF), s.links.Circle none (order.map some) ∧ (∀ i, order.count i = 1) ∧
      order.Pairwise fun i j => j ∈ s.idled → s.idled.idxOf i < s.idled.idxOf j) ∧
    (∀ i j, s.Live i → s.Live j → (s.buf i).id = (s.buf j).id → i = j) ∧
    ∀ m s', s.step m = some s' → ∀ i, 0 < (s.buf i).refcnt ∨ (s.buf i).dirty = true →
      (s'.buf i).id = (s.buf i).id) := by
  obtain ⟨s, hs, hP⟩ := exists_of_execAll Sys.step (fun _ _ => True)
    (Sys.init fun _ _ => 0 : Sys (Fin 1))
    [(0, .bread ⟨1, 3⟩), (0, .next), (0, .next), (0, .bread ⟨1, 7⟩), (0, .next), (0, .next),
      (0, .brelse 0), (0, .next)]
    (fun s => s.idled = [0] ∧ (s.buf 1).id = ⟨1, 7⟩) (by decide +kernel)
  exact ⟨s, ⟨hs, hP⟩, cache_structure hs⟩

end
end Xv6.Buffer.Shared
