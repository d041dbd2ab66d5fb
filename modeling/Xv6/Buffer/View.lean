import Mathlib.Data.Fintype.Card
import Xv6.Buffer.Cache

/-!
# What the buffer cache stands for

For its users the cache is a map from block names to contents, the *view*,
together with the set of blocks that wait for a commit and the buffers that the
process holds. `Rep` ties a machine to such a description, and each operation of
`bio.c` has one rule that says how it changes the description.
-/

namespace Xv6.Buffer
open Fs Lib Logging Exec Function

/-- The machine as its users see it. -/
structure Abs where
  disk : BlockId → Block
  writes : List (BlockId × Block)
  log : Log
  view : BlockId → Block
  held : List (Fin NBUF × BlockId)
  dirty : Set BlockId

/-- One buffer and the description. -/
structure BufRep (a : Abs) (i : Fin NBUF) (b : Buf) : Prop where
  cached : b.valid = true → b.data = a.view b.id
  clean : b.valid = true → b.dirty = false → b.locked = false → a.disk b.id = a.view b.id
  assigned : b.valid = true ∨ b.id.dev = 0
  range : b.valid = true → b.id.blockno < FSSIZE
  refcnt : b.refcnt = if b.locked then 1 else 0
  held : ∀ id, (i, id) ∈ a.held ↔ b.locked = true ∧ b.id = id
  held_valid : b.locked = true → b.valid = true
  dirty : b.valid = true → (b.dirty = true ↔ b.id ∈ a.dirty)
  dirty_valid : b.dirty = true → b.valid = true

/-- A machine and its description. -/
structure Rep (m : Machine) (a : Abs) : Prop where
  disk : m.disk = a.disk
  writes : m.writes = a.writes
  log : m.log = a.log
  buf : ∀ i, BufRep a i (m.buf i)
  uncached : ∀ id, (∀ i, (m.buf i).valid = true → (m.buf i).id ≠ id) →
    a.disk id = a.view id ∧ id ∉ a.dirty
  unique : ∀ i j, (m.buf i).valid = true → (m.buf j).valid = true →
    (m.buf i).id = (m.buf j).id → i = j
  order : ∀ i, i ∈ m.order

/-- The description of a machine with an unused cache. -/
def Abs.fresh (disk : BlockId → Block) (log : Log) : Abs :=
  { disk := disk, writes := [], log := log, view := disk, held := [], dirty := ∅ }

lemma rep_fresh (disk : BlockId → Block) (log : Log) :
    Rep { disk := disk, log := log } (Abs.fresh disk log) := by
  constructor
  · rfl
  · rfl
  · rfl
  · intro i
    exact ⟨nofun, nofun, Or.inr rfl, nofun, rfl, by simp [Abs.fresh], nofun, nofun, nofun⟩
  · exact fun _ _ => ⟨rfl, Set.notMem_empty _⟩
  · exact nofun
  · simp

/-- `bread` can get the block: the process does not hold it, it is on the disk, and it is
pinned in the cache or some buffer can be recycled for it. -/
structure Abs.Available (a : Abs) (id : BlockId) : Prop where
  not_held : ∀ i, (i, id) ∉ a.held
  range : id.blockno < FSSIZE
  room : id ∈ a.dirty ∨ ∃ ids : List BlockId, ids.length < NBUF ∧ a.dirty ⊆ {x | x ∈ ids} ∧
    ∀ x ∈ a.held, x.2 ∈ ids

section Frame
variable (m : Machine) (i j : Fin NBUF) (b : Buf)

@[simp]
lemma setBuf_self : (m.setBuf i b).buf i = b := update_self ..

@[simp]
lemma setBuf_setBuf (b' : Buf) : (m.setBuf i b).setBuf i b' = m.setBuf i b' := by
  simp [Machine.setBuf]

@[simp]
lemma setBuf_disk : (m.setBuf i b).disk = m.disk := rfl

@[simp]
lemma setBuf_writes : (m.setBuf i b).writes = m.writes := rfl

@[simp]
lemma setBuf_log : (m.setBuf i b).log = m.log := rfl

@[simp]
lemma setBuf_order : (m.setBuf i b).order = m.order := rfl

end Frame

/-- A buffer is not touched by a change of the description elsewhere. -/
lemma BufRep.frame {a a' : Abs} {j : Fin NBUF} {b : Buf} (h : BufRep a j b)
    (hview : b.valid = true → a'.view b.id = a.view b.id)
    (hdisk : b.valid = true → a'.disk b.id = a.disk b.id)
    (hdirty : b.valid = true → (b.id ∈ a'.dirty ↔ b.id ∈ a.dirty))
    (hheld : ∀ id, (j, id) ∈ a'.held ↔ (j, id) ∈ a.held) : BufRep a' j b := by
  constructor
  · intro hv
    rw [h.cached hv, hview hv]
  · intro hv hd hl
    rw [hdisk hv, h.clean hv hd hl, hview hv]
  · exact h.assigned
  · exact h.range
  · exact h.refcnt
  · intro id
    rw [hheld id]
    exact h.held id
  · exact h.held_valid
  · intro hv
    rw [hdirty hv]
    exact h.dirty hv
  · exact h.dirty_valid

section Rules
variable {m m' : Machine} {a a' : Abs} {i : Fin NBUF} {id : BlockId}

section
variable (h : Rep m a)
include h

lemma Rep.change {b : Buf} (hbuf : m'.buf = update m.buf i b)
    (hdisk : m'.disk = a'.disk) (hwrites : m'.writes = a'.writes) (hlog : m'.log = a'.log)
    (horder : ∀ j, j ∈ m'.order) (hself : BufRep a' i b) (hothers : ∀ j ≠ i, BufRep a' j (m.buf j))
    (hunique : b.valid = true → ∀ j ≠ i, (m.buf j).valid = true → (m.buf j).id ≠ b.id)
    (huncached : ∀ id, (∀ j ≠ i, (m.buf j).valid = true → (m.buf j).id ≠ id) →
      (b.valid = true → b.id ≠ id) → a'.disk id = a'.view id ∧ id ∉ a'.dirty) : Rep m' a' := by
  have hne : ∀ j ≠ i, m'.buf j = m.buf j := by
    intro j hj
    rw [hbuf, update_of_ne hj]
  have heq : m'.buf i = b := by rw [hbuf, update_self]
  refine ⟨hdisk, hwrites, hlog, ?_, ?_, ?_, horder⟩
  · intro j
    by_cases hj : j = i
    · subst hj
      rwa [heq]
    · rw [hne j hj]
      exact hothers j hj
  · intro id hid
    apply huncached id
    · intro j hj
      rw [← hne j hj]
      exact hid j
    · rw [← heq]
      exact hid i
  intro j k hvj hvk hjk
  by_cases hj : j = i
  · by_cases hk : k = i
    · rw [hj, hk]
    subst hj
    rw [heq] at hvj hjk
    rw [hne k hk] at hvk hjk
    exact absurd hjk.symm (hunique hvj k hk hvk)
  by_cases hk : k = i
  · subst hk
    rw [heq] at hvk hjk
    rw [hne j hj] at hvj hjk
    exact absurd hjk (hunique hvk j hj hvj)
  rw [hne j hj] at hvj hjk
  rw [hne k hk] at hvk hjk
  exact h.unique j k hvj hvk hjk

section
variable (hi : (i, id) ∈ a.held)
include hi

lemma Rep.held_buf : (m.buf i).locked = true ∧ (m.buf i).valid = true ∧ (m.buf i).id = id := by
  obtain ⟨hl, hid⟩ := ((h.buf i).held id).mp hi
  exact ⟨hl, (h.buf i).held_valid hl, hid⟩

lemma Rep.held_data : (m.buf i).data = a.view id := by
  obtain ⟨_, hv, hid⟩ := h.held_buf hi
  rw [(h.buf i).cached hv, hid]

lemma Rep.ne_of_held {j : Fin NBUF} (hj : j ≠ i)
    (hv : (m.buf j).valid = true) : (m.buf j).id ≠ id := by
  obtain ⟨_, hvi, hid⟩ := h.held_buf hi
  intro heq
  exact hj (h.unique j i hv hvi (heq.trans hid.symm))

end

lemma Rep.lookup_some (hdev : id.dev ≠ 0) (hl : m.lookup id = some i) :
    (m.buf i).valid = true ∧ (m.buf i).id = id := by
  have hid : (m.buf i).id = id := by simpa using List.find?_some hl
  refine ⟨((h.buf i).assigned).resolve_right ?_, hid⟩
  rwa [hid]

lemma Rep.lookup_none (hl : m.lookup id = none) (j : Fin NBUF) : (m.buf j).id ≠ id := by
  have hj := List.find?_eq_none.mp hl j (h.order j)
  simpa using hj

lemma Rep.recyclable_some (hr : m.recyclable = some i) :
    (m.buf i).locked = false ∧ (m.buf i).dirty = false := by
  obtain ⟨hc, hd⟩ : (m.buf i).refcnt = 0 ∧ (m.buf i).dirty = false := by
    simpa using List.find?_some hr
  have hcount := (h.buf i).refcnt
  refine ⟨Bool.eq_false_iff.mpr fun hl => ?_, hd⟩
  rw [hc, if_pos hl] at hcount
  cases hcount

/-- When no buffer can be recycled, every buffer is dirty or held. -/
lemma Rep.recyclable_none (hr : m.recyclable = none) (j : Fin NBUF) :
    (m.buf j).dirty = true ∨ (m.buf j).locked = true := by
  have hj := List.find?_eq_none.mp hr j (List.mem_reverse.mpr (h.order j))
  have hc := (h.buf j).refcnt
  cases hl : (m.buf j).locked with
  | true => exact Or.inr rfl
  | false =>
    rw [hl] at hc
    left
    simpa [hc] using hj

/-- Dirty and held buffers have different names, so a short list of names leaves a buffer
that can be recycled. -/
lemma Rep.exists_recyclable (ids : List BlockId) (hlen : ids.length < NBUF)
    (hdirty : a.dirty ⊆ {x | x ∈ ids}) (hheld : ∀ x ∈ a.held, x.2 ∈ ids) : m.recyclable ≠ none := by
  intro hr
  have hbusy : ∀ j, (m.buf j).valid = true ∧ (m.buf j).id ∈ ids := by
    intro j
    rcases h.recyclable_none hr j with hd | hl
    · have hv := (h.buf j).dirty_valid hd
      exact ⟨hv, hdirty (((h.buf j).dirty hv).mp hd)⟩
    · exact ⟨(h.buf j).held_valid hl, hheld _ (((h.buf j).held _).mpr ⟨hl, rfl⟩)⟩
  have hinj : Function.Injective fun j => (m.buf j).id :=
    fun j k hjk => h.unique j k (hbusy j).1 (hbusy k).1 hjk
  have hsub : (Finset.univ.image fun j => (m.buf j).id) ⊆ ids.toFinset := by
    intro x hx
    obtain ⟨j, _, rfl⟩ := Finset.mem_image.mp hx
    exact List.mem_toFinset.mpr (hbusy j).2
  have hcard := Finset.card_le_card hsub
  rw [Finset.card_image_of_injective _ hinj, Finset.card_univ, Fintype.card_fin] at hcard
  have htoFinset := ids.toFinset_card_le
  omega

end

/-- The description after a buffer has been taken for a block. -/
def Abs.take (a : Abs) (i : Fin NBUF) (id : BlockId) : Abs := { a with held := (i, id) :: a.held }

lemma take_held_of_ne {j : Fin NBUF} (hj : j ≠ i) (x : BlockId) :
    (j, x) ∈ (a.take i id).held ↔ (j, x) ∈ a.held := by
  simp [Abs.take, hj]

lemma Rep.take_hit (h : Rep m a) {b : Buf} (hb : m.buf i = b) (hv : b.valid = true)
    (hid : b.id = id) (hl : b.locked = false) :
    Rep (m.setBuf i { b with refcnt := 1, locked := true }) (a.take i id) := by
  subst hb
  have hi := h.buf i
  have hnot : ∀ x, (i, x) ∉ a.held := by
    intro x hx
    rw [((hi.held x).mp hx).1] at hl
    cases hl
  refine h.change rfl h.disk h.writes h.log h.order ?_ ?_ ?_ ?_
  · refine ⟨hi.cached, nofun, hi.assigned, hi.range, rfl, ?_, fun _ => hv, hi.dirty, hi.dirty_valid⟩
    intro x
    simp [Abs.take, hnot x, hid, eq_comm]
  · intro j hj
    exact (h.buf j).frame (fun _ => rfl) (fun _ => rfl) (fun _ => Iff.rfl) (take_held_of_ne hj)
  · intro _ j hj hvj heq
    exact hj (h.unique j i hvj hv heq)
  intro x hx hself
  apply h.uncached
  intro j hvj
  by_cases hj : j = i
  · subst hj
    exact hself hvj
  · exact hx j hj hvj

/-- Recycling a buffer for a block that is in no buffer, and filling it from the disk. -/
lemma Rep.take_miss (h : Rep m a) (hnone : ∀ j, (m.buf j).id ≠ id)
    (hl : (m.buf i).locked = false) (hd : (m.buf i).dirty = false) (hr : id.blockno < FSSIZE) :
    Rep (m.setBuf i ⟨true, false, id, true, 1, m.disk id⟩) (a.take i id) := by
  have hi := h.buf i
  obtain ⟨hdisk, hclean⟩ := h.uncached id fun j _ => hnone j
  have hnot : ∀ x, (i, x) ∉ a.held := by
    intro x hx
    rw [((hi.held x).mp hx).1] at hl
    cases hl
  refine h.change rfl h.disk h.writes h.log h.order ?_ ?_ ?_ ?_
  · refine ⟨?_, nofun, Or.inl rfl, fun _ => hr, rfl, ?_, fun _ => rfl, ?_, nofun⟩
    · intro _
      rwa [h.disk]
    · intro x
      simp [Abs.take, hnot x, eq_comm]
    · intro _
      exact ⟨nofun, fun hin => absurd hin hclean⟩
  · intro j hj
    exact (h.buf j).frame (fun _ => rfl) (fun _ => rfl) (fun _ => Iff.rfl) (take_held_of_ne hj)
  · exact fun _ j _ _ => hnone j
  intro x hx _
  by_cases hold : (m.buf i).valid = true ∧ (m.buf i).id = x
  · obtain ⟨hv, rfl⟩ := hold
    refine ⟨hi.clean hv hd hl, fun hin => ?_⟩
    rw [(hi.dirty hv).mpr hin] at hd
    cases hd
  apply h.uncached
  intro j hvj hjx
  by_cases hj : j = i
  · subst hj
    exact hold ⟨hvj, hjx⟩
  · exact hx j hj hvj hjx

lemma wp_bread (h : Rep m a) (id : BlockId) (hdev : id.dev ≠ 0) {Q : Fin NBUF → Machine → Prop}
    {S : Stop → Machine → Prop}
    (hok : ∀ i m', (∀ x ∈ a.held, x.1 ≠ i) → Rep m' (a.take i id) → Q i m')
    (hstop : ∀ e m', m'.writes = a.writes → ¬ a.Available id → S e m') : wp (bread id) Q S m := by
  have hnot : ∀ i, (m.buf i).locked = false → ∀ x ∈ a.held, x.1 ≠ i := by
    rintro i hl ⟨j, y⟩ hx rfl
    rw [(h.held_buf hx).1] at hl
    cases hl
  unfold bread
  rw [wp_bind]
  unfold bget
  rw [wp_bind, wp_get]
  cases hlook : m.lookup id with
  | some i =>
    obtain ⟨hv, hid⟩ := h.lookup_some hdev hlook
    have hcount := (h.buf i).refcnt
    simp only [updBuf, acquiresleep, wp_bind, wp_modify, wp_get, wp_stopIf, wp_pure, setBuf_self]
    constructor
    · intro hl
      refine hstop _ _ h.writes fun hav => hav.not_held i ?_
      exact ((h.buf i).held id).mpr ⟨hl, hid⟩
    intro hl
    have hl := Bool.eq_false_iff.mpr hl
    rw [hl] at hcount
    have hrep := h.take_hit rfl hv hid hl
    simp only [setBuf_setBuf, hcount]
    rw [if_neg (by simp [hv]), wp_pure]
    exact hok i _ (hnot i hl) hrep
  | none =>
    have hnone := h.lookup_none hlook
    rcases hrec : m.recyclable with _ | i
    · refine hstop _ _ h.writes fun hav => ?_
      rcases hav.room with hdirty | ⟨ids, hlen, hdirty, hheld⟩
      · exact (h.uncached id fun j _ => hnone j).2 hdirty
      · exact h.exists_recyclable ids hlen hdirty hheld hrec
    obtain ⟨hl, hd⟩ := h.recyclable_some hrec
    simp only [updBuf, acquiresleep, wp_bind, wp_modify, wp_get, wp_stopIf, wp_pure,
      setBuf_self, hl]
    refine ⟨nofun, fun _ => ?_⟩
    simp only [setBuf_setBuf]
    rw [if_pos trivial]
    simp only [iderw, panicIf, wp_bind, wp_get, wp_stopIf, wp_modify, setBuf_self]
    refine ⟨nofun, fun _ => ⟨fun hvalid => absurd hvalid.1 (by decide), fun _ => ⟨?_, ?_⟩⟩⟩
    · intro hge
      exact hstop _ _ h.writes fun hav => absurd hav.range (not_lt.mpr hge)
    intro hlt
    have hrep := h.take_miss hnone hl hd (not_le.mp hlt)
    rw [wp_pure]
    apply hok i _ (hnot i hl)
    simpa [Machine.transfer] using hrep

/-- The description after new contents have been stored into a held buffer. -/
def Abs.store (a : Abs) (id : BlockId) (x : Block) : Abs := { a with view := update a.view id x }

/-- The description after a block has been marked dirty. -/
def Abs.pin (a : Abs) (id : BlockId) : Abs := { a with dirty := insert id a.dirty }

/-- The description after a block has been written to the disk. -/
def Abs.flush (a : Abs) (id : BlockId) : Abs :=
  { a with
    disk := update a.disk id (a.view id)
    writes := a.writes ++ [(id, a.view id)]
    dirty := a.dirty \ {id} }

/-- The description after a block has been stored and written to the disk. -/
def Abs.write (a : Abs) (id : BlockId) (x : Block) : Abs :=
  { a with
    disk := update a.disk id x
    writes := a.writes ++ [(id, x)]
    view := update a.view id x
    dirty := a.dirty \ {id} }

lemma store_flush (a : Abs) (id : BlockId) (x : Block) :
    (a.store id x).flush id = a.write id x := by
  simp [Abs.store, Abs.flush, Abs.write]

/-- The description after a buffer has been released. -/
def Abs.drop (a : Abs) (i : Fin NBUF) : Abs := { a with held := a.held.filter (·.1 ≠ i) }

section Held
variable {Q : Unit → Machine → Prop} {S : Stop → Machine → Prop}

section
variable (h : Rep m a) (hi : (i, id) ∈ a.held)
include h hi

/-- Outside the held buffer, a change that only concerns its block leaves everything alone. -/
lemma Rep.frame_held (hheld : a'.held = a.held) (hview : ∀ x ≠ id, a'.view x = a.view x)
    (hdisk : ∀ x ≠ id, a'.disk x = a.disk x) (hdirty : ∀ x ≠ id, (x ∈ a'.dirty ↔ x ∈ a.dirty))
    {j : Fin NBUF} (hj : j ≠ i) : BufRep a' j (m.buf j) := by
  apply (h.buf j).frame
  · exact fun hv => hview _ (h.ne_of_held hi hj hv)
  · exact fun hv => hdisk _ (h.ne_of_held hi hj hv)
  · exact fun hv => hdirty _ (h.ne_of_held hi hj hv)
  · exact fun x => by rw [hheld]

/-- A change of a held buffer that keeps its name, and of the description at that name. -/
lemma Rep.change_held {b : Buf} (hbuf : m'.buf = update m.buf i b) (hdisk : m'.disk = a'.disk)
    (hwrites : m'.writes = a'.writes) (hlog : m'.log = a'.log) (horder : m'.order = m.order)
    (hheld : a'.held = a.held) (hview : ∀ x ≠ id, a'.view x = a.view x)
    (hdisk' : ∀ x ≠ id, a'.disk x = a.disk x) (hdirty : ∀ x ≠ id, (x ∈ a'.dirty ↔ x ∈ a.dirty))
    (hv : b.valid = true) (hid : b.id = id) (hself : BufRep a' i b) : Rep m' a' := by
  refine h.change hbuf hdisk hwrites hlog (fun j => horder ▸ h.order j) hself ?_ ?_ ?_
  · intro j hj
    exact h.frame_held hi hheld hview hdisk' hdirty hj
  · intro _ j hj hvj
    rw [hid]
    exact h.ne_of_held hi hj hvj
  intro x hx hne
  have hxid : x ≠ id := fun heq => hne hv (hid.trans heq.symm)
  rw [hdisk' x hxid, hview x hxid, hdirty x hxid]
  apply h.uncached
  intro j hvj
  by_cases hj : j = i
  · subst hj
    rw [(h.held_buf hi).2.2]
    exact hxid.symm
  · exact hx j hj hvj

lemma wp_setData {f : Block → Block} (hok : ∀ m', Rep m' (a.store id (f (a.view id))) → Q () m') :
    wp (setData i f) Q S m := by
  obtain ⟨hl, hv, hid⟩ := h.held_buf hi
  have hdata := h.held_data hi
  have hb := h.buf i
  unfold setData updBuf
  rw [wp_modify]
  apply hok
  refine h.change_held hi rfl h.disk h.writes h.log rfl rfl ?_ (fun _ _ => rfl)
    (fun _ _ => Iff.rfl) hv hid ?_
  · exact fun x hx => update_of_ne hx ..
  refine ⟨?_, ?_, hb.assigned, hb.range, hb.refcnt, hb.held, hb.held_valid, hb.dirty,
    hb.dirty_valid⟩
  · intro _
    dsimp only [Abs.store]
    rw [hid, update_self, hdata]
  intro _ _ hfree
  rw [hl] at hfree
  cases hfree

lemma wp_pin (hok : ∀ m', Rep m' (a.pin id) → Q () m') :
    wp (updBuf i fun b => { b with dirty := true }) Q S m := by
  obtain ⟨hl, hv, hid⟩ := h.held_buf hi
  have hb := h.buf i
  unfold updBuf
  rw [wp_modify]
  apply hok
  refine h.change_held hi rfl h.disk h.writes h.log rfl rfl (fun _ _ => rfl) (fun _ _ => rfl)
    ?_ hv hid ?_
  · intro x hx
    exact Set.mem_insert_iff.trans (or_iff_right hx)
  refine ⟨hb.cached, nofun, hb.assigned, hb.range, hb.refcnt, hb.held, hb.held_valid, ?_,
    fun _ => hv⟩
  exact fun _ => ⟨fun _ => Or.inl hid, fun _ => rfl⟩

lemma wp_bwrite (hok : ∀ m', Rep m' (a.flush id) → Q () m') : wp (bwrite i) Q S m := by
  obtain ⟨hl, hv, hid⟩ := h.held_buf hi
  have hdata := h.held_data hi
  have hb := h.buf i
  have hrange := hb.range hv
  have hcount := hb.refcnt
  have hheld := hb.held
  rw [hl] at hcount hheld
  simp only [bwrite, iderw, panicIf, updBuf, wp_bind, wp_get, wp_stopIf, wp_modify, setBuf_self, hl]
  refine ⟨nofun, fun _ => ⟨nofun, fun _ => ⟨fun hno => absurd hno.2 (by decide), fun _ => ?_⟩⟩⟩
  refine ⟨fun hge => absurd hrange (not_lt.mpr hge), fun _ => hok _ ?_⟩
  simp only [Machine.transfer, setBuf_self, if_true, setBuf_setBuf]
  refine h.change_held hi rfl ?_ ?_ h.log rfl rfl (fun _ _ => rfl) ?_ ?_ rfl hid ?_
  · simp only [Abs.flush, hid, hdata, setBuf_disk, h.disk]
  · simp only [Abs.flush, hid, hdata, setBuf_writes, h.writes]
  · exact fun x hx => update_of_ne hx ..
  · intro x hx
    exact and_iff_left hx
  refine ⟨?_, nofun, Or.inl rfl, fun _ => hrange, hcount, hheld, fun _ => rfl, ?_, nofun⟩
  · exact fun _ => hb.cached hv
  intro _
  refine ⟨nofun, fun hin => absurd hid hin.2⟩

lemma wp_brelse (hclean : id ∈ a.dirty ∨ a.disk id = a.view id)
    (hok : ∀ m', Rep m' (a.drop i) → Q () m') : wp (brelse i) Q S m := by
  obtain ⟨hl, hv, hid⟩ := h.held_buf hi
  have hb := h.buf i
  have hcount := hb.refcnt
  rw [if_pos hl] at hcount
  simp only [brelse, panicIf, wp_bind, wp_get, wp_stopIf, wp_modify, hl]
  refine ⟨nofun, fun _ => hok _ ?_⟩
  simp only [Machine.release, hcount, Nat.sub_self, if_true]
  refine h.change rfl h.disk h.writes h.log ?_ ?_ ?_ ?_ ?_
  · intro j
    by_cases hj : j = i
    · simp [hj]
    · simp [List.mem_erase_of_ne hj, h.order j]
  · refine ⟨hb.cached, ?_, hb.assigned, hb.range, rfl, ?_, nofun, hb.dirty, hb.dirty_valid⟩
    · intro _ hd _
      rcases hclean with hin | heq
      · rw [(hb.dirty hv).mpr (hid ▸ hin)] at hd
        cases hd
      · rwa [← hid] at heq
    · intro x
      simp [Abs.drop]
  · intro j hj
    refine (h.buf j).frame (fun _ => rfl) (fun _ => rfl) (fun _ => Iff.rfl) ?_
    intro x
    simp [Abs.drop, hj]
  · intro _ j hj hvj
    rw [hid]
    exact h.ne_of_held hi hj hvj
  intro x hx hne
  apply h.uncached
  intro j hvj
  by_cases hj : j = i
  · subst hj
    exact hne hvj
  · exact hx j hj hvj

end
end Held

/-- The description with another log in memory. -/
def Abs.withLog (a : Abs) (l : Log) : Abs := { a with log := l }

/-- The cache does not depend on the log in memory. -/
lemma Rep.withLog (h : Rep m a) (l : Log) : Rep { m with log := l } (a.withLog l) :=
  ⟨h.disk, h.writes, rfl, fun i => (h.buf i).frame (fun _ => rfl) (fun _ => rfl)
    (fun _ => Iff.rfl) fun _ => Iff.rfl, h.uncached, h.unique, h.order⟩

end Rules
end Xv6.Buffer
