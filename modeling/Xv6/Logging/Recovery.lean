import Xv6.Logging.Phases

/-!
# Installing, committing and recovering

The loops of `log.c` over the rules of their turns. A run either goes on, or it
stops with a trace all of whose first parts survive a crash; it only stops if
the assumption `ample` of the section fails, which says that the log area lies on
the disk and that a transaction leaves a buffer free.
-/

namespace Xv6.Logging
open Fs Lib Buffer Exec List

/-- The machine has stopped, with a trace that survives a crash, and not `ample`. -/
def Crashed (g : Area) (d₀ : BlockId → Block) (π : Plan) (ample : Prop) (_ : Stop) (m : Machine) :
    Prop :=
  Throughout (Survives g d₀ π) m.writes ∧ ¬ ample

/-- The names of logged blocks. -/
def homes (g : Area) (bs : List ℕ) : Set BlockId := {id | ∃ b ∈ bs, id = g.home b}

/-- The header lists `bs`, and the first `k` of these blocks are in place. When `pinned`, the
others are still dirty in the cache. -/
structure Installing (g : Area) (D : BlockId → Block) (bs : List ℕ) (pinned : Prop) (k : ℕ)
    (a : Abs) : Prop where
  held : a.held = []
  dirty : a.dirty = {id | pinned ∧ id ∈ homes g (bs.drop k)}
  area : ∀ id ∈ g.blocks, a.view id = a.disk id
  head : HeaderIs (a.disk g.head) bs
  slots : ∀ t b, bs[t]? = some b → a.disk (g.slot t) = D (g.home b)
  home : ∀ id ∉ g.blocks, id ∉ homes g (bs.drop k) → a.disk id = D id ∧ a.view id = D id

/-- The header is empty, and the first `k` of the blocks `bs` are in the log. The disk holds
the contents after `j` transactions, the cache those after one more. -/
structure Filling (g : Area) (π : Plan) (j : ℕ) (bs : List ℕ) (k : ℕ) (a : Abs) : Prop where
  held : a.held = []
  dirty : a.dirty = homes g bs
  area : ∀ id ∈ g.blocks, a.view id = a.disk id
  head : HeaderIs (a.disk g.head) []
  slots : ∀ t b, t < k → bs[t]? = some b → a.disk (g.slot t) = π.C (j + 1) (g.home b)
  home : ∀ id ∉ g.blocks, a.disk id = π.C j id ∧ a.view id = π.C (j + 1) id

/-- Nothing is logged: cache and disk agree on the contents after `j` transactions. -/
structure Rest (g : Area) (π : Plan) (j : ℕ) (a : Abs) : Prop where
  held : a.held = []
  dirty : a.dirty = ∅
  view : ∀ id, a.view id = a.disk id
  head : HeaderIs (a.disk g.head) []
  home : ∀ id ∉ g.blocks, a.disk id = π.C j id

/-- What is known of the blocks of a header. -/
structure Listed (g : Area) (bs : List ℕ) : Prop where
  length : bs.length ≤ LOGSIZE
  room : bs.length < g.size
  outside : ∀ b ∈ bs, g.home b ∉ g.blocks ∧ b < FSSIZE

lemma zipIdx_split {bs : List ℕ} {done rest : List (ℕ × ℕ)} {x : ℕ × ℕ}
    (h : bs.zipIdx = done ++ x :: rest) : bs[done.length]? = some x.1 ∧ x.2 = done.length := by
  have hget : bs.zipIdx[done.length]? = some x := by simp [h]
  rw [getElem?_zipIdx] at hget
  obtain ⟨b, hb, rfl⟩ := Option.map_eq_some_iff.mp hget
  exact ⟨hb, Nat.zero_add _⟩

section Loops
variable {g : Area} {π : Plan} {d₀ : BlockId → Block} {bs : List ℕ} {j k b : ℕ} {a : Abs}
  {m : Machine} {Q : Unit → Machine → Prop} {ample : Prop} {o : ℤ} {c : Bool}

lemma Listed.slot_mem (h : Listed g bs) (hb : bs[k]? = some b) : g.slot k ∈ g.blocks := by
  have hlt := (List.getElem?_eq_some_iff.mp hb).1
  have hroom := h.room
  exact Area.slot_mem (by omega)

lemma Listed.head_mem (h : Listed g bs) : g.head ∈ g.blocks := by
  have hroom := h.room
  exact Area.head_mem (by omega)

lemma Listed.home_ne (h : Listed g bs) (hb : b ∈ bs) {id : BlockId} (hid : id ∈ g.blocks) :
    id ≠ g.home b := by
  rintro rfl
  exact (h.outside b hb).1 hid

section Install
variable {D : BlockId → Block} {pinned : Prop}

/-- The buffer of a copy is not the one that it reads from. -/
lemma take_held_ne {id id' : BlockId} {i : Fin NBUF} (hheld : a.held = []) (hne : id ≠ id') :
    ∀ i', (i', id') ∉ (a.take i id).held := by
  intro i' hi'
  rcases mem_cons.mp hi' with heq | hold
  · exact hne (Prod.mk.inj heq).2.symm
  rw [hheld] at hold
  cases hold

section
variable (h : Installing g D bs pinned k a)
include h

lemma Installing.committed (hl : Listed g bs) : Committed g a.disk D bs := by
  refine ⟨h.head, hl.room, hl.outside, h.slots, ?_⟩
  intro id hid hne
  refine (h.home id hid ?_).1
  rintro ⟨b, hb, rfl⟩
  exact hne b (mem_of_mem_drop hb) rfl

lemma Installing.write (hl : Listed g bs) (hnodup : pinned → bs.Nodup) (hb : bs[k]? = some b) :
    Installing g D bs pinned (k + 1) (a.write (g.home b) (a.view (g.slot k))) := by
  have hmem : b ∈ bs := List.mem_of_getElem? hb
  obtain ⟨hlt, hget⟩ := List.getElem?_eq_some_iff.mp hb
  have hdrop : bs.drop k = b :: bs.drop (k + 1) := by
    rw [List.drop_eq_getElem_cons hlt, hget]
  have hx : a.view (g.slot k) = D (g.home b) := by
    rw [h.area _ (hl.slot_mem hb)]
    exact h.slots k b hb
  constructor
  · exact h.held
  · dsimp only [Abs.write]
    rw [h.dirty, hdrop]
    ext id
    constructor
    · rintro ⟨⟨hp, c, hc, rfl⟩, hne⟩
      refine ⟨hp, c, ?_, rfl⟩
      rcases List.mem_cons.mp hc with rfl | hc
      · exact absurd rfl hne
      · exact hc
    rintro ⟨hp, c, hc, rfl⟩
    refine ⟨⟨hp, c, List.mem_cons_of_mem _ hc, rfl⟩, fun heq => ?_⟩
    obtain rfl := Area.home_injective heq
    have hnd := (hnodup hp).sublist (List.drop_sublist k bs)
    rw [hdrop] at hnd
    exact (List.nodup_cons.mp hnd).1 hc
  · intro id hid
    have hne := hl.home_ne hmem hid
    rw [write_view_of_ne hne, write_disk_of_ne hne]
    exact h.area id hid
  · rw [write_disk_of_ne (hl.home_ne hmem hl.head_mem)]
    exact h.head
  · intro t c ht
    rw [write_disk_of_ne (hl.home_ne hmem (hl.slot_mem ht))]
    exact h.slots t c ht
  intro id hid hnot
  by_cases heq : id = g.home b
  · subst heq
    rw [write_disk_self, write_view_self, hx]
    exact ⟨rfl, rfl⟩
  rw [write_disk_of_ne heq, write_view_of_ne heq]
  refine h.home id hid ?_
  rintro ⟨c, hc, rfl⟩
  rw [hdrop] at hc
  rcases List.mem_cons.mp hc with rfl | hc
  · exact heq rfl
  · exact hnot ⟨c, hc, rfl⟩

lemma Installing.available (hl : Listed g bs)
    (hb : bs[k]? = some b) (hdisk : g.start + g.size ≤ FSSIZE) (hfree : pinned → bs.length < NBUF) :
    a.Available (g.slot k) ∧ ∀ i, (a.take i (g.slot k)).Available (g.home b) := by
  have hmem : b ∈ bs := List.mem_of_getElem? hb
  have hslot := hl.slot_mem hb
  have hlt := (List.getElem?_eq_some_iff.mp hb).1
  have hin : b ∈ bs.drop k := by
    rw [List.drop_eq_getElem_cons hlt, (List.getElem?_eq_some_iff.mp hb).2]
    exact List.mem_cons_self ..
  constructor
  · refine ⟨by simp [h.held], lt_of_lt_of_le hslot.2.2 hdisk, Or.inr ?_⟩
    by_cases hp : pinned
    · refine ⟨bs.map g.home, by simpa using hfree hp, ?_, by simp [h.held]⟩
      rw [h.dirty]
      rintro id ⟨_, c, hc, rfl⟩
      exact List.mem_map_of_mem (List.mem_of_mem_drop hc)
    refine ⟨[], by decide, ?_, by simp [h.held]⟩
    rw [h.dirty]
    rintro id ⟨hp', _⟩
    exact absurd hp' hp
  intro i
  refine ⟨take_held_ne h.held (hl.home_ne hmem hslot), (hl.outside b hmem).2, ?_⟩
  by_cases hp : pinned
  · left
    change _ ∈ a.dirty
    rw [h.dirty]
    exact ⟨hp, b, hin, rfl⟩
  refine Or.inr ⟨[g.slot k], by simp [NBUF, MAXOPBLOCKS], ?_, by simp [Abs.take, h.held]⟩
  change a.dirty ⊆ _
  rw [h.dirty]
  rintro id ⟨hp', _⟩
  exact absurd hp' hp

end

lemma wp_installTrans (h : Stands g d₀ π j (g.log o c bs) m a) (hdev : g.dev ≠ 0)
    (hl : Listed g bs) (hnodup : pinned → bs.Nodup) (hdisk : ample → g.start + g.size ≤ FSSIZE)
    (hfree : ample → pinned → bs.length < NBUF) (hown : ∀ b ∈ bs, π.owns j (g.home b))
    (hin : Installing g (π.C j) bs pinned 0 a)
    (hok : ∀ m' a', Stands g d₀ π j (g.log o c bs) m' a' →
      Installing g (π.C j) bs pinned bs.length a' → Q () m') :
    wp installTrans Q (Crashed g d₀ π ample) m := by
  unfold installTrans
  rw [wp_bind, wp_get, h.rep.log, h.log]
  apply wp_mono (wp_each (installBlock (g.log o c bs)) (fun done m' => ∃ a',
    Stands g d₀ π j (g.log o c bs) m' a' ∧ Installing g (π.C j) bs pinned done.length a')
    bs.zipIdx ?_ ⟨a, h, hin⟩)
  · rintro _ m' ⟨a', h', hin'⟩
    rw [length_zipIdx] at hin'
    exact hok m' a' h' hin'
  · exact fun _ _ hcrash => hcrash
  rintro done ⟨b, t⟩ rest hsplit m' ⟨a', h', hin'⟩
  obtain ⟨hb, rfl⟩ := zipIdx_split hsplit
  dsimp only at hb
  have hmem : b ∈ bs := mem_of_getElem? hb
  have hslot := hl.slot_mem hb
  refine wp_installBlock h'.rep hdev ⟨rfl, rfl⟩ hin'.held (hl.home_ne hmem hslot)
    (hin'.area _ hslot).symm ?_ ?_
  · intro m'' h''
    have hne : g.home b ≠ g.head := (hl.home_ne hmem hl.head_mem).symm
    have hnext := hin'.write hl hnodup hb
    refine ⟨_, h'.write h'' ((commits_of_ne _ _ hne).trans h'.count) bs (hnext.committed hl)
      fun _ => ⟨hown b hmem, ?_⟩, ?_⟩
    · rw [hin'.area _ hslot]
      exact hin'.slots _ b hb
    · rwa [length_append]
  intro e m'' hw hav
  refine ⟨hw ▸ h'.traced.survives, fun ha => hav ?_⟩
  exact hin'.available hl hb (hdisk ha) (hfree ha)

end Install

section Fill

section
variable (h : Filling g π j bs k a)
include h

lemma Filling.committed (hl : Listed g bs) : Committed g a.disk (π.C j) [] := by
  have hroom := hl.room
  refine ⟨h.head, by simp; omega, nofun, nofun, ?_⟩
  exact fun id hid _ => (h.home id hid).1

lemma Filling.write (hl : Listed g bs) (hb : bs[k]? = some b) :
    Filling g π j bs (k + 1) (a.write (g.slot k) (a.view (g.home b))) := by
  have hslot := hl.slot_mem hb
  have hmem : b ∈ bs := mem_of_getElem? hb
  have hout : ∀ id ∉ g.blocks, id ≠ g.slot k := by
    rintro id hid rfl
    exact hid hslot
  constructor
  · exact h.held
  · dsimp only [Abs.write]
    rw [h.dirty]
    ext id
    refine ⟨fun hid => hid.1, fun hid => ⟨hid, ?_⟩⟩
    obtain ⟨c, hc, rfl⟩ := hid
    exact (hl.home_ne hc hslot).symm
  · intro id hid
    by_cases heq : id = g.slot k
    · subst heq
      rw [write_view_self, write_disk_self]
    · rw [write_view_of_ne heq, write_disk_of_ne heq]
      exact h.area id hid
  · rw [write_disk_of_ne (Area.slot_ne_head k).symm]
    exact h.head
  · intro t c ht hc
    by_cases heq : t = k
    · subst heq
      obtain rfl : b = c := Option.some.inj (hb.symm.trans hc)
      rw [write_disk_self]
      exact (h.home _ (hl.outside b hmem).1).2
    · rw [write_disk_of_ne fun hs => heq (Area.slot_injective hs)]
      exact h.slots t c (by omega) hc
  intro id hid
  rw [write_disk_of_ne (hout id hid), write_view_of_ne (hout id hid)]
  exact h.home id hid

lemma Filling.available (hl : Listed g bs) (hb : bs[k]? = some b)
    (hdisk : g.start + g.size ≤ FSSIZE) (hfree : bs.length < NBUF) :
    a.Available (g.slot k) ∧ ∀ i, (a.take i (g.slot k)).Available (g.home b) := by
  have hmem : b ∈ bs := mem_of_getElem? hb
  have hslot := hl.slot_mem hb
  constructor
  · refine ⟨by simp [h.held], lt_of_lt_of_le hslot.2.2 hdisk, Or.inr ?_⟩
    refine ⟨bs.map g.home, by simpa using hfree, ?_, by simp [h.held]⟩
    rw [h.dirty]
    rintro id ⟨c, hc, rfl⟩
    exact mem_map_of_mem hc
  intro i
  refine ⟨take_held_ne h.held (hl.home_ne hmem hslot), (hl.outside b hmem).2, Or.inl ?_⟩
  change _ ∈ a.dirty
  rw [h.dirty]
  exact ⟨b, hmem, rfl⟩

end

lemma wp_writeLog (h : Stands g d₀ π j (g.log o c bs) m a) (hdev : g.dev ≠ 0)
    (hl : Listed g bs) (hdisk : ample → g.start + g.size ≤ FSSIZE)
    (hfree : ample → bs.length < NBUF) (hfill : Filling g π j bs 0 a)
    (hok : ∀ m' a', Stands g d₀ π j (g.log o c bs) m' a' → Filling g π j bs bs.length a' →
      Q () m') : wp writeLog Q (Crashed g d₀ π ample) m := by
  unfold writeLog
  rw [wp_bind, wp_get, h.rep.log, h.log]
  apply wp_mono (wp_each (logBlock (g.log o c bs)) (fun done m' => ∃ a',
    Stands g d₀ π j (g.log o c bs) m' a' ∧ Filling g π j bs done.length a') bs.zipIdx ?_
    ⟨a, h, hfill⟩)
  · rintro _ m' ⟨a', h', hfill'⟩
    rw [length_zipIdx] at hfill'
    exact hok m' a' h' hfill'
  · exact fun _ _ hcrash => hcrash
  rintro done ⟨b, t⟩ rest hsplit m' ⟨a', h', hfill'⟩
  obtain ⟨hb, rfl⟩ := zipIdx_split hsplit
  dsimp only at hb
  have hmem : b ∈ bs := mem_of_getElem? hb
  have hslot := hl.slot_mem hb
  have hdirty : g.home b ∈ a'.dirty := by
    rw [hfill'.dirty]
    exact ⟨b, hmem, rfl⟩
  refine wp_logBlock h'.rep hdev ⟨rfl, rfl⟩ hfill'.held (hl.home_ne hmem hslot) hdirty ?_ ?_
  · intro m'' h''
    have hcount := (commits_of_ne a'.writes (a'.view (g.home b))
      (Area.slot_ne_head done.length)).trans h'.count
    have hnext := hfill'.write hl hb
    refine ⟨_, h'.write h'' hcount [] (hnext.committed hl) fun hout => absurd hslot hout, ?_⟩
    rwa [length_append]
  intro e m'' hw hav
  refine ⟨hw ▸ h'.traced.survives, fun ha => hav ?_⟩
  exact hfill'.available hl hb (hdisk ha) (hfree ha)

end Fill

section
variable (h : Stands g d₀ π j (g.log o c bs) m a)
include h

section
variable (hdev : g.dev ≠ 0) (hl : Listed g bs)
include hdev hl

lemma wp_clear {pinned : Prop} (hdisk : ample → g.start + g.size ≤ FSSIZE)
    (hin : Installing g (π.C j) bs pinned bs.length a)
    (hok : ∀ m' a', Stands g d₀ π j (g.log o c []) m' a' → Rest g π j a' → Q () m') :
    wp (do updLog (fun l => { l with lh := [] }); writeHead) Q (Crashed g d₀ π ample) m := by
  have hempty : homes g (bs.drop bs.length) = ∅ := by
    ext id
    simp [homes]
  have hdirty : a.dirty = ∅ := by
    rw [hin.dirty, hempty]
    simp
  have hhome : ∀ id ∉ g.blocks, a.disk id = π.C j id ∧ a.view id = π.C j id := by
    intro id hid
    exact hin.home id hid (by rw [hempty]; exact Set.notMem_empty id)
  have hheader : HeaderIs (putHead [] (a.view g.head)) [] := headerIs_putHead _ (by decide) nofun
  have hstand := h.withLog (g.log o c [])
  unfold updLog
  rw [wp_bind, wp_modify, h.rep.log, h.log]
  refine wp_writeHead hstand.rep hdev ⟨rfl, rfl⟩ hin.held ?_ ?_
  · intro m' h'
    have hcount := (commits_empty a.writes (hheader.word_zero.mpr rfl)).trans h.count
    have hout : ∀ id ∉ g.blocks, id ≠ g.head := by
      rintro id hid rfl
      exact hid hl.head_mem
    have hrest : Rest g π j ((a.withLog (g.log o c [])).write g.head
        (putHead [] (a.view g.head))) := by
      constructor
      · exact hin.held
      · dsimp only [Abs.write, Abs.withLog]
        rw [hdirty, Set.empty_sdiff]
      · intro id
        by_cases heq : id = g.head
        · subst heq
          rw [write_view_self, write_disk_self]
        rw [write_view_of_ne heq, write_disk_of_ne heq]
        change a.view id = a.disk id
        by_cases hid : id ∈ g.blocks
        · exact hin.area id hid
        · rw [(hhome id hid).1, (hhome id hid).2]
      · rwa [write_disk_self]
      intro id hid
      rw [write_disk_of_ne (hout id hid)]
      exact (hhome id hid).1
    have hroom := hl.room
    refine hok m' _ (hstand.write h' hcount [] ?_ fun hno => absurd hl.head_mem hno) hrest
    exact ⟨hrest.head, by simp; omega, nofun, nofun, fun id hid _ => hrest.home id hid⟩
  intro e m' hw hav
  refine ⟨hw ▸ h.traced.survives, fun ha => hav ⟨by simp [Abs.withLog, hin.held], ?_, ?_⟩⟩
  · exact lt_of_lt_of_le hl.head_mem.2.2 (hdisk ha)
  · exact Or.inr ⟨[], by decide, by simp [Abs.withLog, hdirty], by simp [Abs.withLog, hin.held]⟩

lemma wp_commitHead (hne : bs ≠ []) (hdisk : ample → g.start + g.size ≤ FSSIZE)
    (hfree : ample → bs.length < NBUF)
    (hsame : ∀ id ∉ g.blocks, id ∉ homes g bs → π.C j id = π.C (j + 1) id)
    (hfill : Filling g π j bs bs.length a)
    (hok : ∀ m' a', Stands g d₀ π (j + 1) (g.log o c bs) m' a' →
      Installing g (π.C (j + 1)) bs True 0 a' → Q () m') :
    wp writeHead Q (Crashed g d₀ π ample) m := by
  have hheader : HeaderIs (putHead bs (a.view g.head)) bs :=
    headerIs_putHead _ hl.length fun b hb => (hl.outside b hb).2
  refine wp_writeHead h.rep hdev (by rw [h.log]; exact ⟨rfl, rfl⟩) hfill.held ?_ ?_
  · intro m' h'
    have hlh : a.log.lh = bs := by rw [h.log]; rfl
    rw [hlh] at h'
    have hcount : commits g (a.writes ++ [(g.head, putHead bs (a.view g.head))]) = j + 1 := by
      rw [commits_head _ fun hzero => hne (hheader.word_zero.mp hzero), h.count]
    have hin : Installing g (π.C (j + 1)) bs True 0
        (a.write g.head (putHead bs (a.view g.head))) := by
      constructor
      · exact hfill.held
      · dsimp only [Abs.write]
        rw [hfill.dirty, drop_zero]
        ext id
        constructor
        · exact fun hid => ⟨trivial, hid.1⟩
        rintro ⟨_, b, hb, rfl⟩
        exact ⟨⟨b, hb, rfl⟩, (hl.home_ne hb hl.head_mem).symm⟩
      · intro id hid
        by_cases heq : id = g.head
        · subst heq
          rw [write_view_self, write_disk_self]
        · rw [write_view_of_ne heq, write_disk_of_ne heq]
          exact hfill.area id hid
      · rwa [write_disk_self]
      · intro t b hb
        rw [write_disk_of_ne (Area.slot_ne_head t)]
        exact hfill.slots t b (List.getElem?_eq_some_iff.mp hb).1 hb
      intro id hid hnot
      have hout : id ≠ g.head := by
        rintro rfl
        exact hid hl.head_mem
      rw [write_disk_of_ne hout, write_view_of_ne hout, (hfill.home id hid).1]
      exact ⟨hsame id hid hnot, (hfill.home id hid).2⟩
    exact hok m' _ (h.write h' hcount bs (hin.committed hl) fun hno => absurd hl.head_mem hno) hin
  intro e m' hw hav
  refine ⟨hw ▸ h.traced.survives, fun ha => hav ⟨by simp [hfill.held], ?_, ?_⟩⟩
  · exact lt_of_lt_of_le hl.head_mem.2.2 (hdisk ha)
  refine Or.inr ⟨bs.map g.home, by simpa using hfree ha, ?_, by simp [hfill.held]⟩
  rw [hfill.dirty]
  rintro id ⟨b, hb, rfl⟩
  exact mem_map_of_mem hb

lemma wp_commit (hnodup : bs.Nodup) (hne : bs ≠ [])
    (hdisk : ample → g.start + g.size ≤ FSSIZE)
    (hfree : ample → bs.length < NBUF)
    (hsame : ∀ id ∉ g.blocks, id ∉ homes g bs → π.C j id = π.C (j + 1) id)
    (hown : ∀ b ∈ bs, π.owns (j + 1) (g.home b)) (hfill : Filling g π j bs 0 a)
    (hok : ∀ m' a', Stands g d₀ π (j + 1) (g.log o c []) m' a' → Rest g π (j + 1) a' → Q () m') :
    wp commit Q (Crashed g d₀ π ample) m := by
  have hpos : 0 < (g.log o c bs).lh.length := length_pos_iff.mpr hne
  unfold commit
  rw [wp_bind, wp_get, h.rep.log, h.log, if_pos hpos, wp_bind]
  refine wp_writeLog h hdev hl hdisk hfree hfill fun m₁ a₁ h₁ hfill₁ => ?_
  rw [wp_bind]
  refine wp_commitHead h₁ hdev hl hne hdisk hfree hsame hfill₁ fun m₂ a₂ h₂ hin₂ => ?_
  rw [wp_bind]
  refine wp_installTrans h₂ hdev hl (fun _ => hnodup) hdisk (fun ha _ => hfree ha) hown hin₂ ?_
  exact fun m₃ a₃ h₃ hin₃ => wp_clear h₃ hdev hl hdisk hin₃ hok

end

end

lemma wp_recoverFromLog (h : Stands g d₀ π 0 (g.log 0 false []) m a) (hdev : g.dev ≠ 0)
    (hheld : a.held = []) (hdirty : a.dirty = ∅) (hview : a.view = a.disk)
    (hc : Committed g a.disk (π.C 0) bs) (hown : ∀ b ∈ bs, π.owns 0 (g.home b))
    (hok : ∀ m' a', Stands g d₀ π 0 (g.log 0 false []) m' a' → Rest g π 0 a' → Q () m') :
    wp recoverFromLog Q (Crashed g d₀ π (g.start + g.size ≤ FSSIZE)) m := by
  have hl : Listed g bs := ⟨hc.head.length, hc.room, hc.outside⟩
  unfold recoverFromLog
  rw [wp_bind]
  unfold readHead
  rw [wp_bind, wp_get, h.rep.log, h.log, wp_bind]
  refine wp_bread h.rep g.head hdev ?_ ?_
  · intro i m₁ _ h₁
    have hi : (i, g.head) ∈ (a.take i g.head).held := mem_cons_self ..
    have hdata := h₁.held_data hi
    change (m₁.buf i).data = a.view g.head at hdata
    rw [hview] at hdata
    rw [wp_bind, wp_get, wp_bind, wp_stopIf, hdata, hc.head.headCount_eq]
    refine ⟨fun hlt => absurd hc.head.length (not_le.mpr hlt), fun _ => ?_⟩
    unfold updLog
    rw [wp_bind, wp_modify, ← hc.head.headCount_eq, hc.head.read, h₁.log]
    change wp (brelse i) _ _ { m₁ with log := { a.log with lh := bs } }
    rw [h.log]
    refine wp_brelse (h₁.withLog (g.log 0 false bs)) hi (Or.inr (congrFun hview g.head).symm) ?_
    intro m₂ h₂
    have heq : ((a.take i g.head).withLog (g.log 0 false bs)).drop i =
        a.withLog (g.log 0 false bs) := by
      simp [Abs.withLog, Abs.take, Abs.drop, hheld]
    rw [heq] at h₂
    have hin : Installing g (π.C 0) bs False 0 (a.withLog (g.log 0 false bs)) := by
      refine ⟨hheld, by simp [Abs.withLog, hdirty], fun id _ => congrFun hview id, hc.head,
        hc.slots, ?_⟩
      intro id hid hnot
      have hrest := hc.rest id hid fun b hb heq => hnot ⟨b, by simpa using hb, heq⟩
      refine ⟨hrest, ?_⟩
      rw [← hrest]
      exact congrFun hview id
    rw [wp_bind]
    refine wp_installTrans ⟨h₂, rfl, h.count, h.traced.disk, h.traced.survives⟩ hdev hl
      (fun hp => hp.elim) id (fun _ hp => hp.elim) hown hin ?_
    exact fun m₃ a₃ h₃ hin₃ => wp_clear h₃ hdev hl id hin₃ hok
  intro e m' hw hav
  refine ⟨hw ▸ h.traced.survives, fun hdisk => hav ⟨by simp [hheld], ?_, ?_⟩⟩
  · exact lt_of_lt_of_le hl.head_mem.2.2 hdisk
  · exact Or.inr ⟨[], by decide, by simp [hdirty], by simp [hheld]⟩

end Loops
end Xv6.Logging
