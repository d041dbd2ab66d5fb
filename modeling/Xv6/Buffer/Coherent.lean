import Xv6.Buffer.Listed
import Xv6.Lib.Replay

/-!
# The buffer cache is a plain map

A block has one buffer in use at most. As long as nobody holds it, this buffer
has what the last holder left in the block; a block without a valid buffer has it
on the disk. A clean buffer agrees with the disk, so that it may be taken for
another block.
-/

namespace Xv6.Buffer.Shared
open Fs Lib Function

variable {ι : Type}

/-- The contract of the cache. A process changes and logs what it holds, and a buffer that was
changed is logged or written before it is released. -/
def Sys.Careful (s : Sys ι) (m : ι × Op) : Prop :=
  match m.2 with
  | .modify i _ => (s.buf i).holder = some m.1
  | .logWrite i => (s.buf i).holder = some m.1
  | .brelse i => (s.buf i).changed = true → (s.buf i).dirty = true
  | _ => True

/-- What a step shows of the blocks: `bread` returns the bytes of a block, and `brelse` leaves
bytes there. -/
def Sys.shows (s : Sys ι) (m : ι × Op) : List (Access BlockId Block) :=
  match m.2 with
  | .next =>
    match s.pc m.1 with
    | .acquiring id i => if (s.buf i).valid then [.read id (s.buf i).data] else []
    | .filling id i => [.read id ((s.iderw i).buf i).data]
    | _ => []
  | .brelse i => [.write (s.buf i).id (s.buf i).data]
  | _ => []

/-- A buffer that is held is valid, unless its holder is about to fill it. -/
structure Sys.Filled (s : Sys ι) : Prop where
  filling : ∀ p id i, s.pc p = .filling id i → (s.buf i).valid = false
  held : ∀ p i, (s.buf i).holder = some p → (s.buf i).valid = true ∨ ∃ id, s.pc p = .filling id i

/-- A buffer against the map and the disk. -/
structure Buf.Settled (map disk : BlockId → Block) (b : Buf ι) : Prop where
  dirty : b.dirty = true → b.valid = true
  kept : b.valid = true → b.holder = none → b.data = map b.id
  written : b.valid = true → b.dirty = false → b.changed = false → disk b.id = b.data
  free : b.holder = none → b.changed = true → b.dirty = true

/-- The cache and the disk together are the map. -/
structure Sys.Coherent (map : BlockId → Block) (s : Sys ι) : Prop where
  settled : ∀ i, (s.buf i).Settled map s.disk
  absent : ∀ id, (∀ i, (s.buf i).valid = true → (s.buf i).id ≠ id) → s.disk id = map id

variable {s s' : Sys ι} {i : Fin NBUF} {b : Buf ι} {map map' : BlockId → Block}

lemma Buf.Settled.congr {disk disk' : BlockId → Block} (h : b.Settled map disk)
    (hmap : b.valid = true → map' b.id = map b.id)
    (hdisk : b.valid = true → disk' b.id = disk b.id) : b.Settled map' disk' where
  dirty := h.dirty
  kept := fun hv hf => by rw [hmap hv, h.kept hv hf]
  written := fun hv hd hc => by rw [hdisk hv, h.written hv hd hc]
  free := h.free

lemma Sys.Coherent.set (h : s.Coherent map) {order : List (Fin NBUF)} (hl : s.Listed order)
    (hbuf : s'.buf = update s.buf i b) (hid : b.id = (s.buf i).id)
    (hlive : b.valid = true → s.Live i) (hvalid : (s.buf i).valid = true → b.valid = true)
    (hb : b.Settled map' s'.disk)
    (hsame : ∀ id, id ≠ b.id ∨ b.valid = false → map' id = map id ∧ s'.disk id = s.disk id) :
    s'.Coherent map' := by
  have hother : ∀ {j}, j ≠ i → s'.buf j = s.buf j := fun hj => by
    rw [hbuf, update_of_ne hj]
  have hself : s'.buf i = b := by rw [hbuf, update_self]
  refine ⟨fun j => ?_, fun id habsent => ?_⟩
  · by_cases hji : j = i
    · subst hji
      rwa [hself]
    rw [hother hji]
    have hname : (s.buf j).valid = true → (s.buf j).id ≠ b.id ∨ b.valid = false := by
      intro hj
      cases hv : b.valid with
      | false => exact .inr rfl
      | true => exact .inl fun heq => hji (hl.unique (.inl hj) (hlive hv) (heq.trans hid))
    exact (h.settled j).congr (fun hj => (hsame _ (hname hj)).1) fun hj => (hsame _ (hname hj)).2
  have hi := habsent i
  rw [hself] at hi
  have hdiff : id ≠ b.id ∨ b.valid = false := by
    cases hv : b.valid with
    | false => exact .inr rfl
    | true => exact .inl (hi hv).symm
  rw [(hsame id hdiff).1, (hsame id hdiff).2]
  refine h.absent id fun j hj => ?_
  by_cases hji : j = i
  · subst hji
    rw [← hid]
    exact hi (hvalid hj)
  · rw [← hother hji] at hj ⊢
    exact habsent j hj

lemma Sys.Coherent.recycle (h : s.Coherent map) (hbuf : s'.buf = update s.buf i b)
    (hdisk : s'.disk = s.disk) (hset : b.Settled map s.disk)
    (hholder : (s.buf i).holder = none) (hdirty : (s.buf i).dirty = false) : s'.Coherent map := by
  have hother : ∀ {j}, j ≠ i → s'.buf j = s.buf j := fun hj => by
    rw [hbuf, update_of_ne hj]
  have hself : s'.buf i = b := by rw [hbuf, update_self]
  refine ⟨fun j => ?_, fun id habsent => ?_⟩
  · rw [hdisk]
    by_cases hji : j = i
    · subst hji
      rwa [hself]
    · rw [hother hji]
      exact h.settled j
  rw [hdisk]
  by_cases hold : (s.buf i).valid = true ∧ (s.buf i).id = id
  · -- the block that the buffer had
    obtain ⟨hv, rfl⟩ := hold
    have hclean : (s.buf i).changed = false := by
      cases hc : (s.buf i).changed with
      | false => rfl
      | true => exact absurd ((h.settled i).free hholder hc) (by simp [hdirty])
    rw [(h.settled i).written hv hdirty hclean, (h.settled i).kept hv hholder]
  refine h.absent id fun j hj => ?_
  by_cases hji : j = i
  · subst hji
    exact fun heq => hold ⟨hj, heq⟩
  · rw [← hother hji] at hj ⊢
    exact habsent j hj

/-- A process that is not in a call holds valid buffers only. -/
lemma Sys.Filled.valid {p : ι} (h : s.Filled) (hpc : s.pc p = .idle)
    (hi : (s.buf i).holder = some p) : (s.buf i).valid = true :=
  (h.held p i hi).resolve_right fun ⟨_, hfill⟩ => by simp [hpc] at hfill

lemma Sys.Coherent.filling [Fintype ι] {p : ι} {id : BlockId} (h : s.Coherent map)
    (hs : s.Sound) (hf : s.Filled) (hpc : s.pc p = .filling id i) : s.disk id = map id := by
  obtain ⟨order, hl⟩ := hs.listed
  have hfits := hs.placed p
  rw [hpc] at hfits
  have hlive : s.Live i := .inr (hs.counted.pos_of_holder hfits.1)
  refine h.absent id fun j hj heq => ?_
  obtain rfl := hl.unique (.inl hj) hlive (heq.trans hfits.2.symm)
  simp [hf.filling p id j hpc] at hj

/-- The cache with the disk below it, and what the processes have seen. -/
structure Sys.Refines [Fintype ι] (d : BlockId → Block) (es : List (Access BlockId Block))
    (s : Sys ι) : Prop where
  sound : s.Sound
  filled : s.Filled
  coherent : s.Coherent (stored es d)
  reads : ReadsLast d es

lemma Sys.Refines.init [Fintype ι] (d : BlockId → Block) : (Sys.init d : Sys ι).Refines d [] where
  sound := Sys.Sound.init d
  filled := ⟨by simp [Sys.init], by simp [Sys.init]⟩
  coherent := ⟨fun _ => ⟨by simp [Sys.init], by simp [Sys.init], by simp [Sys.init],
    by simp [Sys.init]⟩, fun _ _ => rfl⟩
  reads := readsLast_nil d

section
variable [DecidableEq ι] {p : ι} {q : Pc}

lemma Sys.Filled.quiet (h : s.Filled) (hbuf : s'.buf = update s.buf i b)
    (hpc : s'.pc = update s.pc p q) (hp : ∀ id j, s.pc p ≠ .filling id j)
    (hq : ∀ id j, q ≠ .filling id j) (hvalid : b.valid = (s.buf i).valid ∨ b.valid = false)
    (hholder : b.holder = (s.buf i).holder ∧ b.valid = (s.buf i).valid ∨ b.holder = none) :
    s'.Filled := by
  have hplace : ∀ r id j, s'.pc r = .filling id j ↔ s.pc r = .filling id j := by
    intro r id j
    rw [hpc]
    by_cases hr : r = p
    · subst hr
      simp [hp, hq]
    · rw [update_of_ne hr]
  constructor
  · intro r id j hr
    have hj := h.filling r id j ((hplace r id j).mp hr)
    rw [hbuf]
    by_cases hji : j = i
    · subst hji
      rw [update_self]
      exact hvalid.elim (fun heq => heq.trans hj) fun hfalse => hfalse
    · rwa [update_of_ne hji]
  intro r j hj
  simp only [hplace]
  rw [hbuf] at hj ⊢
  by_cases hji : j = i
  · subst hji
    rw [update_self] at hj ⊢
    obtain ⟨hsame, hv⟩ | hnone := hholder
    · rw [hv]
      exact h.held r j (hsame ▸ hj)
    · rw [hnone] at hj
      cases hj
  · rw [update_of_ne hji] at hj ⊢
    exact h.held r j hj

variable {m : ι × Op} {es : List (Access BlockId Block)} {d : BlockId → Block}

/-- Most steps leave nothing behind. -/
lemma Moved.stored_shows (hm : Moved s m s') (hrel : ∀ i, m.2 ≠ .brelse i) :
    stored (es ++ s.shows m) d = stored es d := by
  cases hm with
  | hit | recycle | modify | logWrite | bwrite => simp [Sys.shows]
  | lock hpc =>
    simp only [Sys.shows, hpc]
    split
    · rw [stored_concat_read]
    · rw [List.append_nil]
  | transfer hpc =>
    obtain ⟨id, hpc⟩ | hpc := hpc
    · simp only [Sys.shows, hpc, stored_concat_read]
    · simp [Sys.shows, hpc]
  | unref hpc => simp [Sys.shows, hpc]
  | brelse => exact absurd rfl (hrel _)

variable [Fintype ι]

lemma Moved.filled (hm : Moved s m s') (hs : s.Sound) (h : s.Filled) : s'.Filled := by
  have hidle : ∀ {p}, s.pc p = .idle → ∀ id j, s.pc p ≠ .filling id j := fun hp _ _ => by simp [hp]
  cases hm with
  | hit hpc hfind | bwrite hpc hheld =>
    exact h.quiet rfl rfl (hidle hpc) (by simp) (.inl rfl) (.inl ⟨rfl, rfl⟩)
  | recycle hpc hnone hfind =>
    have hfree := hs.recyclable hfind
    exact h.quiet rfl rfl (hidle hpc) (by simp) (.inr rfl) (.inr hfree.1)
  | @lock p id i hpc hfree =>
    constructor
    · intro r id' j hr
      have hj : (s.buf j).valid = false := by
        by_cases hrp : r = p
        · subst hrp
          rw [Sys.setPc_pc, update_self] at hr
          cases hv : (s.buf i).valid with
          | true => simp [hv] at hr
          | false =>
            rw [hv, if_neg (by simp)] at hr
            exact (Pc.filling.inj hr).2 ▸ hv
        · rw [Sys.setPc_pc, update_of_ne hrp] at hr
          exact h.filling r id' j hr
      rw [Sys.setPc_buf, Sys.setBuf_buf]
      by_cases hji : j = i
      · subst hji
        simpa using hj
      · rwa [update_of_ne hji]
    intro r j hj
    rw [Sys.setPc_buf, Sys.setBuf_buf, Sys.setPc_pc] at *
    by_cases hji : j = i
    · subst hji
      obtain rfl : p = r := by simpa using hj
      cases hv : (s.buf j).valid with
      | true => exact .inl (by simpa using hv)
      | false => exact .inr ⟨id, by simp⟩
    rw [update_of_ne hji] at hj ⊢
    refine (h.held r j hj).imp_right fun ⟨id', hr⟩ => ⟨id', ?_⟩
    have hrp : r ≠ p := by
      rintro rfl
      simp [hpc] at hr
    rwa [update_of_ne hrp]
  | @transfer p i hpc =>
    have hi := hs.placed.holder hpc
    constructor
    · intro r id' j hr
      have hrp : r ≠ p := by
        rintro rfl
        simp at hr
      rw [Sys.setPc_pc, update_of_ne hrp, Sys.iderw_pc] at hr
      have hji : j ≠ i := by
        rintro rfl
        have hj := hs.placed.holder (.inl ⟨id', hr⟩)
        exact hrp (Option.some.inj (hj.symm.trans hi))
      rw [Sys.setPc_buf, Sys.iderw_buf, update_of_ne hji]
      exact h.filling r id' j hr
    intro r j hj
    rw [Sys.setPc_buf, Sys.iderw_buf] at *
    by_cases hji : j = i
    · subst hji
      exact .inl (by simp)
    rw [update_of_ne hji] at hj ⊢
    refine (h.held r j hj).imp_right fun ⟨id', hr⟩ => ⟨id', ?_⟩
    have hrp : r ≠ p := by
      rintro rfl
      rcases hpc with ⟨id, hpc⟩ | hpc
      · exact hji (Pc.filling.inj (hr.symm.trans hpc)).2
      · simp [hpc] at hr
    rwa [Sys.setPc_pc, update_of_ne hrp, Sys.iderw_pc]
  | @unref p i hpc =>
    exact h.quiet (s.unref_buf i) (by rw [Sys.setPc_pc, Sys.unref_pc])
      (by simp [hpc]) (by simp) (.inl rfl) (.inl ⟨rfl, rfl⟩)
  | @modify p i d hpc | @logWrite p i hpc =>
    exact h.quiet rfl (update_eq_self ..).symm (hidle hpc) (hidle hpc) (.inl rfl) (.inl ⟨rfl, rfl⟩)
  | brelse hpc hheld =>
    exact h.quiet rfl rfl (hidle hpc) (by simp) (.inl rfl) (.inr rfl)

lemma Moved.reads (hm : Moved s m s') (hs : s.Sound) (hf : s.Filled)
    (h : s.Coherent (stored es d)) (hread : ReadsLast d es) : ReadsLast d (es ++ s.shows m) := by
  cases hm with
  | hit | recycle | modify | logWrite | bwrite => simpa [Sys.shows] using hread
  | @lock p id i hpc hfree =>
    have hid : (s.buf i).id = id := by simpa [hpc, Pc.Fits] using hs.placed p
    rcases hv : (s.buf i).valid with _ | _
    · simpa [Sys.shows, hpc, hv] using hread
    simp only [Sys.shows, hpc, hv, if_true]
    refine hread.read ?_
    rw [(h.settled i).kept hv hfree, hid]
  | @transfer p i hpc =>
    obtain ⟨id, hpc⟩ | hpc := hpc
    · simp only [Sys.shows, hpc]
      refine hread.read ?_
      have hid : (s.buf i).id = id := by
        have hfits := hs.placed p
        rw [hpc] at hfits
        exact hfits.2
      have hclean : (s.buf i).dirty = false := by
        by_contra hdirty
        have hv := (h.settled i).dirty (by simpa using hdirty)
        simp [hf.filling p id i hpc] at hv
      rw [← h.filling hs hf hpc, Sys.iderw_buf]
      simp [Buf.transfer, hclean, hid]
    · simpa [Sys.shows, hpc] using hread
  | unref hpc => simpa [Sys.shows, hpc] using hread
  | brelse => exact hread.write _ _

lemma Moved.coherent (hm : Moved s m s') (hok : s.Careful m) (hs : s.Sound) (hf : s.Filled)
    (h : s.Coherent map) (hrel : ∀ i, m.2 ≠ .brelse i) : s'.Coherent map := by
  obtain ⟨order, hl⟩ := hs.listed
  cases hm with
  | @hit p id i hpc hfind =>
    obtain ⟨hdirty, hkept, hwritten, hfree⟩ := h.settled i
    exact h.set hl rfl rfl .inl (fun hv => hv) ⟨hdirty, hkept, hwritten, hfree⟩ fun _ _ =>
      ⟨rfl, rfl⟩
  | @recycle p id i hpc hnone hfind =>
    obtain ⟨hholder, -, -, hdirty⟩ := hs.recyclable hfind
    refine h.recycle rfl rfl ⟨?_, ?_, ?_, ?_⟩ hholder hdirty
    · simp
    · simp
    · simp
    · intro _ hchanged
      exact absurd ((h.settled i).free hholder hchanged) (by simp [hdirty])
  | @lock p id i hpc hfree =>
    obtain ⟨hdirty, -, hwritten, -⟩ := h.settled i
    refine h.set hl rfl rfl .inl (fun hv => hv) ⟨hdirty, ?_, hwritten, ?_⟩ fun _ _ => ⟨rfl, rfl⟩
    · simp
    · simp
  | @transfer p i hpc =>
    have hi := hs.placed.holder hpc
    have hlive : s.Live i := .inr (hs.counted.pos_of_holder hi)
    refine h.set hl (s.iderw_buf i) rfl (fun _ => hlive) (fun _ => rfl) ⟨?_, ?_, ?_, ?_⟩ ?_
    · simp
    · simp [hi]
    · intro _ _ _
      rw [Sys.setPc_disk, Sys.iderw_disk]
      cases hd : (s.buf i).dirty <;> simp [Buf.transfer, hd]
    · simp [hi]
    intro id hid
    have hid : id ≠ (s.buf i).id := hid.resolve_right (by simp)
    rw [Sys.setPc_disk, Sys.iderw_disk]
    split
    · exact ⟨rfl, update_of_ne hid ..⟩
    · exact ⟨rfl, rfl⟩
  | @unref p i hpc =>
    obtain ⟨hdirty, hkept, hwritten, hfree⟩ := h.settled i
    have hdisk := s.unref_disk i
    exact h.set hl (s.unref_buf i) rfl .inl (fun hv => hv)
      (hdisk ▸ ⟨hdirty, hkept, hwritten, hfree⟩) fun id _ => ⟨rfl, congrFun hdisk id⟩
  | @modify p i d hpc =>
    obtain ⟨hdirty, -, -, -⟩ := h.settled i
    have hi : (s.buf i).holder = some p := hok
    refine h.set hl rfl rfl .inl (fun hv => hv) ⟨hdirty, ?_, ?_, ?_⟩ fun _ _ => ⟨rfl, rfl⟩
    · simp [hi]
    · simp
    · simp [hi]
  | @logWrite p i hpc =>
    have hi : (s.buf i).holder = some p := hok
    refine h.set hl rfl rfl .inl (fun hv => hv) ⟨?_, ?_, ?_, ?_⟩ fun _ _ => ⟨rfl, rfl⟩
    · exact fun _ => hf.valid hpc hi
    · simp [hi]
    · simp
    · simp
  | @bwrite p i hpc hi =>
    refine h.set hl rfl rfl .inl (fun hv => hv) ⟨?_, ?_, ?_, ?_⟩ fun _ _ => ⟨rfl, rfl⟩
    · exact fun _ => hf.valid hpc hi
    · simp [hi]
    · simp
    · simp
  | brelse => exact absurd rfl (hrel _)

lemma Sys.Coherent.brelse (h : s.Coherent map) (hs : s.Sound) (hf : s.Filled)
    (hpc : s.pc p = .idle) (hi : (s.buf i).holder = some p) (hok : s.Careful (p, .brelse i)) :
    ((s.setBuf i (s.buf i).unlock).setPc p (.releasing i)).Coherent
      (update map (s.buf i).id (s.buf i).data) := by
  obtain ⟨order, hl⟩ := hs.listed
  obtain ⟨hdirty, -, hwritten, -⟩ := h.settled i
  refine h.set hl rfl rfl .inl (fun hv => hv) ⟨hdirty, ?_, hwritten, ?_⟩ fun id hid => ?_
  · exact fun _ _ => (update_self (f := map) ..).symm
  · exact fun _ => hok
  · have hid := hid.resolve_right (by simp [hf.valid hpc hi])
    exact ⟨update_of_ne hid .., rfl⟩

lemma Sys.Refines.step (h : s.Refines d es) (hok : s.Careful m) (hstep : s.step m = some s') :
    s'.Refines d (es ++ s.shows m) := by
  have hm := Moved.of_step hstep
  obtain ⟨hs, hf, hc, hr⟩ := h
  refine ⟨⟨hm.placed hs, hm.counted hs, hm.listed hs⟩, hm.filled hs hf, ?_, hm.reads hs hf hc hr⟩
  cases hm with
  | brelse hpc hi =>
    rw [Sys.shows, stored_concat_write]
    exact hc.brelse hs hf hpc hi hok
  | hit | recycle | lock | transfer | unref | modify | logWrite | bwrite =>
    rw [Moved.stored_shows (Moved.of_step hstep) (by simp)]
    exact (Moved.of_step hstep).coherent hok hs hf hc (by simp)

end
end Xv6.Buffer.Shared
