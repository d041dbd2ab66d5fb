import Xv6.Buffer.Demand

/-!
# When the buffer cache is large enough

A dirty buffer that nobody transfers is for a block in the log, because a commit installs every
block before it empties the log. So a buffer that cannot be taken for another block is in
the hands of a process or its block is in the log, and `bget` finds one as long as fewer than
`NBUF` blocks are busy. It panics as soon as all buffers are taken.
-/

namespace Xv6.Buffer.Shared.Demand
open Fs Lib Logging Function Option

/-! ### What a commit has done -/

/-- The buffers that a commit holds, the blocks that it has written, and the blocks in the log. -/
structure Progress where
  hand : Fin NBUF → Option BlockId
  written : Set BlockId
  lh : List ℕ

namespace Progress

variable (e : Progress)

@[simps]
def take (i : Fin NBUF) (id : BlockId) : Progress := { e with hand := update e.hand i (some id) }

@[simps]
def drop (i : Fin NBUF) : Progress := { e with hand := update e.hand i none }

@[simps]
def write (id : BlockId) : Progress := { e with written := insert id e.written }

@[simps]
def clear : Progress := { e with lh := [] }

end Progress

/-- What the calls of a commit add to its progress. The log is emptied when all its blocks have
been written. -/
def terms (dev : ℕ) : (o : LogCalls.Op) → Progress → (LogCalls.Res o → Progress → Prop) → Prop
  | .cache (.bread id), e, Q => ∀ i : Fin NBUF, e.hand i = none → Q i (e.take i id)
  | .cache (.data _), e, Q => ∀ d : Block, Q d e
  | .cache (.modify _ _), e, Q => Q () e
  | .cache (.logWrite _), _, _ => False
  | .cache (.bwrite i), e, Q => ∃ id, e.hand i = some id ∧ Q () (e.write id)
  | .cache (.brelse i), e, Q => Q () (e.drop i)
  | .clear, e, Q => (∀ b ∈ e.lh, ⟨dev, b⟩ ∈ e.written) ∧ Q () e.clear
  | .leave, e, Q => Q () e

/-- The code keeps track of its progress. -/
abbrev Keeps {α : Type} (dev : ℕ) (Q : α → Progress → Prop) (x : LogCode α) (e : Progress) : Prop :=
  x.Obeys (terms dev) Q e

section Commit
variable {α β : Type} {dev : ℕ} {e e' e'' : Progress} {Q : α → Progress → Prop} {l : Log}

lemma bread_keeps {id : BlockId} {f : Fin NBUF → Client α}
    (hf : ∀ i, e.hand i = none → Keeps dev Q (cached (f i)) (e.take i id)) :
    Keeps dev Q (cached (bread id >>= f)) e := hf

variable {i : Fin NBUF}

lemma data_keeps {f : Block → Client α}
    (hf : ∀ d, Keeps dev Q (cached (f d)) e) : Keeps dev Q (cached (data i >>= f)) e := hf

variable {f : Unit → Client α}

lemma modify_keeps {d : Block} (hf : Keeps dev Q (cached (f ())) e) :
    Keeps dev Q (cached (modify i d >>= f)) e := hf

lemma bwrite_keeps {id : BlockId} (hi : e.hand i = some id)
    (hf : Keeps dev Q (cached (f ())) (e.write id)) :
    Keeps dev Q (cached (bwrite i >>= f)) e := ⟨id, hi, hf⟩

lemma brelse_keeps (hf : Keeps dev Q (cached (f ())) (e.drop i)) :
    Keeps dev Q (cached (brelse i >>= f)) e := hf

lemma cached_bind (x : Client β) (f : β → Client α) :
    cached (x >>= f) = cached x >>= fun a => cached (f a) := by
  induction x with
  | ret a => rfl
  | op c k ih => exact congrArg (Prog.op (LogCall.cache c)) (funext fun r => ih r)

lemma bind_keeps {x : LogCode β} {f : β → LogCode α}
    (hx : Keeps dev (fun b => Keeps dev Q (f b)) x e) : Keeps dev Q (x >>= f) e := by
  rwa [Keeps, Prog.obeys_bind]

/-- The commit has written more and given back what it held. -/
structure Advance (e e' : Progress) : Prop where
  hand : e'.hand = fun _ => none
  lh : e'.lh = e.lh
  written : e.written ⊆ e'.written

lemma Advance.trans (h : Advance e e') (h' : Advance e' e'') : Advance e e'' :=
  ⟨h'.hand, h'.lh.trans h.lh, h.written.trans h'.written⟩

/-- Whatever was written before, the code writes these blocks too. -/
def Writes (dev : ℕ) (x : Client Unit) (ids : Set BlockId) : Prop :=
  ∀ (e : Progress) (Q : Unit → Progress → Prop), e.hand = (fun _ => none) →
    (∀ e', Advance e e' → ids ⊆ e'.written → Q () e') → Keeps dev Q (cached x) e

lemma copyTo_keeps {i j : Fin NBUF} {a b : BlockId} {Q : Unit → Progress → Prop} (hij : i ≠ j)
    (hi : e'.hand = update (update (fun _ => none) i (some a)) j (some b) ∨
      e'.hand = update (update (fun _ => none) j (some b)) i (some a))
    (hlh : e'.lh = e.lh) (hwritten : e'.written = e.written)
    (hQ : ∀ e'', Advance e e'' → {b} ⊆ e''.written → Q () e'') :
    Keeps dev Q (cached (copyTo i j)) e' := by
  have hj : e'.hand j = some b := by
    rcases hi with hi | hi <;> simp [hi, hij.symm]
  refine data_keeps fun d => modify_keeps (bwrite_keeps hj (brelse_keeps ?_))
  refine hQ _ ⟨funext fun k => ?_, hlh, ?_⟩ ?_
  · by_cases hkj : k = j
    · simp [hkj]
    by_cases hki : k = i
    · simp [hki, hij]
    · rcases hi with hi | hi <;> simp [hi, hki, hkj]
  · simp [hwritten, Set.subset_insert]
  · simp

lemma installBlock_writes (block : ℕ × ℕ) :
    Writes dev (installBlock l block) {⟨l.dev, block.1⟩} := by
  intro e Q hhand hQ
  refine bread_keeps fun i hi => bread_keeps fun j hj => ?_
  have hij : i ≠ j := by
    rintro rfl
    simp at hj
  exact copyTo_keeps (e := e) hij (.inl (by rw [← hhand]; rfl)) rfl rfl hQ

lemma logBlock_writes (block : ℕ × ℕ) : Writes dev (logBlock l block) ∅ := by
  intro e Q hhand hQ
  refine bread_keeps fun i hi => bread_keeps fun j hj => ?_
  have hij : i ≠ j := by
    rintro rfl
    simp at hj
  refine copyTo_keeps (e := e) hij.symm (.inr (by rw [← hhand]; rfl)) rfl rfl ?_
  exact fun e'' h _ => hQ e'' h (Set.empty_subset _)

lemma writeHead_writes : Writes dev (writeHead l) ∅ := by
  intro e Q hhand hQ
  refine bread_keeps fun i hi => data_keeps fun d => modify_keeps ?_
  have hheld : (e.take i ⟨l.dev, l.start⟩).hand i = some ⟨l.dev, l.start⟩ := by simp
  refine bwrite_keeps hheld ?_
  refine hQ _ ⟨funext fun k => ?_, rfl, Set.subset_insert ..⟩ (Set.empty_subset _)
  by_cases hk : k = i <;> simp [hk, hhand]

lemma forM_writes {f : β → Client Unit} {ids : β → Set BlockId}
    (hf : ∀ x, Writes dev (f x) (ids x)) (xs : List β) :
    Writes dev (xs.forM f) {id | ∃ x ∈ xs, id ∈ ids x} := by
  induction xs with
  | nil =>
    intro e Q hhand hQ
    exact hQ e ⟨hhand, rfl, Set.Subset.rfl⟩ (by simp)
  | cons x xs ih =>
    intro e Q hhand hQ
    change Keeps dev Q (cached (f x >>= fun _ => xs.forM f)) e
    rw [cached_bind]
    refine bind_keeps (hf x e _ hhand fun e' h hx => ?_)
    refine ih e' _ h.hand fun e'' h' hxs => hQ e'' (h.trans h') ?_
    rintro id ⟨y, hy, hid⟩
    rcases List.mem_cons.mp hy with rfl | hy
    · exact h'.written (hx hid)
    · exact hxs ⟨y, hy, hid⟩

lemma commit_keeps (hhand : e.hand = fun _ => none) (hlh : e.lh = l.lh) :
    Keeps l.dev (fun _ _ => True) (commit l) e := by
  unfold commit
  split
  · refine bind_keeps (forM_writes (logBlock_writes) _ e _ hhand fun e₁ h₁ _ => ?_)
    refine bind_keeps (writeHead_writes e₁ _ h₁.hand fun e₂ h₂ _ => ?_)
    refine bind_keeps (forM_writes (installBlock_writes) _ e₂ _ h₂.hand fun e₃ h₃ hids => ?_)
    refine bind_keeps ⟨fun b hb => hids ?_, ?_⟩
    · rw [h₃.lh, h₂.lh, h₁.lh, hlh] at hb
      obtain ⟨k, hk⟩ := List.mem_iff_getElem?.mp hb
      exact ⟨(b, k), List.mk_mem_zipIdx_iff_getElem?.mpr hk, rfl⟩
    · exact bind_keeps (writeHead_writes e₃.clear _ h₃.hand fun _ _ _ => trivial)
  · trivial

end Commit

/-! ### Dirty buffers -/

section Moves
variable {ι : Type} [DecidableEq ι] {s s' : Sys ι} {p q r : ι} {o : Op} {i j : Fin NBUF}
  {b : Buf ι} {e : Progress}

omit [DecidableEq ι] in
lemma rel_of_update {R : Fin NBUF → Buf ι → Buf ι → Prop} (hrefl : ∀ j x, R j x x)
    (hbuf : s'.buf = update s.buf i b) (hb : R i (s.buf i) b) (j : Fin NBUF) :
    R j (s.buf j) (s'.buf j) := by
  rw [hbuf]
  by_cases hji : j = i
  · subst hji
    rwa [update_self]
  · rw [update_of_ne hji]
    exact hrefl j _

section
variable (hm : Moved s (p, o) s')
include hm

/-- Only `log_write` and `bwrite` make a buffer dirty. -/
lemma dirty_cases : (s'.buf j).dirty = true → (s'.buf j).id = (s.buf j).id ∧
      ((s.buf j).dirty = true ∨ o = .logWrite j ∨ o = .bwrite j ∧ s'.pc p = .flushing j) := by
  have hset : ∀ {i b}, s'.buf = update s.buf i b →
      (b.dirty = true → b.id = (s.buf i).id ∧ ((s.buf i).dirty = true ∨ o = .logWrite i ∨
        o = .bwrite i ∧ s'.pc p = .flushing i)) → _ := fun hbuf hb =>
    rel_of_update (R := fun j x y => y.dirty = true → y.id = x.id ∧ (x.dirty = true ∨
      o = .logWrite j ∨ o = .bwrite j ∧ s'.pc p = .flushing j))
      (fun _ _ hx => ⟨rfl, .inl hx⟩) hbuf hb j
  cases hm with
  | hit | lock | modify | brelse => exact hset rfl fun hb => ⟨rfl, .inl hb⟩
  | recycle => exact hset rfl fun hb => by simp at hb
  | transfer => exact hset (Sys.iderw_buf ..) fun hb => by simp at hb
  | unref => exact hset (Sys.unref_buf ..) fun hb => ⟨rfl, .inl hb⟩
  | logWrite => exact hset rfl fun _ => ⟨rfl, .inr (.inl rfl)⟩
  | bwrite => exact hset rfl fun _ => ⟨rfl, .inr (.inr ⟨rfl, update_self ..⟩)⟩

lemma dirty_of_moved (hlog : ∀ i, o ≠ .logWrite i)
    (hwrite : ∀ i, o ≠ .bwrite i) (hj : (s'.buf j).dirty = true) :
    (s.buf j).dirty = true ∧ (s'.buf j).id = (s.buf j).id := by
  obtain ⟨hid, hold | hnew | ⟨hnew, -⟩⟩ := dirty_cases hm hj
  · exact ⟨hold, hid⟩
  · exact absurd hnew (hlog j)
  · exact absurd hnew (hwrite j)

lemma holder_of_moved (hr : r ≠ p) : (s.buf j).holder = some r → (s'.buf j).holder = some r := by
  have hset : ∀ {i b}, s'.buf = update s.buf i b →
      ((s.buf i).holder = some r → b.holder = some r) → _ := fun hbuf hb =>
    rel_of_update (R := fun _ x y => x.holder = some r → y.holder = some r) (fun _ _ hx => hx)
      hbuf hb j
  cases hm with
  | hit | recycle | modify | logWrite | bwrite => exact hset rfl id
  | lock _ hfree => exact hset rfl fun hi => by simp [hfree] at hi
  | transfer => exact hset (Sys.iderw_buf ..) id
  | unref => exact hset (Sys.unref_buf ..) id
  | brelse _ hi => exact hset rfl fun hi' => absurd (Option.some.inj (hi'.symm.trans hi)) hr

lemma flushing_of_moved (hq : s.pc q = .flushing j) :
    s'.pc q = .flushing j ∨ (s'.buf j).dirty = false := by
  by_cases hqp : q = p
  · subst hqp
    cases hm with
    | transfer hpc =>
      refine .inr ?_
      obtain ⟨id, hpc⟩ | hpc := hpc
      · simp [hq] at hpc
      obtain rfl := Pc.flushing.inj (hq.symm.trans hpc)
      simp
    | hit hpc | recycle hpc | lock hpc | unref hpc | modify hpc | logWrite hpc | bwrite hpc
    | brelse hpc => simp [hq] at hpc
  · exact .inl ((hm.pc_eq hqp).trans hq)

lemma valid_of_moved (hf : s.Filled) (hlog : ∀ i, o = .logWrite i → (s.buf i).holder = some p) :
    ((s.buf j).dirty = true → (s.buf j).valid = true) →
      (s'.buf j).dirty = true → (s'.buf j).valid = true := by
  have hset : ∀ {i b}, s'.buf = update s.buf i b →
      (((s.buf i).dirty = true → (s.buf i).valid = true) → b.dirty = true → b.valid = true) → _ :=
    fun hbuf hb => rel_of_update (R := fun _ x y => (x.dirty = true → x.valid = true) →
      y.dirty = true → y.valid = true) (fun _ _ hx => hx) hbuf hb j
  cases hm with
  | hit | lock | modify | brelse => exact hset rfl id
  | recycle => exact hset rfl fun _ hb => by simp at hb
  | transfer => exact hset (Sys.iderw_buf ..) fun _ _ => rfl
  | unref => exact hset (Sys.unref_buf ..) id
  | logWrite hpc => exact hset rfl fun _ _ => hf.valid hpc (hlog _ rfl)
  | bwrite hpc hi => exact hset rfl fun _ _ => hf.valid hpc hi

end

/-- The commit holds the buffers in its hand, and what it has written is clean. -/
structure Holds (s : Sys ι) (p : ι) (e : Progress) : Prop where
  hand : ∀ i id, e.hand i = some id → (s.buf i).holder = some p ∧ (s.buf i).id = id
  written : ∀ i, (s.buf i).id ∈ e.written → (s.buf i).dirty = true → s.pc p = .flushing i

/-- Another process does not disturb a commit. -/
lemma Holds.other [Fintype ι] (h : Holds s r e) (hs : s.Sound) (hm : Moved s (p, o) s')
    (hr : r ≠ p) (hlog : ∀ i, o ≠ .logWrite i) (hwrite : ∀ i, o ≠ .bwrite i) : Holds s' r e := by
  constructor
  · intro i id hi
    obtain ⟨hholder, hid⟩ := h.hand i id hi
    refine ⟨holder_of_moved hm hr hholder, ?_⟩
    rw [hm.id_eq hs (.inl (hs.counted.pos_of_holder hholder)), hid]
  intro i hi hdirty
  obtain ⟨hold, hid⟩ := dirty_of_moved hm hlog hwrite hdirty
  rw [hm.pc_eq hr]
  exact h.written i (hid ▸ hi) hold

/-- The process runs the rest `x` of its commit, or is in the first call of it. -/
inductive Follows (dev : ℕ) (lh : List ℕ) (s : Sys ι) (p : ι) : LogCode Unit → Prop
  | idle {x : LogCode Unit} {e : Progress} (hpc : s.pc p = .idle)
      (hx : Keeps dev (fun _ _ => True) x e) (hh : Holds s p e) (hlh : e.lh = lh) :
      Follows dev lh s p x
  | acquiring {id : BlockId} {i : Fin NBUF} {k : LogCalls.Res (.cache (.bread id)) → LogCode Unit}
      {e : Progress} (hpc : s.pc p = .acquiring id i)
      (hk : ∀ j, e.hand j = none → Keeps dev (fun _ _ => True) (k j) (e.take j id))
      (hh : Holds s p e) (hlh : e.lh = lh) : Follows dev lh s p (.op (.cache (.bread id)) k)
  | filling {id : BlockId} {i : Fin NBUF} {k : LogCalls.Res (.cache (.bread id)) → LogCode Unit}
      {e : Progress} (hpc : s.pc p = .filling id i) (hk : Keeps dev (fun _ _ => True) (k i) e)
      (hh : Holds s p e) (hlh : e.lh = lh) : Follows dev lh s p (.op (.cache (.bread id)) k)
  | flushing {id : BlockId} {i : Fin NBUF} {k : LogCalls.Res (.cache (.bwrite i)) → LogCode Unit}
      {e : Progress} (hpc : s.pc p = .flushing i) (hi : e.hand i = some id)
      (hk : Keeps dev (fun _ _ => True) (k ()) (e.write id)) (hh : Holds s p e)
      (hlh : e.lh = lh) : Follows dev lh s p (.op (.cache (.bwrite i)) k)
  | releasing {i : Fin NBUF} {k : LogCalls.Res (.cache (.brelse i)) → LogCode Unit}
      {e : Progress} (hpc : s.pc p = .releasing i) (hk : Keeps dev (fun _ _ => True) (k ()) e)
      (hh : Holds s p e) (hlh : e.lh = lh) : Follows dev lh s p (.op (.cache (.brelse i)) k)

variable {dev : ℕ} {lh : List ℕ} {x : LogCode Unit}

lemma Follows.other [Fintype ι] (h : Follows dev lh s r x) (hs : s.Sound)
    (hm : Moved s (p, o) s') (hr : r ≠ p) (hlog : ∀ i, o ≠ .logWrite i)
    (hwrite : ∀ i, o ≠ .bwrite i) : Follows dev lh s' r x := by
  have hpc := hm.pc_eq hr
  have hhold : ∀ {e}, Holds s r e → Holds s' r e := fun hh => hh.other hs hm hr hlog hwrite
  cases h with
  | idle hp hx hh hlh => exact .idle (hpc.trans hp) hx (hhold hh) hlh
  | acquiring hp hk hh hlh => exact .acquiring (hpc.trans hp) hk (hhold hh) hlh
  | filling hp hk hh hlh => exact .filling (hpc.trans hp) hk (hhold hh) hlh
  | flushing hp hi hk hh hlh => exact .flushing (hpc.trans hp) hi hk (hhold hh) hlh
  | releasing hp hk hh hlh => exact .releasing (hpc.trans hp) hk (hhold hh) hlh

omit [DecidableEq ι] in
lemma Follows.of_idle (h : Follows dev lh s p x) (hpc : s.pc p = .idle) :
    ∃ e, Keeps dev (fun _ _ => True) x e ∧ Holds s p e ∧ e.lh = lh := by
  cases h with
  | idle _ hx hh hlh => exact ⟨_, hx, hh, hlh⟩
  | acquiring hp | filling hp | flushing hp | releasing hp => simp [hpc] at hp

/-- What the commit itself does to a buffer. What it has written stays clean until it writes it
again. -/
lemma Holds.own {e' : Progress} (h : Holds s p e) (hm : Moved s (p, o) s')
    (hlog : ∀ i, o ≠ .logWrite i) (hwrite : ∀ i, o ≠ .bwrite i)
    (hflush : ∀ i, s.pc p ≠ .flushing i) (hbuf : s'.buf = update s.buf i b)
    (hother : ∀ j id, j ≠ i → e'.hand j = some id → e.hand j = some id)
    (hi : ∀ id, e'.hand i = some id → b.holder = some p ∧ b.id = id)
    (hwritten : e'.written = e.written) : Holds s' p e' := by
  constructor
  · intro j id hj
    rw [hbuf]
    by_cases hji : j = i
    · subst hji
      rw [update_self]
      exact hi id hj
    · rw [update_of_ne hji]
      exact h.hand j id (hother j id hji hj)
  intro j hj hdirty
  obtain ⟨hold, hid⟩ := dirty_of_moved hm hlog hwrite hdirty
  rw [hwritten, hid] at hj
  exact absurd (h.written j hj hold) (hflush j)

/-- The commit goes on when its call has ended. -/
structure GoesOn (dev : ℕ) (lh : List ℕ) (s s' : Sys ι) (p : ι) (c : Call)
    (k : LogCalls.Res (.cache c) → LogCode Unit) : Prop where
  ended : s'.pc p = .idle → Follows dev lh s' p (k (s.result p c))
  busy : s'.pc p ≠ .idle → Follows dev lh s' p (.op (.cache c) k)

lemma Follows.call [Fintype ι] {c : Call} {k : LogCalls.Res (.cache c) → LogCode Unit}
    (h : Follows dev lh s p (.op (.cache c) k)) (hpc : s.pc p = .idle) (ho : c.op = some o)
    (hs : s.Sound) (hm : Moved s (p, o) s') : GoesOn dev lh s s' p c k := by
  obtain ⟨e, hx, hh, hlh⟩ := h.of_idle hpc
  have hflush : ∀ i, s.pc p ≠ .flushing i := fun i => by simp [hpc]
  cases c with
  | data i => cases ho
  | logWrite i => exact hx.elim
  | bread id =>
    cases ho
    have hm' := hm
    cases hm with
    | @hit _ _ i _ hfind =>
      refine ⟨fun hidle => by simp at hidle, fun _ => ?_⟩
      refine .acquiring (update_self ..) hx (hh.own hm' (by simp) (by simp) hflush rfl
        (fun _ _ _ hj => hj) (fun id hi => hh.hand i id hi) rfl) hlh
    | @recycle _ _ i _ _ hfind =>
      obtain ⟨hholder, -⟩ := hs.recyclable hfind
      refine ⟨fun hidle => by simp at hidle, fun _ => ?_⟩
      refine .acquiring (update_self ..) hx (hh.own hm' (by simp) (by simp) hflush rfl
        (fun _ _ _ hj => hj) (fun id hi => ?_) rfl) hlh
      exact absurd (hh.hand i id hi).1 (by simp [hholder])
  | modify i d =>
    cases ho
    have hm' := hm
    cases hm with
    | modify =>
      refine ⟨fun _ => .idle hpc hx (hh.own hm' (by simp) (by simp) hflush rfl
        (fun _ _ _ hj => hj) (fun id hi => hh.hand i id hi) rfl) hlh, fun hbusy => ?_⟩
      exact absurd hpc hbusy
  | bwrite i =>
    cases ho
    obtain ⟨id, hi, hk⟩ := hx
    cases hm with
    | bwrite =>
      refine ⟨fun hidle => by simp at hidle, fun _ => ?_⟩
      refine .flushing (update_self ..) hi hk ⟨fun j id hj => ?_, fun j hj hd => ?_⟩ hlh
      · have hold := hh.hand j id hj
        by_cases hji : j = i
        · subst hji
          simpa using hold
        · simpa [hji] using hold
      by_cases hji : j = i
      · simp [hji]
      simp only [Sys.setPc_buf, Sys.setBuf_buf, update_of_ne hji] at hj hd
      exact absurd (hh.written j hj hd) (hflush j)
  | brelse i =>
    cases ho
    have hm' := hm
    cases hm with
    | brelse =>
      refine ⟨fun hidle => by simp at hidle, fun _ => ?_⟩
      refine .releasing (update_self ..) hx (hh.own hm' (by simp) (by simp) hflush rfl
        (fun j id hji hj => ?_) (fun id hi => ?_) rfl) hlh
      · simpa [hji] using hj
      · simp at hi

lemma Follows.next [Fintype ι] {c : Call} {k : LogCalls.Res (.cache c) → LogCode Unit}
    (h : Follows dev lh s p (.op (.cache c) k)) (hpc : s.pc p ≠ .idle) (hs : s.Sound)
    (hvalid : ∀ i, (s.buf i).dirty = true → (s.buf i).valid = true)
    (hm : Moved s (p, .next) s') : GoesOn dev lh s s' p c k := by
  have hm' := hm
  cases h with
  | idle hidle => exact absurd hidle hpc
  | @acquiring id i k e hp hk hh hlh =>
    have hflush : ∀ j, s.pc p ≠ .flushing j := fun j => by simp [hp]
    cases hm with
    | @lock _ _ j hp' hfree =>
      obtain ⟨rfl, rfl⟩ := Pc.acquiring.inj (hp.symm.trans hp')
      have hnone : e.hand i = none := by
        by_contra hsome
        obtain ⟨id', hid'⟩ := ne_none_iff_exists'.mp hsome
        have hi := (hh.hand i id' hid').1
        simp [hfree] at hi
      have hid : (s.buf i).id = id := by simpa [hp, Pc.Fits] using hs.placed p
      have hh' : Holds ((s.setBuf i ((s.buf i).lock p)).setPc p
          (if (s.buf i).valid then .idle else .filling id i)) p (e.take i id) := by
        refine hh.own hm' (by simp) (by simp) hflush rfl (fun j id' hji hj => ?_)
          (fun id' hid' => ?_) rfl
        · simpa [hji] using hj
        obtain rfl : id = id' := by simpa using hid'
        exact ⟨rfl, hid⟩
      refine ⟨fun hidle => ?_, fun hbusy => ?_⟩
      · change Follows dev lh _ p (k (s.pc p).buf)
        rw [hp]
        exact .idle hidle (hk i hnone) hh' hlh
      have hfill : ((s.setBuf i ((s.buf i).lock p)).setPc p
          (if (s.buf i).valid then .idle else .filling id i)).pc p = .filling id i := by
        cases hv : (s.buf i).valid with
        | true => simp [hv] at hbusy
        | false => simp
      exact .filling hfill (hk i hnone) hh' hlh
    | transfer hp' | unref hp' => simp [hp] at hp'
  | @filling id i k e hp hk hh hlh =>
    have hflush : ∀ j, s.pc p ≠ .flushing j := fun j => by simp [hp]
    cases hm with
    | lock hp' | unref hp' => simp [hp] at hp'
    | @transfer _ j hp' =>
      obtain rfl : i = j := by simpa [hp] using hp'
      refine ⟨fun hidle => ?_, fun hbusy => by simp at hbusy⟩
      change Follows dev lh _ p (k (s.pc p).buf)
      rw [hp]
      refine .idle hidle hk (hh.own hm' (by simp) (by simp) hflush (s.iderw_buf i)
        (fun _ _ _ hj => hj) (fun id' hid' => ?_) rfl) hlh
      exact hh.hand i id' hid'
  | @flushing id i k e hp hi hk hh hlh =>
    cases hm with
    | lock hp' => simp [hp] at hp'
    | @transfer _ j hp' =>
      obtain rfl : i = j := by simpa [hp] using hp'
      obtain ⟨hholder, hid⟩ := hh.hand i id hi
      refine ⟨fun hidle => .idle hidle hk ⟨fun j id' hj => ?_, fun j hj hdirty => ?_⟩ hlh,
        fun hbusy => by simp at hbusy⟩
      · have hold := hh.hand j id' hj
        by_cases hji : j = i
        · subst hji
          simpa using hold
        · simpa [hji] using hold
      -- no other buffer is for the block that has been written
      obtain ⟨order, hl⟩ := hs.listed
      obtain ⟨hold, heq⟩ := dirty_of_moved hm' (by simp) (by simp) hdirty
      have hji : j = i := by
        rcases hj with hj | hj
        · refine hl.unique (.inl (hvalid j hold)) (.inr (hs.counted.pos_of_holder hholder)) ?_
          rw [← heq, hj, hid]
        · rw [heq] at hj
          exact (Pc.flushing.inj (hp.symm.trans (hh.written j hj hold))).symm
      subst hji
      simp at hdirty
    | unref hp' => simp [hp] at hp'
  | @releasing i k e hp hk hh hlh =>
    have hflush : ∀ j, s.pc p ≠ .flushing j := fun j => by simp [hp]
    cases hm with
    | lock hp' | transfer hp' => simp [hp] at hp'
    | @unref _ j hp' =>
      refine ⟨fun hidle => .idle hidle hk ?_ hlh, fun hbusy => by simp at hbusy⟩
      exact hh.own hm' (by simp) (by simp) hflush (s.unref_buf j) (fun _ _ _ hj => hj)
        (fun id' hid' => hh.hand j id' hid') rfl

end Moves

/-! ### Steps of the system -/

section System
variable {ι : Type} [DecidableEq ι]
variable {w w' : Kernel ι} {p : ι}

/-! ### The invariant -/

/-- The operations that a process has in progress. -/
def Mode.ops : Mode → ℕ
  | .inOp _ => 1
  | _ => 0

/-- The block is in the log. -/
def Kernel.InLog (w : Kernel ι) (id : BlockId) : Prop := id.dev = w.log.dev ∧ id.blockno ∈ w.log.lh

/-- A dirty buffer is for a block in the log, or a process waits for its transfer. -/
def Kernel.Logged (w : Kernel ι) : Prop :=
  ∀ i, (w.sys.buf i).dirty = true → w.InLog (w.sys.buf i).id ∨ ∃ q, w.sys.pc q = .flushing i

variable [Fintype ι]

structure Inv (w : Kernel ι) : Prop where
  sound : w.sys.Sound
  filled : w.sys.Filled
  valid : ∀ i, (w.sys.buf i).dirty = true → (w.sys.buf i).valid = true
  logged : w.Logged
  outstanding : w.log.outstanding = tally Finset.univ Mode.ops w.mode
  committing : ∀ p x, w.mode p = .commit x → w.log.committing = true ∧ w.log.outstanding = 0
  single : ∀ p q x y, w.mode p = .commit x → w.mode q = .commit y → p = q
  follows : ∀ p x, w.mode p = .commit x → Follows w.log.dev w.log.lh w.sys p x

omit [DecidableEq ι] in
lemma Inv.boot (disk : BlockId → Block) (dev : ℕ) (sb : Superblock) :
    Inv (boot disk dev sb : Kernel ι) where
  sound := Sys.Sound.init disk
  filled := ⟨by simp [Demand.boot, Sys.init], by simp [Demand.boot, Sys.init]⟩
  valid := by simp [Demand.boot, Sys.init]
  logged := by simp [Kernel.Logged, Demand.boot, Sys.init]
  outstanding := by simp [Demand.boot, initlog, tally, Mode.ops]
  committing := nofun
  single := nofun
  follows := nofun

lemma sound_of_moved {s s' : Sys ι} {o : Op} (hm : Moved s (p, o) s') (hs : s.Sound) : s'.Sound :=
  ⟨hm.placed hs, hm.counted hs, hm.listed hs⟩

omit [Fintype ι] in
/-- A step in the cache makes no buffer dirty whose block is not in the log. -/
lemma logged_of_moved {s' : Sys ι} {o : Op} {l : Log} {mode : ι → Mode} (h : w.Logged)
    (hm : Moved w.sys (p, o) s') (hdev : l.dev = w.log.dev) (hmem : ∀ b ∈ w.log.lh, b ∈ l.lh)
    (hlog : ∀ i, o = .logWrite i →
      (w.sys.buf i).id.dev = w.log.dev ∧ (w.sys.buf i).id.blockno ∈ l.lh) :
    Kernel.Logged { sys := s', log := l, mode := mode } := by
  intro i hdirty
  obtain ⟨hid, hold | rfl | ⟨-, hpc⟩⟩ := dirty_cases hm hdirty
  · rcases h i hold with ⟨hin, hin'⟩ | ⟨q, hq⟩
    · refine .inl ⟨?_, ?_⟩
      · rw [hid, hin, hdev]
      · rw [hid]
        exact hmem _ hin'
    rcases flushing_of_moved hm hq with hpc | hclean
    · exact .inr ⟨q, hpc⟩
    · simp [hclean] at hdirty
  · obtain ⟨hin, hin'⟩ := hlog i rfl
    refine .inl ⟨?_, ?_⟩
    · rw [hid, hin, hdev]
    · rwa [hid]
  · exact .inr ⟨p, hpc⟩

section
variable (h : Inv w)
include h

omit [DecidableEq ι] in
/-- No operation is in progress during a commit. -/
lemma Inv.alone {x : LogCode Unit} {q : ι} {writes : Finset ℕ}
    (hp : w.mode p = .commit x) (hq : w.mode q = .inOp writes) : False := by
  have hzero := (h.committing p x hp).2
  have hle : (w.mode q).ops ≤ tally Finset.univ Mode.ops w.mode := le_tally (Finset.mem_univ q)
  have hout := h.outstanding
  rw [hq, Mode.ops] at hle
  omega

omit [DecidableEq ι] in
lemma Inv.not_commit (hfalse : w.log.committing = false) (q : ι)
    (x : LogCode Unit) : w.mode q ≠ .commit x := by
  intro hq
  have htrue := (h.committing q x hq).1
  rw [hfalse] at htrue
  cases htrue

variable {s' : Sys ι}

lemma Inv.mode {l : Log} {mode : Mode} (hsound : s'.Sound)
    (hfilled : s'.Filled) (hvalid : ∀ i, (s'.buf i).dirty = true → (s'.buf i).valid = true)
    (hlogged : Kernel.Logged { sys := s', log := l, mode := update w.mode p mode })
    (hops : l.outstanding + (w.mode p).ops = w.log.outstanding + mode.ops)
    (hself : ∀ x, mode = .commit x → l.committing = true ∧ l.outstanding = 0 ∧
      (∀ q y, q ≠ p → w.mode q ≠ .commit y) ∧ Follows l.dev l.lh s' p x)
    (hother : ∀ q x, q ≠ p → w.mode q = .commit x → l.committing = true ∧ l.outstanding = 0 ∧
      Follows l.dev l.lh s' q x) :
    Inv { sys := s', log := l, mode := update w.mode p mode } := by
  have hmode : ∀ {q x}, update w.mode p mode q = .commit x →
      q = p ∧ mode = .commit x ∨ q ≠ p ∧ w.mode q = .commit x := by
    intro q x hq
    by_cases hqp : q = p
    · subst hqp
      rw [update_self] at hq
      exact .inl ⟨rfl, hq⟩
    · rw [update_of_ne hqp] at hq
      exact .inr ⟨hqp, hq⟩
  constructor
  case sound => exact hsound
  case filled => exact hfilled
  case valid => exact hvalid
  case logged => exact hlogged
  case outstanding =>
    have htally : tally Finset.univ Mode.ops (update w.mode p mode) + (w.mode p).ops =
      tally Finset.univ Mode.ops w.mode + mode.ops := tally_update (Finset.mem_univ p)
    have hout := h.outstanding
    change l.outstanding = (tally Finset.univ Mode.ops (update w.mode p mode) : ℕ)
    omega
  case committing =>
    intro q x hq
    rcases hmode hq with ⟨rfl, hx⟩ | ⟨hqp, hx⟩
    · exact ⟨(hself x hx).1, (hself x hx).2.1⟩
    · exact ⟨(hother q x hqp hx).1, (hother q x hqp hx).2.1⟩
  case single =>
    intro q r x y hq hr
    rcases hmode hq with ⟨rfl, hx⟩ | ⟨hqp, hx⟩
    · rcases hmode hr with ⟨rfl, -⟩ | ⟨hrp, hy⟩
      · rfl
      · exact absurd hy ((hself x hx).2.2.1 r y hrp)
    rcases hmode hr with ⟨rfl, hy⟩ | ⟨-, hy⟩
    · exact absurd hx ((hself y hy).2.2.1 q x hqp)
    · exact h.single q r x y hx hy
  case follows =>
    intro q x hq
    rcases hmode hq with ⟨rfl, hx⟩ | ⟨hqp, hx⟩
    · exact (hself x hx).2.2.2
    · exact (hother q x hqp hx).2.2

lemma Inv.goOn {l : Log} {x y : LogCode Unit}
    (hmode : w.mode p = .commit x) (hsound : s'.Sound) (hfilled : s'.Filled)
    (hvalid : ∀ i, (s'.buf i).dirty = true → (s'.buf i).valid = true)
    (hlogged : Kernel.Logged { sys := s', log := l, mode := update w.mode p (.commit y) })
    (hout : l.outstanding = w.log.outstanding) (hcommit : l.committing = w.log.committing)
    (hfollows : Follows l.dev l.lh s' p y) :
    Inv { sys := s', log := l, mode := update w.mode p (.commit y) } := by
  obtain ⟨htrue, hzero⟩ := h.committing p x hmode
  have hone : ∀ q z, q ≠ p → w.mode q ≠ .commit z := fun q z hqp hq =>
    hqp (h.single q p z x hq hmode)
  refine h.mode hsound hfilled hvalid hlogged (by rw [hmode, hout]; rfl) ?_ fun q z hqp hq =>
    absurd hq (hone q z hqp)
  rintro z ⟨⟩
  exact ⟨hcommit.trans htrue, hout.trans hzero, hone, hfollows⟩

variable {o : Op}

/-- A call of the cache that is not part of a commit. -/
lemma Inv.moved (hmode : ∀ x, w.mode p ≠ .commit x)
    (hm : Moved w.sys (p, o) s') (hlog : ∀ i, o ≠ .logWrite i) (hwrite : ∀ i, o ≠ .bwrite i) :
    Inv { w with sys := s' } := by
  refine ⟨sound_of_moved hm h.sound, hm.filled h.sound h.filled, fun i => ?_,
    logged_of_moved h.logged hm rfl (fun _ hb => hb) fun i hi => absurd hi (hlog i),
    h.outstanding, h.committing, h.single, fun q x hq => ?_⟩
  · exact valid_of_moved hm h.filled (fun i hi => absurd hi (hlog i)) (h.valid i)
  have hqp : q ≠ p := by
    rintro rfl
    exact hmode x hq
  exact (h.follows q x hq).other h.sound hm hqp hlog hwrite

lemma Inv.logWrite {i : Fin NBUF} {writes : Finset ℕ} (hok : w.Admitted (p, .call (.logWrite i)))
    (hmode : w.mode p = .inOp writes) (hm : Moved w.sys (p, .logWrite i) s') :
    Inv { sys := s', log := w.log.record (w.sys.buf i).id.blockno,
          mode := update w.mode p (.inOp (insert (w.sys.buf i).id.blockno writes)) } := by
  simp only [Kernel.Admitted, hmode] at hok
  obtain ⟨hholder, hdev, -⟩ := hok
  have hheld : ∀ j, Op.logWrite i = .logWrite j → (w.sys.buf j).holder = some p := by
    rintro j ⟨⟩
    exact hholder
  refine h.mode (sound_of_moved hm h.sound) (hm.filled h.sound h.filled)
    (fun j => valid_of_moved hm h.filled hheld (h.valid j))
    (logged_of_moved h.logged hm (record_dev ..) (fun b hb => ?_) ?_) ?_ nofun
    fun q x _ hq => (h.alone hq hmode).elim
  · exact (mem_record ..).mpr (.inl hb)
  · rintro j ⟨⟩
    exact ⟨hdev, (mem_record ..).mpr (.inr rfl)⟩
  · rw [hmode, record_outstanding]
    rfl

lemma Inv.call (hok : w.Admitted (p, .call o))
    (hcall : w.call p (w.mode p) o = some w') : Inv w' := by
  have hmap : ∀ {f : Sys ι → Kernel ι}, (w.sys.step (p, o)).map f = some w' →
      ∃ s', Moved w.sys (p, o) s' ∧ f s' = w' := by
    intro f hf
    obtain ⟨s', hs, rfl⟩ := map_eq_some_iff.mp hf
    exact ⟨s', Moved.of_step hs, rfl⟩
  cases hmode : w.mode p with
  | commit x => simp [hmode, Kernel.call] at hcall
  | outside =>
    rw [hmode] at hcall
    cases o with
    | bwrite i | logWrite i | modify i d => simp [Kernel.call] at hcall
    | bread id | next | brelse i =>
      obtain ⟨s', hm, rfl⟩ := hmap hcall
      exact h.moved (by simp [hmode]) hm (by simp) (by simp)
  | inOp writes =>
    rw [hmode] at hcall
    cases o with
    | bwrite i => simp [Kernel.call] at hcall
    | logWrite i =>
      simp only [Kernel.call, ite_none_left_eq_some] at hcall
      obtain ⟨s', hm, rfl⟩ := hmap hcall.2
      exact h.logWrite hok hmode hm
    | bread id | next | brelse i | modify i d =>
      obtain ⟨s', hm, rfl⟩ := hmap hcall
      exact h.moved (by simp [hmode]) hm (by simp) (by simp)

lemma Inv.cache {c : Call} {k : LogCalls.Res (.cache c) → LogCode Unit}
    (hmode : w.mode p = .commit (.op (.cache c) k))
    (ho : w.sys.pc p = .idle ∧ c.op = some o ∨ w.sys.pc p ≠ .idle ∧ o = .next)
    (hm : Moved w.sys (p, o) s') : Inv { w with
          sys := s'
          mode := if s'.pc p = .idle then
            update w.mode p (.commit (k (w.sys.result p c))) else w.mode } := by
  have hfollows := h.follows p _ hmode
  have hgo : GoesOn w.log.dev w.log.lh w.sys s' p c k := by
    rcases ho with ⟨hpc, ho⟩ | ⟨hpc, rfl⟩
    · exact hfollows.call hpc ho h.sound hm
    · exact hfollows.next hpc h.sound h.valid hm
  have hlog : ∀ j, o ≠ .logWrite j := by
    rintro j rfl
    rcases ho with ⟨hpc, ho⟩ | ⟨-, ho⟩
    · cases c with
      | logWrite i =>
        obtain ⟨e, hx, -⟩ := hfollows.of_idle hpc
        exact hx.elim
      | data | bread | modify | bwrite | brelse => cases ho
    · cases ho
  have hnew : ∀ y, Follows w.log.dev w.log.lh s' p y →
      Inv { w with sys := s', mode := update w.mode p (.commit y) } := fun y hy =>
    h.goOn hmode (sound_of_moved hm h.sound) (hm.filled h.sound h.filled)
      (fun j => valid_of_moved hm h.filled (fun i hi => absurd hi (hlog i)) (h.valid j))
      (logged_of_moved h.logged hm rfl (fun _ hb => hb) fun i hi => absurd hi (hlog i)) rfl rfl hy
  split
  · rename_i hidle
    exact hnew _ (hgo.ended hidle)
  rename_i hidle
  have hsame := hnew _ (hgo.busy hidle)
  rwa [← hmode, update_eq_self] at hsame

lemma Inv.commitStep {x : LogCode Unit} (hmode : w.mode p = .commit x)
    (hstep : w.commitStep p x = some w') : Inv w' := by
  cases x with
  | ret a => simp [Kernel.commitStep] at hstep
  | op c k =>
    cases c with
    | clear =>
      cases hstep
      cases h.follows p _ hmode with
      | @idle _ e hpc hx hh hlh =>
        refine h.goOn hmode h.sound h.filled h.valid (fun i hdirty => ?_) rfl rfl
          (.idle hpc hx.2 ⟨hh.hand, hh.written⟩ rfl)
        -- all blocks of the log have been written, so nothing is dirty on their account
        rcases h.logged i hdirty with ⟨hdev, hmem⟩ | hflush
        · rw [← hlh] at hmem
          have hwritten := hx.1 _ hmem
          rw [← hdev] at hwritten
          have hbusy := hh.written i hwritten hdirty
          simp [hpc] at hbusy
        · exact .inr hflush
    | leave =>
      cases hstep
      exact h.mode h.sound h.filled h.valid h.logged (by rw [hmode]; rfl) nofun fun q x hqp hq =>
        absurd (h.single q p x _ hq hmode) hqp
    | cache c =>
      simp only [Kernel.commitStep] at hstep
      by_cases hpc : w.sys.pc p = .idle
      · rw [if_pos hpc] at hstep
        cases ho : c.op with
        | none =>
          cases c with
          | data i =>
            cases hstep
            obtain ⟨e, hx, hh, hlh⟩ := (h.follows p _ hmode).of_idle hpc
            exact h.goOn hmode h.sound h.filled h.valid h.logged rfl rfl (.idle hpc (hx _) hh hlh)
          | bread | modify | logWrite | bwrite | brelse => cases ho
        | some o =>
          rw [ho] at hstep
          obtain ⟨s', hs, rfl⟩ := map_eq_some_iff.mp hstep
          exact h.cache hmode (.inl ⟨hpc, ho⟩) (Moved.of_step hs)
      rw [if_neg hpc] at hstep
      obtain ⟨s', hs, rfl⟩ := map_eq_some_iff.mp hstep
      exact h.cache hmode (.inr ⟨hpc, rfl⟩) (Moved.of_step hs)

lemma Inv.step {m : ι × Action} (hok : w.Admitted m) (hstep : w.step m = some w') : Inv w' := by
  obtain ⟨p, a⟩ := m
  cases a with
  | call o => exact h.call hok hstep
  | beginOp =>
    cases hmode : w.mode p with
    | outside =>
      simp only [Kernel.step, hmode, ite_none_right_eq_some] at hstep
      obtain ⟨l, hl, rfl⟩ := map_eq_some_iff.mp hstep.2
      obtain ⟨hfalse, -, rfl⟩ := beginOp_some hl
      refine h.mode h.sound h.filled h.valid h.logged ?_ nofun fun q x _ hq =>
        absurd hq (h.not_commit hfalse q x)
      rw [hmode]
      simp [Mode.ops]
    | inOp writes | commit x => simp [Kernel.step, hmode] at hstep
  | endOp =>
    cases hmode : w.mode p with
    | outside | commit x => simp [Kernel.step, hmode] at hstep
    | inOp writes =>
      simp only [Kernel.step, hmode, ite_none_right_eq_some] at hstep
      obtain ⟨hpc, hstep⟩ := hstep
      split at hstep
      · cases hstep
      · rename_i l hl
        cases hstep
        obtain ⟨hfalse, hone, rfl⟩ := endOp_true hl
        have hnone := h.not_commit hfalse
        refine h.mode h.sound h.filled h.valid h.logged ?_ ?_ fun q x _ hq => absurd hq (hnone q x)
        · rw [hmode, hone]
          simp [Mode.ops]
        rintro x ⟨⟩
        refine ⟨rfl, rfl, fun q y _ => hnone q y, ?_⟩
        exact .idle (e := ⟨fun _ => none, ∅, w.log.lh⟩) hpc (commit_keeps rfl rfl)
          ⟨nofun, fun _ hi => hi.elim⟩ rfl
      rename_i l hl
      cases hstep
      obtain ⟨hfalse, -, rfl⟩ := endOp_false hl
      refine h.mode h.sound h.filled h.valid h.logged ?_ nofun fun q x _ hq =>
        absurd hq (h.not_commit hfalse q x)
      rw [hmode]
      simp [Mode.ops]
  | commit =>
    cases hmode : w.mode p with
    | outside | inOp writes => simp [Kernel.step, hmode] at hstep
    | commit x =>
      simp only [Kernel.step, hmode] at hstep
      exact h.commitStep hmode hstep

end

lemma inv_of_reaches {disk : BlockId → Block} {dev : ℕ} {sb : Superblock}
    (h : Reaches Kernel.step Kernel.Admitted (boot disk dev sb) w) : Inv w :=
  h.invariant (fun _ _ _ hinv hok hstep => hinv.step hok hstep) (Inv.boot disk dev sb)

/-! ### Buffers that can be taken -/

/-- `bget` fails if the block has no buffer and every buffer is in use or dirty. -/
lemma bget_eq_none_iff {s : Sys ι} (hs : s.Sound) {id : BlockId} :
    s.bget p id = none ↔ (∀ i, (s.buf i).id ≠ id) ∧
      ∀ i, 0 < (s.buf i).refcnt ∨ (s.buf i).dirty = true := by
  obtain ⟨-, -, order, hl⟩ := hs
  have hfind : order.find? (fun i => (s.buf i).id = id) = none ↔ ∀ i, (s.buf i).id ≠ id := by
    rw [List.find?_eq_none]
    exact ⟨fun h i => by simpa using h i (hl.all i), fun h i _ => by simpa using h i⟩
  have hfree : order.reverse.find? (fun i => (s.buf i).refcnt = 0 ∧ (s.buf i).dirty = false) =
      none ↔ ∀ i, 0 < (s.buf i).refcnt ∨ (s.buf i).dirty = true := by
    rw [List.find?_eq_none]
    have hone : ∀ i, (¬ decide ((s.buf i).refcnt = 0 ∧ (s.buf i).dirty = false) = true) ↔
        0 < (s.buf i).refcnt ∨ (s.buf i).dirty = true := by
      intro i
      cases (s.buf i).dirty <;> simp [Nat.pos_iff_ne_zero]
    exact ⟨fun h i => (hone i).mp (h i (by simpa using hl.all i)), fun h i _ => (hone i).mpr (h i)⟩
  rw [← hfind, ← hfree, Sys.bget, hl.search_next, hl.search_prev]
  cases order.find? (fun i => (s.buf i).id = id) with
  | some i => simp
  | none =>
    cases order.reverse.find? (fun i => (s.buf i).refcnt = 0 ∧ (s.buf i).dirty = false) with
    | some | none => simp

omit [DecidableEq ι] in
lemma grabbed_iff {i : Fin NBUF} (hs : w.sys.Sound) : w.Grabbed i ↔ 0 < (w.sys.buf i).refcnt := by
  rw [hs.counted i, Nat.add_pos_iff_pos_or_pos, tally_pos_iff, Kernel.Grabbed, or_comm]
  refine or_congr (by simp) ?_
  cases hholder : (w.sys.buf i).holder <;> simp [Buf.held, hholder]

omit [DecidableEq ι] in
/-- A buffer that cannot be taken is for a busy block. -/
lemma Inv.mem_busy (h : Inv w) {i : Fin NBUF}
    (hi : 0 < (w.sys.buf i).refcnt ∨ (w.sys.buf i).dirty = true) : (w.sys.buf i).id ∈ w.busy := by
  have hgrab : w.Grabbed i → (w.sys.buf i).id ∈ w.busy := fun hg =>
    Finset.mem_union_left _ (Finset.mem_image.mpr ⟨i, by simpa using hg, rfl⟩)
  rcases hi with hi | hi
  · exact hgrab ((grabbed_iff h.sound).mpr hi)
  rcases h.logged i hi with ⟨hdev, hmem⟩ | ⟨q, hq⟩
  · refine Finset.mem_union_right _ (List.mem_toFinset.mpr (List.mem_map.mpr ⟨_, hmem, ?_⟩))
    rw [← hdev]
  · exact hgrab (.inl (by simp [h.sound.placed.holder (.inr hq)]))

omit [DecidableEq ι] in
/-- If no buffer can be taken, at least `NBUF` blocks are busy. -/
lemma Inv.le_card_busy (h : Inv w)
    (hall : ∀ i, 0 < (w.sys.buf i).refcnt ∨ (w.sys.buf i).dirty = true) : NBUF ≤ w.busy.card := by
  obtain ⟨order, hl⟩ := h.sound.listed
  have hlive : ∀ i, w.sys.Live i := fun i => (hall i).elim .inr fun hd => .inl (h.valid i hd)
  have hinj : Function.Injective fun i => (w.sys.buf i).id := fun i j hij =>
    hl.unique (hlive i) (hlive j) hij
  calc NBUF = (Finset.univ : Finset (Fin NBUF)).card := by simp
    _ = (Finset.univ.image fun i => (w.sys.buf i).id).card :=
      (Finset.card_image_of_injective _ hinj).symm
    _ ≤ w.busy.card := Finset.card_le_card fun id hid => by
      obtain ⟨i, -, rfl⟩ := Finset.mem_image.mp hid
      exact h.mem_busy (hall i)

/-- However processes read files and run operations and commits, `bget` panics exactly if it is
called for a block without a buffer while every buffer is in the hands of a process or dirty. As
long as fewer than `NBUF` blocks are in the hands of processes or in the log, it does not. -/
theorem bget_panics_iff {disk : BlockId → Block} {dev : ℕ} {sb : Superblock}
    (h : Reaches Kernel.step Kernel.Admitted (boot disk dev sb) w) (m : ι × Action) :
    (w.Panics m ↔ ∃ id, w.wants m = some id ∧ (∀ i, (w.sys.buf i).id ≠ id) ∧
      ∀ i, w.Grabbed i ∨ (w.sys.buf i).dirty = true) ∧ (w.Spare m → ¬ w.Panics m) := by
  have hinv := inv_of_reaches h
  have hiff : w.Panics m ↔ ∃ id, w.wants m = some id ∧ (∀ i, (w.sys.buf i).id ≠ id) ∧
      ∀ i, w.Grabbed i ∨ (w.sys.buf i).dirty = true := by
    unfold Kernel.Panics
    simp only [bget_eq_none_iff hinv.sound, grabbed_iff hinv.sound]
  refine ⟨hiff, fun hspare hpanic => ?_⟩
  obtain ⟨id, hid, hnone, hall⟩ := hiff.mp hpanic
  simp only [grabbed_iff hinv.sound] at hall
  have hle := hinv.le_card_busy hall
  have hlt := hspare id hid hnone
  omega

/-- Processes that read a block each. -/
def reads (n : ℕ) : List (Fin 31 × Action) :=
  ((List.finRange 31).take n).map fun p => (p, .call (.bread ⟨1, 100 + p.val⟩))

/-- After three reads another process finds a buffer. -/
theorem few_reads_spare : ∃ w : Kernel (Fin 31),
    Reaches Kernel.step Kernel.Admitted (boot (fun _ _ => 0) 1 mkfsSuperblock) w ∧
      w.wants (30, .call (.bread ⟨1, 7⟩)) = some ⟨1, 7⟩ ∧
      ¬ w.Panics (30, .call (.bread ⟨1, 7⟩)) := by
  obtain ⟨w, hreach, hwants, hbusy⟩ := exists_of_execAll Kernel.step Kernel.Admitted
    (boot (fun _ _ => 0) 1 mkfsSuperblock : Kernel (Fin 31)) (reads 3)
    (fun w => w.wants (30, .call (.bread ⟨1, 7⟩)) = some ⟨1, 7⟩ ∧ w.busy.card = 3)
    (by decide +kernel)
  refine ⟨w, hreach, hwants, (bget_panics_iff hreach _).2 fun _ _ _ => ?_⟩
  rw [hbusy]
  decide

/-- Thirty processes have started to read a block each, and another one wants to. -/
theorem thirty_one_readers_panic : ∃ (w : Kernel (Fin 31)) (m : Fin 31 × Action),
    Reaches Kernel.step Kernel.Admitted (boot (fun _ _ => 0) 1 mkfsSuperblock) w ∧ w.Panics m := by
  obtain ⟨w, hreach, hwants, hnone⟩ := exists_of_execAll Kernel.step Kernel.Admitted
    (boot (fun _ _ => 0) 1 mkfsSuperblock : Kernel (Fin 31)) (reads 30)
    (fun w => w.wants (30, .call (.bread ⟨1, 7⟩)) = some ⟨1, 7⟩ ∧
      (w.sys.bget 30 ⟨1, 7⟩).isNone = true) (by decide +kernel)
  exact ⟨w, _, hreach, ⟨1, 7⟩, hwants, isNone_iff_eq_none.mp hnone⟩

end System
end Xv6.Buffer.Shared.Demand
