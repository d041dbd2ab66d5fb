import Xv6.Logging.Recovery

/-!
# Crash atomicity

A machine runs operations one after the other and crashes behind any of its
block writes. However often the recovery itself crashes, the recovery that runs
to its end leaves the contents after the transactions whose header had reached
the disk.
-/

namespace Xv6.Logging
open Fs Lib Buffer Exec List

section Contents
variable (g : Area)

/-- What an operation makes of the contents of the disk. -/
def applyTx (D : BlockId → Block) (tx : Tx) : BlockId → Block :=
  tx.foldl (fun D x => Function.update D (g.home x.1) (x.2 (D (g.home x.1)))) D

/-- The operations that log something. -/
def logging (txs : List Tx) : List Tx := txs.filter fun tx => !tx.isEmpty

/-- The contents after the first `j` transactions. -/
def contents (d₀ : BlockId → Block) (txs : List Tx) (j : ℕ) : BlockId → Block :=
  ((logging txs).take j).foldl (applyTx g) d₀

/-- The block is one that the `j`-th transaction writes, counted from one. -/
def Owns (txs : List Tx) (j : ℕ) (id : BlockId) : Prop :=
  ∃ i tx, j = i + 1 ∧ (logging txs)[i]? = some tx ∧ ∃ x ∈ tx, id = g.home x.1

/-- The contents and owners that a run of `txs` is measured by. -/
def plan (d₀ : BlockId → Block) (txs : List Tx) : Plan := ⟨contents g d₀ txs, Owns g txs⟩

variable {g}

lemma applyTx_concat (D : BlockId → Block) (tx : Tx) (x : ℕ × (Block → Block)) :
    applyTx g D (tx ++ [x]) =
      Function.update (applyTx g D tx) (g.home x.1) (x.2 (applyTx g D tx (g.home x.1))) := by
  simp [applyTx]

variable {tx : Tx}

lemma applyTx_of_notMem (D : BlockId → Block) {id : BlockId}
    (h : ∀ x ∈ tx, id ≠ g.home x.1) : applyTx g D tx id = D id := by
  induction tx using List.reverseRecOn with
  | nil => rfl
  | append_singleton tx x ih =>
    rw [applyTx_concat, Function.update_of_ne (h x (by simp))]
    exact ih fun y hy => h y (by simp [hy])

lemma logging_append (txs txs' : List Tx) :
    logging (txs ++ txs') = logging txs ++ logging txs' := filter_append ..

lemma logging_cons_of_ne (h : tx ≠ []) (txs : List Tx) :
    logging (tx :: txs) = tx :: logging txs := filter_cons_of_pos (by simpa using h)

lemma contents_succ (d₀ : BlockId → Block) {txs : List Tx} {j : ℕ}
    (h : (logging txs)[j]? = some tx) :
    contents g d₀ txs (j + 1) = applyTx g (contents g d₀ txs j) tx := by
  unfold contents
  rw [take_add_one, h, foldl_append]
  rfl

end Contents

section Transaction
variable {g : Area} {π : Plan} {d₀ : BlockId → Block} {j : ℕ} {m : Machine} {a : Abs} {ample : Prop}
  {tx : Tx} {lh : List ℕ} {Q : Unit → Machine → Prop} {S : Stop → Machine → Prop}

lemma wp_logWrite {i : Fin NBUF} {id : BlockId} (h : Rep m a) (hi : (i, id) ∈ a.held)
    (hopen : 1 ≤ a.log.outstanding) (hok : ¬ a.log.headerFull → ¬ a.log.areaFull → ∀ m',
      Rep m' ((a.withLog (a.log.record id.blockno)).pin id) → Q () m')
    (hstop : ∀ e m', m'.writes = a.writes → a.log.headerFull ∨ a.log.areaFull → S e m') :
    wp (logWrite i) Q S m := by
  unfold logWrite panicIf updLog
  rw [wp_bind, wp_get, wp_bind, wp_stopIf, h.log]
  refine ⟨fun hfull => hstop _ m h.writes hfull, fun hfree => ?_⟩
  rw [wp_bind, wp_stopIf]
  refine ⟨fun hlt => absurd hopen (not_le.mpr hlt), fun _ => ?_⟩
  obtain ⟨hheader, harea⟩ := not_or.mp hfree
  rw [wp_bind, wp_modify, (h.held_buf hi).2.2, h.log]
  exact wp_pin (h.withLog (a.log.record id.blockno)) hi (hok hheader harea)

/-- Between `begin_op` and `end_op`: the updates of `done` are in the cache and the blocks
`lh` in the header. -/
structure Pending (g : Area) (π : Plan) (j : ℕ) (done : Tx) (lh : List ℕ) (a : Abs) : Prop where
  log : a.log = g.log 1 false lh
  listed : Listed g lh
  nodup : lh.Nodup
  mem : ∀ b, b ∈ lh ↔ ∃ x ∈ done, x.1 = b
  le : lh.length ≤ done.length
  held : a.held = []
  dirty : a.dirty = homes g lh
  area : ∀ id ∈ g.blocks, a.view id = a.disk id
  head : HeaderIs (a.disk g.head) []
  home : ∀ id ∉ g.blocks, a.disk id = π.C j id ∧ a.view id = applyTx g (π.C j) done id

/-- The machine has room for the transaction. -/
structure Ample (g : Area) (tx : Tx) : Prop where
  disk : g.start + g.size ≤ FSSIZE
  area : tx.length < g.size
  cache : tx.length < NBUF
  range : ∀ x ∈ tx, x.1 < FSSIZE

lemma pending_begin (hrest : Rest g π j a) (hlog : a.log = g.log 1 false []) (hg : 0 < g.size) :
    Pending g π j [] [] a := by
  refine ⟨hlog, ⟨by decide, hg, nofun⟩, nodup_nil, by simp, le_rfl, hrest.held, ?_,
    fun id _ => hrest.view id, hrest.head, ?_⟩
  · rw [hrest.dirty]
    ext id
    simp [homes]
  · intro id hid
    exact ⟨hrest.home id hid, (hrest.view id).trans (hrest.home id hid)⟩

variable {x : ℕ × (Block → Block)}

lemma Pending.record {done : Tx} (h : Pending g π j done lh a) (hout : g.home x.1 ∉ g.blocks)
    (hrange : x.1 < FSSIZE) (hheader : ¬ a.log.headerFull) (harea : ¬ a.log.areaFull) :
    ∃ lh', (a.log.record x.1) = g.log 1 false lh' ∧ Listed g lh' ∧ lh'.Nodup ∧
      (∀ b, b ∈ lh' ↔ b ∈ lh ∨ b = x.1) ∧ lh'.length ≤ lh.length + 1 := by
  rw [h.log] at hheader harea ⊢
  unfold Log.record
  by_cases hin : x.1 ∈ (g.log 1 false lh).lh
  · rw [if_pos hin]
    refine ⟨lh, rfl, h.listed, h.nodup, ?_, Nat.le_succ _⟩
    intro b
    refine ⟨Or.inl, fun hb => hb.elim id ?_⟩
    rintro rfl
    exact hin
  rw [if_neg hin]
  have hlen : (lh ++ [x.1]).length = lh.length + 1 := by simp
  unfold Log.headerFull at hheader
  unfold Log.areaFull at harea
  change ¬ (LOGSIZE ≤ lh.length) at hheader
  change ¬ ((g.size : ℤ) - 1 ≤ lh.length) at harea
  refine ⟨lh ++ [x.1], rfl, ⟨by omega, by omega, ?_⟩, ?_, by simp, by simp⟩
  · intro b hb
    rcases mem_append.mp hb with hb | hb
    · exact h.listed.outside b hb
    obtain rfl : b = x.1 := by simpa using hb
    exact ⟨hout, hrange⟩
  exact nodup_append.mpr ⟨h.nodup, nodup_singleton _, by
    rintro b hb c hc rfl
    obtain rfl : b = x.1 := by simpa using hc
    exact hin hb⟩

section
variable (h : Stands g d₀ π j (g.log 1 false lh) m a) (hdev : g.dev ≠ 0)
include h hdev

lemma wp_update {done : Tx} (hp : Pending g π j done lh a) (hout : g.home x.1 ∉ g.blocks)
    (hrange : ample → x.1 < FSSIZE) (hcache : ample → done.length + 1 < NBUF)
    (harea : ample → done.length + 1 < g.size)
    (hok : ∀ m' a' lh', Stands g d₀ π j (g.log 1 false lh') m' a' →
      Pending g π j (done ++ [x]) lh' a' → Q () m') : wp (update x) Q (Crashed g d₀ π ample) m := by
  unfold update
  rw [wp_bind, wp_get, h.rep.log, h.log, wp_bind]
  refine wp_bread h.rep (g.home x.1) hdev ?_ ?_
  · intro i m₁ _ h₁
    have hi : (i, g.home x.1) ∈ (a.take i (g.home x.1)).held := mem_cons_self ..
    have hno : x.1 < FSSIZE := by
      obtain ⟨_, hv, hid⟩ := h₁.held_buf hi
      have hbuf := (h₁.buf i).range hv
      rwa [hid] at hbuf
    rw [wp_bind]
    refine wp_setData h₁ hi fun m₂ h₂ => ?_
    rw [wp_bind]
    refine wp_logWrite h₂ hi ?_ ?_ ?_
    · change 1 ≤ a.log.outstanding
      rw [h.log]
      exact le_rfl
    · intro hheader hfull m₃ h₃
      refine wp_brelse h₃ hi (Or.inl (Set.mem_insert _ _)) fun m₄ h₄ => ?_
      obtain ⟨lh', hlog', hlisted', hnodup', hmem', hlen'⟩ := hp.record hout hno hheader hfull
      refine hok m₄ _ lh' ⟨h₄, hlog', h.count, h.traced.disk, h.traced.survives⟩ ?_
      have hle := hp.le
      constructor
      · exact hlog'
      · exact hlisted'
      · exact hnodup'
      · intro b
        rw [hmem' b, hp.mem b]
        constructor
        · rintro (⟨y, hy, rfl⟩ | rfl)
          · exact ⟨y, by simp [hy], rfl⟩
          · exact ⟨x, by simp, rfl⟩
        rintro ⟨y, hy, rfl⟩
        rcases mem_append.mp hy with hy | hy
        · exact Or.inl ⟨y, hy, rfl⟩
        · exact Or.inr (by rw [mem_singleton.mp hy])
      · rw [length_append, length_singleton]
        omega
      · simp [Abs.drop, Abs.pin, Abs.withLog, Abs.store, Abs.take, hp.held]
      · change insert (g.home x.1) a.dirty = homes g lh'
        rw [hp.dirty]
        ext id
        constructor
        · rintro (rfl | ⟨b, hb, rfl⟩)
          · exact ⟨x.1, (hmem' _).mpr (Or.inr rfl), rfl⟩
          · exact ⟨b, (hmem' b).mpr (Or.inl hb), rfl⟩
        rintro ⟨b, hb, rfl⟩
        rcases (hmem' b).mp hb with hb | rfl
        · exact Or.inr ⟨b, hb, rfl⟩
        · exact Or.inl rfl
      · intro id hid
        have hne : id ≠ g.home x.1 := by
          rintro rfl
          exact hout hid
        change Function.update a.view _ _ id = a.disk id
        rw [Function.update_of_ne hne]
        exact hp.area id hid
      · exact hp.head
      intro id hid
      refine ⟨(hp.home id hid).1, ?_⟩
      change Function.update a.view (g.home x.1) (x.2 (a.view (g.home x.1))) id = _
      rw [applyTx_concat]
      by_cases heq : id = g.home x.1
      · subst heq
        rw [Function.update_self, Function.update_self, (hp.home _ hout).2]
      · rw [Function.update_of_ne heq, Function.update_of_ne heq, (hp.home id hid).2]
    intro e m' hw hfull
    refine ⟨hw ▸ h.traced.survives, fun ha => ?_⟩
    have hle := hp.le
    have hcache := hcache ha
    have harea := harea ha
    change (LOGSIZE ≤ a.log.lh.length ∨ (a.log.size : ℤ) - 1 ≤ a.log.lh.length) at hfull
    rw [h.log] at hfull
    change (LOGSIZE ≤ lh.length ∨ (g.size : ℤ) - 1 ≤ lh.length) at hfull
    have hsame : LOGSIZE = NBUF := rfl
    omega
  intro e m' hw hav
  refine ⟨hw ▸ h.traced.survives, fun ha => hav ⟨by simp [hp.held], hrange ha, Or.inr ?_⟩⟩
  have hle := hp.le
  have hcache := hcache ha
  refine ⟨lh.map g.home, by rw [length_map]; omega, ?_, by simp [hp.held]⟩
  rw [hp.dirty]
  rintro id ⟨b, hb, rfl⟩
  exact mem_map_of_mem hb

lemma wp_endOp (hp : Pending g π j tx lh a)
    (hample : ample → Ample g tx)
    (hC : tx ≠ [] → π.C (j + 1) = applyTx g (π.C j) tx)
    (hown : tx ≠ [] → ∀ x ∈ tx, π.owns (j + 1) (g.home x.1))
    (hok : ∀ m' a', Stands g d₀ π (if tx = [] then j else j + 1) (g.log 0 false []) m' a' →
      Rest g π (if tx = [] then j else j + 1) a' → Q () m') :
    wp endOp Q (Crashed g d₀ π ample) m := by
  have hend : (g.log 1 false lh).endOp = .ok (g.log 0 true lh, true) := rfl
  unfold endOp updLog
  rw [wp_bind, wp_get, h.rep.log, h.log, hend]
  dsimp only
  rw [wp_bind, wp_modify, if_pos rfl, wp_bind]
  have hlock := h.withLog (g.log 0 true lh)
  by_cases htx : tx = []
  · have hlh : lh = [] := by
      apply eq_nil_iff_forall_not_mem.mpr
      intro b hb
      obtain ⟨x, hx, _⟩ := (hp.mem b).mp hb
      rw [htx] at hx
      cases hx
    subst htx hlh
    have hempty : ¬ 0 < (a.withLog (g.log 0 true [])).log.lh.length := Nat.lt_irrefl 0
    unfold commit
    rw [wp_bind, wp_get, hlock.rep.log, if_neg hempty, wp_pure, wp_modify, hlock.rep.log]
    refine hok _ _ (hlock.withLog (g.log 0 false [])) ?_
    refine ⟨hp.held, ?_, ?_, hp.head, fun id hid => (hp.home id hid).1⟩
    · change a.dirty = ∅
      rw [hp.dirty]
      ext id
      simp [homes]
    intro id
    change a.view id = a.disk id
    by_cases hid : id ∈ g.blocks
    · exact hp.area id hid
    rw [(hp.home id hid).1, (hp.home id hid).2]
    rfl
  have hlh : lh ≠ [] := by
    obtain ⟨x, hx⟩ := exists_mem_of_ne_nil tx htx
    exact ne_nil_of_mem ((hp.mem x.1).mpr ⟨x, hx, rfl⟩)
  rw [if_neg htx] at hok
  have hC := hC htx
  have hle := hp.le
  refine wp_commit hlock hdev hp.listed hp.nodup hlh (fun ha => (hample ha).disk) ?_ ?_ ?_ ?_ ?_
  · intro ha
    have hcache := (hample ha).cache
    omega
  · intro id hid hnot
    rw [hC]
    refine (applyTx_of_notMem _ fun x hx heq => hnot ⟨x.1, ?_, heq⟩).symm
    exact (hp.mem x.1).mpr ⟨x, hx, rfl⟩
  · intro b hb
    obtain ⟨x, hx, rfl⟩ := (hp.mem b).mp hb
    exact hown htx x hx
  · refine ⟨hp.held, hp.dirty, hp.area, hp.head, by simp, ?_⟩
    intro id hid
    rw [hC]
    exact hp.home id hid
  intro m' a' h' hrest'
  rw [wp_modify, h'.rep.log, h'.log]
  refine hok _ _ (h'.withLog (g.log 0 false [])) ?_
  exact ⟨hrest'.held, hrest'.dirty, hrest'.view, hrest'.head, hrest'.home⟩

end

lemma wp_transaction (h : Stands g d₀ π j (g.log 0 false []) m a) (hdev : g.dev ≠ 0)
    (hg : 0 < g.size) (hrest : Rest g π j a) (hout : ∀ x ∈ tx, g.home x.1 ∉ g.blocks)
    (hample : ample → Ample g tx) (hC : tx ≠ [] → π.C (j + 1) = applyTx g (π.C j) tx)
    (hown : tx ≠ [] → ∀ x ∈ tx, π.owns (j + 1) (g.home x.1))
    (hok : ∀ m' a', Stands g d₀ π (if tx = [] then j else j + 1) (g.log 0 false []) m' a' →
      Rest g π (if tx = [] then j else j + 1) a' → Q () m') :
    wp (transaction tx) Q (Crashed g d₀ π ample) m := by
  have hbegin : (g.log 0 false []).beginOp = some (g.log 1 false []) := rfl
  unfold transaction beginOp updLog
  rw [wp_bind, wp_bind, wp_get, h.rep.log, h.log, hbegin]
  dsimp only
  rw [wp_modify, wp_bind]
  have hrest' : Rest g π j (a.withLog (g.log 1 false [])) :=
    ⟨hrest.held, hrest.dirty, hrest.view, hrest.head, hrest.home⟩
  apply wp_mono (wp_each update (fun done m' => ∃ a' lh, Stands g d₀ π j (g.log 1 false lh) m' a' ∧
    Pending g π j done lh a') tx ?_ ⟨_, [], h.withLog _, pending_begin hrest' rfl hg⟩)
  · rintro _ m' ⟨a', lh, h', hp'⟩
    exact wp_endOp h' hdev hp' hample hC hown hok
  · exact fun _ _ hcrash => hcrash
  rintro done x rest hsplit m' ⟨a', lh, h', hp'⟩
  have hmem : x ∈ tx := by rw [hsplit]; simp
  have hlen : done.length + 1 ≤ tx.length := by
    rw [hsplit, length_append, length_cons]
    omega
  refine wp_update h' hdev hp' (hout x hmem) (fun ha => (hample ha).range x hmem) ?_ ?_ ?_
  · exact fun ha => lt_of_le_of_lt hlen (hample ha).cache
  · exact fun ha => lt_of_le_of_lt hlen (hample ha).area
  · exact fun m'' a'' lh' h'' hp'' => ⟨a'', lh', h'', hp''⟩

end Transaction

/-- A machine that has just started, with its log at `g`. -/
def powerOn (g : Area) (disk : BlockId → Block) : Machine :=
  { disk := disk, log := g.log 0 false [] }

section Atomicity
variable {g : Area} {d₀ : BlockId → Block}

lemma stands_powerOn {π : Plan} {bs : List ℕ} (hc : Committed g d₀ (π.C 0) bs) :
    Stands g d₀ π 0 (g.log 0 false []) (powerOn g d₀) (Abs.fresh d₀ (g.log 0 false [])) := by
  refine ⟨rep_fresh d₀ _, rfl, rfl, rfl, throughout_nil ⟨⟨bs, hc⟩, ?_⟩⟩
  intro vs id x heq
  simp at heq

lemma wp_transactions (hdev : g.dev ≠ 0) (hg : 0 < g.size) (hhead : (d₀ g.head).word 0 = 0)
    {txs : List Tx} (hout : ∀ tx ∈ txs, ∀ x ∈ tx, g.home x.1 ∉ g.blocks) :
    wp (transactions txs) (fun _ m => ∃ a, Rep m a ∧ Traced g d₀ (plan g d₀ txs) a)
      (Crashed g d₀ (plan g d₀ txs) (∀ tx ∈ txs, Ample g tx)) (powerOn g d₀) := by
  have hrest : Rest g (plan g d₀ txs) 0 (Abs.fresh d₀ (g.log 0 false [])) :=
    ⟨rfl, rfl, fun _ => rfl, headerIs_nil hhead, fun _ _ => rfl⟩
  have hc : Committed g d₀ ((plan g d₀ txs).C 0) [] :=
    ⟨headerIs_nil hhead, hg, nofun, nofun, fun _ _ _ => rfl⟩
  apply wp_mono (wp_each transaction (fun done m => ∃ a,
    Stands g d₀ (plan g d₀ txs) (logging done).length (g.log 0 false []) m a ∧
    Rest g (plan g d₀ txs) (logging done).length a) txs ?_ ⟨_, stands_powerOn hc, hrest⟩)
  · rintro _ m ⟨a, h, _⟩
    exact ⟨a, h.rep, h.traced⟩
  · exact fun _ _ hcrash => hcrash
  rintro done tx rest hsplit m ⟨a, h, hrest⟩
  have hmem : tx ∈ txs := by rw [hsplit]; simp
  have hget : tx ≠ [] → (logging txs)[(logging done).length]? = some tx := by
    intro hne
    rw [hsplit, logging_append, logging_cons_of_ne hne]
    simp
  have hlen : (logging (done ++ [tx])).length =
      if tx = [] then (logging done).length else (logging done).length + 1 := by
    rw [logging_append, length_append]
    split
    · rename_i hnil
      rw [hnil]
      rfl
    rename_i hne
    rw [logging_cons_of_ne hne]
    rfl
  refine wp_transaction h hdev hg hrest (hout tx hmem) (fun ha => ha tx hmem) ?_ ?_ ?_
  · exact fun hne => contents_succ d₀ (hget hne)
  · exact fun hne x hx => ⟨_, tx, rfl, hget hne, x, hx, rfl⟩
  intro m' a' h' hrest'
  rw [← hlen] at h' hrest'
  exact ⟨a', h', hrest'⟩

/-- The disk after recoveries that have crashed. -/
inductive Recrashes (g : Area) (d : BlockId → Block) : (BlockId → Block) → Prop
  | none : Recrashes g d d
  | again {d' : BlockId → Block} (h : Recrashes g d d') (vs : List (BlockId × Block))
      (hvs : vs <+: (recoverFromLog (powerOn g d')).state.writes) :
      Recrashes g d (replay vs d')

lemma recover_committed (hdev : g.dev ≠ 0) {d D : BlockId → Block} {bs : List ℕ}
    (hc : Committed g d D bs) :
    wp recoverFromLog (fun _ m => Throughout (Survives g d ⟨fun _ => D, fun _ _ => True⟩) m.writes ∧
        (∀ id ∉ g.blocks, m.disk id = D id) ∧ (m.disk g.head).word 0 = 0)
      (Crashed g d ⟨fun _ => D, fun _ _ => True⟩ (g.start + g.size ≤ FSSIZE)) (powerOn g d) := by
  refine wp_recoverFromLog (stands_powerOn hc) hdev rfl rfl rfl hc (fun _ _ => trivial) ?_
  intro m a h hrest
  rw [h.rep.writes, h.rep.disk]
  exact ⟨h.traced.survives, hrest.home, hrest.head.word_zero.mpr rfl⟩

/-- Crashed recoveries leave a disk that stands for the same contents. -/
lemma Recrashes.committed (hdev : g.dev ≠ 0) {d d' D : BlockId → Block} (h : Recrashes g d d')
    (hc : ∃ bs, Committed g d D bs) : ∃ bs, Committed g d' D bs := by
  induction h with
  | none => exact hc
  | again _ vs hvs ih =>
    obtain ⟨bs, hbs⟩ := ih
    have hstate := wp_state (I := fun m => Throughout (Survives g _ ⟨fun _ => D, fun _ _ => True⟩)
      m.writes) (wp_mono (recover_committed hdev hbs) (fun _ _ hq => hq.1) fun _ _ hs => hs.1)
    exact (hstate vs hvs).committed

/-- Crash atomicity of the log. Operations that write outside the log area run from an empty
log and crash behind the writes `ws`; any number of recoveries crash after that. Then the
recovery that returns leaves, outside the log area, the contents after the transactions
whose committing header write is in `ws`, and an empty header. A home block is only written
behind the header of its transaction. Moreover nothing stops on the way if the log area is
on the disk and no operation has more updates than the log area or the cache has room for. -/
theorem crash_atomic (g : Area) (d₀ : BlockId → Block) (hdev : g.dev ≠ 0) (hg : 0 < g.size)
    (hhead : (d₀ g.head).word 0 = 0)
    {txs : List Tx} (hout : ∀ tx ∈ txs, ∀ x ∈ tx, g.home x.1 ∉ g.blocks) :
    (∀ ws, ws <+: (transactions txs (powerOn g d₀)).state.writes →
      ∀ d, Recrashes g (replay ws d₀) d → (∀ m, recoverFromLog (powerOn g d) = .ok () m →
          (∀ id ∉ g.blocks, m.disk id = contents g d₀ txs (commits g ws) id) ∧
            (m.disk g.head).word 0 = 0) ∧
        (g.start + g.size ≤ FSSIZE → ∃ m, recoverFromLog (powerOn g d) = .ok () m)) ∧
    (∀ ws id x, ws ++ [(id, x)] <+: (transactions txs (powerOn g d₀)).state.writes →
      id ∉ g.blocks → Owns g txs (commits g ws) id ∧ x = contents g d₀ txs (commits g ws) id) ∧
    ((∀ tx ∈ txs, Ample g tx) → ∃ m, transactions txs (powerOn g d₀) = .ok () m) := by
  have hrun := wp_transactions hdev hg hhead hout
  have htrace : Throughout (Survives g d₀ (plan g d₀ txs))
      (transactions txs (powerOn g d₀)).state.writes := by
    refine wp_state (wp_mono hrun ?_ fun _ _ hs => hs.1)
    rintro _ m ⟨a, h, ht⟩
    rw [h.writes]
    exact ht.survives
  refine ⟨?_, ?_, ?_⟩
  · intro ws hws d hd
    obtain ⟨bs, hbs⟩ := hd.committed hdev (htrace ws hws).committed
    have hrec := recover_committed hdev hbs
    refine ⟨fun m hm => (wp_ok hrec hm).2, fun hdisk => ?_⟩
    obtain ⟨_, m, hm, _⟩ := wp_exists (wp_mono hrec (fun _ _ hq => hq) fun _ _ hs => hs.2 hdisk)
    exact ⟨m, hm⟩
  · intro ws id x hws hid
    exact (htrace _ hws).home ws id x rfl hid
  intro hample
  obtain ⟨_, m, hm, _⟩ := wp_exists (wp_mono hrun (fun _ _ hq => hq) fun _ _ hs => hs.2 hample)
  exact ⟨m, hm⟩

/-- The log area as `mkfs` places it. -/
def mkfsArea : Area := ⟨ROOTDEV, mkfsSuperblock.logstart, mkfsSuperblock.nlog⟩

/-- Two operations that share a block. -/
def sharingTxs : List Tx := [[(60, fun _ _ => 1)], [(61, fun _ _ => 2), (60, fun _ _ => 3)]]

/-- The writes up to the first home block of the second operation. -/
def sharingWrites : List (BlockId × Block) :=
  (transactions sharingTxs (powerOn mkfsArea fun _ _ => 0)).state.writes.take 8

/-- The first write of a recovery behind `sharingWrites`. -/
def sharingRecovery : List (BlockId × Block) :=
  (recoverFromLog (powerOn mkfsArea (replay sharingWrites fun _ _ => 0))).state.writes.take 1

/-- A crash while the second operation is installed, and another one in the recovery. -/
theorem sharing_atomic : commits mkfsArea sharingWrites = 2 ∧ sharingWrites.length = 8 ∧
    ∃ m, recoverFromLog (powerOn mkfsArea
        (replay sharingRecovery (replay sharingWrites fun _ _ => 0))) = .ok () m ∧
      ∀ id ∉ mkfsArea.blocks, m.disk id = contents mkfsArea (fun _ _ => 0) sharingTxs 2 id := by
  have hcommits : commits mkfsArea sharingWrites = 2 := by decide +kernel
  have hout : ∀ tx ∈ sharingTxs, ∀ x ∈ tx, mkfsArea.home x.1 ∉ mkfsArea.blocks := by decide
  have hall := (crash_atomic mkfsArea (fun _ _ => 0) (by decide) (by decide)
    (by decide +kernel) hout).1 sharingWrites ( take_prefix ..) _
    (Recrashes.none.again sharingRecovery ( take_prefix ..))
  obtain ⟨m, hm⟩ := hall.2 (by decide)
  rw [hcommits] at hall
  exact ⟨hcommits, by decide +kernel, m, hm, (hall.1 m hm).1⟩

end Atomicity
end Xv6.Logging
