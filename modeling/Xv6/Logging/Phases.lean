import Xv6.Buffer.View
import Xv6.Lib.Replay
import Xv6.Logging.Commit

/-!
# The steps of commit and recovery

Every write of the log goes through one of three states of the disk: the header
is empty and the log blocks are being filled, the header lists blocks that are
being installed, or the header is empty again. In each of them the disk *stands
for* the contents that a recovery would make of it (`Committed`), and the rules
below say that each step of `write_log`, `write_head` and `install_trans` keeps
that, for the trace of all writes so far (`Traced`).
-/

namespace Xv6.Logging
open Fs Lib Buffer Exec List

/-- The place of the log on the disk. -/
structure Area where
  dev : ℕ
  start : ℕ
  size : ℕ

namespace Area

variable (g : Area)

/-- The log area. -/
def blocks : Set BlockId :=
  {id | id.dev = g.dev ∧ g.start ≤ id.blockno ∧ id.blockno < g.start + g.size}

instance (id : BlockId) : Decidable (id ∈ g.blocks) := inferInstanceAs (Decidable (_ ∧ _ ∧ _))

/-- The header block. -/
def head : BlockId := ⟨g.dev, g.start⟩

/-- Log block `t`. -/
def slot (t : ℕ) : BlockId := ⟨g.dev, g.start + t + 1⟩

/-- The home of a logged block. -/
def home (b : ℕ) : BlockId := ⟨g.dev, b⟩

/-- The log in memory. -/
def log (outstanding : ℤ) (committing : Bool) (lh : List ℕ) : Log :=
  { start := g.start, size := g.size, outstanding := outstanding, committing := committing,
    dev := g.dev, lh := lh }

variable {g}

lemma head_mem (h : 0 < g.size) : g.head ∈ g.blocks := by
  refine ⟨rfl, ?_, ?_⟩ <;> dsimp only [head] <;> omega

lemma slot_mem {t : ℕ} (h : t + 1 < g.size) : g.slot t ∈ g.blocks := by
  refine ⟨rfl, ?_, ?_⟩ <;> dsimp only [slot] <;> omega

lemma slot_ne_head (t : ℕ) : g.slot t ≠ g.head := by
  intro h
  have hno := congrArg BlockId.blockno h
  dsimp only [slot, head] at hno
  omega

lemma slot_injective : Function.Injective g.slot := by
  intro t t' h
  have hno := congrArg BlockId.blockno h
  dsimp only [slot] at hno
  omega

lemma home_injective : Function.Injective g.home := fun _ _ h => congrArg BlockId.blockno h

end Area

section Header

/-- A header block that lists `bs`. -/
structure HeaderIs (b : Block) (bs : List ℕ) : Prop where
  count : b.word 0 = UInt32.ofNat bs.length
  length : bs.length ≤ LOGSIZE
  block : ∀ t x, bs[t]? = some x → (b.word (t + 1)).toNat = x

variable {b : Block}

lemma headerIs_nil (h : b.word 0 = 0) : HeaderIs b [] := ⟨h, by decide, nofun⟩

variable {bs : List ℕ}

lemma HeaderIs.word_zero (h : HeaderIs b bs) : b.word 0 = 0 ↔ bs = [] := by
  have hlen := h.length
  rw [h.count]
  constructor
  · intro hzero
    have hnat := congrArg UInt32.toNat hzero
    rw [UInt32.toNat_ofNat'] at hnat
    change bs.length % 4294967296 = 0 at hnat
    unfold LOGSIZE MAXOPBLOCKS at hlen
    exact length_eq_zero_iff.mp (by omega)
  · rintro rfl
    rfl

/-- The loop of `write_head` does not reach words in front of its first one. -/
lemma word_putBlocks_of_le (bs : List ℕ) (b : Block) {k j : ℕ} (hj : j ≤ k) :
    ((bs.zipIdx k).foldl (fun b x => b.setWord (x.2 + 1) (UInt32.ofNat x.1)) b).word j =
      b.word j := by
  induction bs generalizing b k with
  | nil => rfl
  | cons x bs ih =>
    rw [zipIdx_cons, foldl_cons, ih _ (by omega)]
    exact Block.word_setWord_of_ne b _ (by omega)

lemma word_putBlocks (bs : List ℕ) (b : Block) {k t x : ℕ} (hk : k + bs.length < WORDS)
    (ht : bs[t]? = some x) :
    ((bs.zipIdx k).foldl (fun b x => b.setWord (x.2 + 1) (UInt32.ofNat x.1)) b).word
      (k + t + 1) = UInt32.ofNat x := by
  induction bs generalizing b k t with
  | nil => cases ht
  | cons y bs ih =>
    rw [length_cons] at hk
    rw [zipIdx_cons, foldl_cons]
    rcases t with _ | t
    · obtain rfl : y = x := by simpa using ht
      rw [word_putBlocks_of_le _ _ (by omega)]
      exact Block.word_setWord b _ (by omega)
    have hrest := ih (b.setWord (k + 1) (UInt32.ofNat y)) (k := k + 1) (by omega)
      (by simpa using ht)
    rw [← hrest]
    congr 1
    omega

lemma headerIs_putHead {lh : List ℕ} (b : Block) (hlen : lh.length ≤ LOGSIZE)
    (hlh : ∀ x ∈ lh, x < FSSIZE) : HeaderIs (putHead lh b) lh := by
  unfold putHead
  refine ⟨?_, hlen, ?_⟩
  · rw [word_putBlocks_of_le _ _ (Nat.zero_le _)]
    exact Block.word_setWord b _ (by decide)
  intro t x ht
  have hx := hlh x (mem_of_getElem? ht)
  have hword := word_putBlocks lh (b.setWord 0 (UInt32.ofNat lh.length)) (k := 0)
    (by unfold LOGSIZE MAXOPBLOCKS at hlen; unfold WORDS BSIZE; omega) ht
  rw [Nat.zero_add] at hword
  rw [hword, UInt32.toNat_ofNat']
  apply Nat.mod_eq_of_lt
  unfold FSSIZE at hx
  omega

lemma HeaderIs.headCount_eq (h : HeaderIs b bs) : headCount b = bs.length := by
  have hlen := h.length
  unfold LOGSIZE MAXOPBLOCKS at hlen
  unfold headCount
  rw [h.count]
  have hnat : (UInt32.ofNat bs.length).toBitVec.toNat = bs.length := by
    change bs.length % 4294967296 = bs.length
    omega
  rw [BitVec.toInt_eq_toNat_of_lt (by rw [hnat]; omega), hnat]
  rfl

lemma HeaderIs.read (h : HeaderIs b bs) :
    (List.range (headCount b)).map (fun k => (b.word (k + 1)).toNat) = bs := by
  apply ext_getElem?
  intro t
  rw [h.headCount_eq]
  rcases hx : bs[t]? with _ | x
  · rw [getElem?_eq_none_iff] at hx ⊢
    simpa using hx
  have hlt := (List.getElem?_eq_some_iff.mp hx).1
  simp [hlt, h.block t x hx]

end Header

section Disk

/-- A recovery of the disk `d` would leave the contents `D`: its header lists `bs`, the
log blocks hold the contents of these blocks, and all other blocks are in place. -/
structure Committed (g : Area) (d D : BlockId → Block) (bs : List ℕ) : Prop where
  head : HeaderIs (d g.head) bs
  room : bs.length < g.size
  outside : ∀ b ∈ bs, g.home b ∉ g.blocks ∧ b < FSSIZE
  slots : ∀ t b, bs[t]? = some b → d (g.slot t) = D (g.home b)
  rest : ∀ id ∉ g.blocks, (∀ b ∈ bs, id ≠ g.home b) → d id = D id

/-- The committing header writes in a trace. -/
def commits (g : Area) (ws : List (BlockId × Block)) : ℕ :=
  ws.countP fun w => w.1 = g.head ∧ w.2.word 0 ≠ 0

variable {g : Area}

lemma commits_of_ne (ws : List (BlockId × Block)) {id : BlockId} (x : Block)
    (h : id ≠ g.head) : commits g (ws ++ [(id, x)]) = commits g ws := by
  simp [commits, h]

variable {x : Block}

lemma commits_empty (ws : List (BlockId × Block)) (h : x.word 0 = 0) :
    commits g (ws ++ [(g.head, x)]) = commits g ws := by
  simp [commits, h]

lemma commits_head (ws : List (BlockId × Block)) (h : x.word 0 ≠ 0) :
    commits g (ws ++ [(g.head, x)]) = commits g ws + 1 := by
  simp [commits, h]

/-- What a trace of writes is measured by: the contents `C j` after `j` transactions, and
the blocks that the `j`-th transaction owns. -/
structure Plan where
  C : ℕ → BlockId → Block
  owns : ℕ → BlockId → Prop

/-- A crash behind the writes `ws` is survived, and a last write to a home block is one of
the transaction that committed last. -/
structure Survives (g : Area) (d₀ : BlockId → Block) (π : Plan) (ws : List (BlockId × Block)) :
    Prop where
  committed : ∃ bs, Committed g (replay ws d₀) (π.C (commits g ws)) bs
  home : ∀ vs id x, ws = vs ++ [(id, x)] → id ∉ g.blocks →
    π.owns (commits g vs) id ∧ x = π.C (commits g vs) id

/-- The disk is what the trace makes of `d₀`, and a crash anywhere in it is survived. -/
structure Traced (g : Area) (d₀ : BlockId → Block) (π : Plan) (a : Abs) : Prop where
  disk : a.disk = replay a.writes d₀
  survives : Throughout (Survives g d₀ π) a.writes

variable {d₀ : BlockId → Block} {π : Plan} {a : Abs}

/-- The machine behind `j` commits, with the log `l` in memory and a trace that survives a crash. -/
structure Stands (g : Area) (d₀ : BlockId → Block) (π : Plan) (j : ℕ) (l : Log) (m : Machine)
    (a : Abs) : Prop where
  rep : Rep m a
  log : a.log = l
  count : commits g a.writes = j
  traced : Traced g d₀ π a

variable {j : ℕ} {l : Log} {m : Machine}

lemma Stands.withLog (h : Stands g d₀ π j l m a) (l' : Log) :
    Stands g d₀ π j l' { m with log := l' } (a.withLog l') :=
  ⟨h.rep.withLog l', rfl, h.count, h.traced.disk, h.traced.survives⟩

lemma Stands.write (h : Stands g d₀ π j l m a) {m' : Machine} {id : BlockId} {j' : ℕ}
    (h' : Rep m' (a.write id x)) (hcount : commits g (a.writes ++ [(id, x)]) = j') (bs : List ℕ)
    (hc : Committed g (a.write id x).disk (π.C j') bs)
    (hhome : id ∉ g.blocks → π.owns j id ∧ x = π.C j id) :
    Stands g d₀ π j' l m' (a.write id x) := by
  refine ⟨h', h.log, hcount, ?_, h.traced.survives.concat ⟨⟨bs, ?_⟩, ?_⟩⟩
  · dsimp only [Abs.write]
    rw [replay_concat, h.traced.disk]
  · rwa [replay_concat, ← h.traced.disk, hcount]
  intro vs id' x' heq hout
  obtain ⟨rfl, hlast⟩ := append_inj' heq rfl
  obtain ⟨rfl, rfl⟩ := Prod.mk.inj (List.cons.inj hlast).1
  rw [h.count]
  exact hhome hout

end Disk

section Rules
variable {m : Machine} {a : Abs} {Q : Unit → Machine → Prop} {S : Stop → Machine → Prop}
variable {i j : Fin NBUF}

lemma wp_copyTo {src dst : BlockId} (h : Rep m a) (hi : (i, src) ∈ a.held)
    (hj : (j, dst) ∈ a.held) (hij : i ≠ j) (hne : src ≠ dst)
    (hclean : src ∈ a.dirty ∨ a.disk src = a.view src)
    (hok : ∀ m', Rep m' (((a.write dst (a.view src)).drop i).drop j) → Q () m') :
    wp (copyTo i j) Q S m := by
  unfold copyTo
  rw [wp_bind, wp_get, wp_bind]
  refine wp_setData h hj fun m₁ h₁ => ?_
  rw [h.held_data hi] at h₁
  rw [wp_bind]
  refine wp_bwrite h₁ hj fun m₂ h₂ => ?_
  rw [store_flush] at h₂
  rw [wp_bind]
  refine wp_brelse h₂ hi ?_ fun m₃ h₃ => ?_
  · rcases hclean with hin | heq
    · exact Or.inl ⟨hin, hne⟩
    right
    dsimp only [Abs.write]
    rw [Function.update_of_ne hne, Function.update_of_ne hne, heq]
  have hj' : (j, dst) ∈ ((a.write dst (a.view src)).drop i).held :=
    mem_filter.mpr ⟨hj, by simpa using hij.symm⟩
  refine wp_brelse h₃ hj' ?_ hok
  · right
    dsimp only [Abs.drop, Abs.write]
    rw [Function.update_self, Function.update_self]

section Write
variable {id id' : BlockId} {x : Block}

lemma write_disk_self : (a.write id x).disk id = x := Function.update_self ..

lemma write_view_self : (a.write id x).view id = x := Function.update_self ..

lemma write_disk_of_ne (h : id' ≠ id) : (a.write id x).disk id' = a.disk id' :=
  Function.update_of_ne h ..

lemma write_view_of_ne (h : id' ≠ id) : (a.write id x).view id' = a.view id' :=
  Function.update_of_ne h ..

end Write

variable {s d id : BlockId}

lemma write_take_drop {x : Block} (hheld : a.held = []) :
    ((((a.take i s).take j d).write id x).drop i).drop j = a.write id x := by
  simp [Abs.write, Abs.take, Abs.drop, hheld]

lemma write_take_drop' {x : Block} (hheld : a.held = []) :
    ((((a.take i s).take j d).write id x).drop j).drop i = a.write id x := by
  simp [Abs.write, Abs.take, Abs.drop, hheld]

variable {g : Area} {l : Log} {b t : ℕ}

section
variable (h : Rep m a) (hdev : g.dev ≠ 0) (hl : l.dev = g.dev ∧ l.start = g.start)
  (hheld : a.held = []) (hne : g.slot t ≠ g.home b)
include h hdev hl hheld hne

lemma wp_installBlock (hclean : a.disk (g.slot t) = a.view (g.slot t))
    (hok : ∀ m', Rep m' (a.write (g.home b) (a.view (g.slot t))) → Q () m')
    (hstop : ∀ e m', m'.writes = a.writes →
      ¬ (a.Available (g.slot t) ∧ ∀ i, (a.take i (g.slot t)).Available (g.home b)) → S e m') :
    wp (installBlock l (b, t)) Q S m := by
  obtain ⟨hdev', hstart⟩ := hl
  unfold installBlock
  rw [hdev', hstart, wp_bind]
  refine wp_bread h (g.slot t) hdev ?_ fun e m' hw hav => hstop e m' hw fun hboth =>
    hav hboth.1
  intro i m₁ _ h₁
  rw [wp_bind]
  refine wp_bread h₁ (g.home b) hdev ?_ fun e m' hw hav => hstop e m' hw fun hboth =>
    hav (hboth.2 i)
  intro j m₂ hfresh h₂
  have hij : i ≠ j := hfresh (i, g.slot t) (mem_cons_self ..)
  refine wp_copyTo h₂ (mem_cons_of_mem _ (mem_cons_self ..)) (mem_cons_self ..)
    hij hne (Or.inr hclean) fun m₃ h₃ => hok m₃ ?_
  rwa [write_take_drop hheld] at h₃

lemma wp_logBlock (hdirty : g.home b ∈ a.dirty)
    (hok : ∀ m', Rep m' (a.write (g.slot t) (a.view (g.home b))) → Q () m')
    (hstop : ∀ e m', m'.writes = a.writes →
      ¬ (a.Available (g.slot t) ∧ ∀ i, (a.take i (g.slot t)).Available (g.home b)) → S e m') :
    wp (logBlock l (b, t)) Q S m := by
  obtain ⟨hdev', hstart⟩ := hl
  unfold logBlock
  rw [hdev', hstart, wp_bind]
  refine wp_bread h (g.slot t) hdev ?_ fun e m' hw hav => hstop e m' hw fun hboth =>
    hav hboth.1
  intro i m₁ _ h₁
  rw [wp_bind]
  refine wp_bread h₁ (g.home b) hdev ?_ fun e m' hw hav => hstop e m' hw fun hboth =>
    hav (hboth.2 i)
  intro j m₂ hfresh h₂
  have hij : i ≠ j := hfresh (i, g.slot t) (mem_cons_self ..)
  refine wp_copyTo h₂ (mem_cons_self ..) (mem_cons_of_mem _ (mem_cons_self ..))
    hij.symm hne.symm (Or.inl hdirty) fun m₃ h₃ => hok m₃ ?_
  rwa [write_take_drop' hheld] at h₃

end

lemma wp_writeHead (h : Rep m a) (hdev : g.dev ≠ 0)
    (hl : a.log.dev = g.dev ∧ a.log.start = g.start) (hheld : a.held = [])
    (hok : ∀ m', Rep m' (a.write g.head (putHead a.log.lh (a.view g.head))) → Q () m')
    (hstop : ∀ e m', m'.writes = a.writes → ¬ a.Available g.head → S e m') :
    wp writeHead Q S m := by
  obtain ⟨hdev', hstart⟩ := hl
  unfold writeHead
  rw [wp_bind, wp_get, h.log, hdev', hstart, wp_bind]
  refine wp_bread h g.head hdev ?_ hstop
  intro i m₁ _ h₁
  have hi : (i, g.head) ∈ (a.take i g.head).held := mem_cons_self ..
  rw [wp_bind]
  refine wp_setData h₁ hi fun m₂ h₂ => ?_
  rw [wp_bind]
  refine wp_bwrite h₂ hi fun m₃ h₃ => ?_
  refine wp_brelse h₃ hi ?_ fun m₄ h₄ => hok m₄ ?_
  · right
    dsimp only [Abs.flush]
    rw [Function.update_self]
  have heq : (((a.take i g.head).store g.head (putHead a.log.lh (a.view g.head))).flush
      g.head).drop i = a.write g.head (putHead a.log.lh (a.view g.head)) := by
    simp [Abs.store, Abs.flush, Abs.write, Abs.take, Abs.drop, hheld]
  rwa [← heq]

end Rules
end Xv6.Logging
