import Xv6.Mkfs.Extent
import Xv6.Mkfs.Image

/-!
# What `iappend` does to a table of files

`Table C E D s` says that the image of `s` holds a table of files: inode `i` is
`D i`, its blocks are `E i`, and they hold the bytes `C i`. No block belongs to
two files, and the blocks from `freeblock` on are still zero. The loop of
`iappend` takes such a table to one in which a single file has grown, or it
stops because the file is too large or the image is full.
-/

namespace Xv6.Mkfs
open Fs Lib Function Exec List

/-- The number of data blocks of a file with `len` bytes. -/
def blocksOf (len : ℕ) : ℕ := (len + BSIZE - 1) / BSIZE

/-- The number of blocks that a file with `m` data blocks takes. -/
def spent (m : ℕ) : ℕ := m + if NDIRECT < m then 1 else 0

lemma Extent.Shaped.length_used {e : Extent} (h : e.Shaped) :
    e.used.length = spent e.blocks.length := by
  rw [Extent.length_used, spent]
  simp only [Extent.Shaped] at h
  simp only [h]

lemma spent_mono {m n : ℕ} (h : m ≤ n) : spent m ≤ spent n := by
  unfold spent
  split_ifs <;> omega

lemma sector_of_lt {x : UInt32} (h : x.toNat < 8388608) : sector x = x.toNat := by
  rw [sector, UInt32.toNat_mul, UInt32.toNat_ofNat']
  simp only [BSIZE]
  omega

variable {b : ℕ}

lemma toNat_ofNat_of_le (h : b ≤ FSSIZE) : (UInt32.ofNat b).toNat = b := by
  rw [UInt32.toNat_ofNat']
  unfold FSSIZE at h
  omega

lemma sector_ofNat (h : b ≤ FSSIZE) : sector (UInt32.ofNat b) = b := by
  have hb := toNat_ofNat_of_le h
  rw [sector_of_lt, hb]
  rw [hb]
  unfold FSSIZE at h
  omega

lemma ofNat_ne_zero (hpos : 0 < b) (h : b ≤ FSSIZE) : UInt32.ofNat b ≠ 0 := by
  intro hzero
  have hb := toNat_ofNat_of_le h
  rw [hzero, UInt32.toNat_zero] at hb
  omega

section Rules
variable {Q : Block → State → Prop} {R : Unit → State → Prop} {S : Failure → State → Prop}
  {s : State} {sec : UInt32} {buf : Block}

lemma wp_rsect : wp (rsect sec) Q S s ↔ (s.sectors ≤ sector sec → S .read s) ∧
      (¬ s.sectors ≤ sector sec → Q (s.image (sector sec)) s) := by
  simp only [rsect, wp_bind, wp_get, wp_stopIf, wp_pure]

lemma wp_wsect : wp (wsect sec buf) R S s ↔ R () (s.write (sector sec) buf) := Iff.rfl

/-- The state after `freeblock++`. -/
@[simps]
def State.bump (s : State) : State := { s with freeblock := s.freeblock + 1 }

lemma wp_nextBlock {P : UInt32 → State → Prop} :
    wp nextBlock P S s ↔ P (UInt32.ofNat s.freeblock) s.bump := Iff.rfl

end Rules

/-- The image holds a table of files. -/
structure Table (C : ℕ → List UInt8) (E : ℕ → Extent) (D : ℕ → Dinode) (s : State) : Prop where
  sectors : s.sectors = FSSIZE
  held : ∀ i, Held s.image (D i) (E i) (C i)
  range : ∀ i, ∀ x ∈ (E i).used, nmeta ≤ x ∧ x < s.freeblock
  nodup : ∀ i, (E i).used.Nodup
  disjoint : ∀ i j, i ≠ j → ∀ x ∈ (E i).used, x ∉ (E j).used
  free : ∀ x, s.freeblock ≤ x → s.image x = Block.zero
  data : nmeta ≤ s.freeblock

/-- What writing to the blocks of files leaves alone. -/
structure SameMeta (s s' : State) : Prop where
  image : ∀ x < nmeta, s'.image x = s.image x
  freeinode : s'.freeinode = s.freeinode
  inodeWrites : s'.inodeWrites = s.inodeWrites

lemma SameMeta.refl (s : State) : SameMeta s s := ⟨fun _ _ => rfl, rfl, rfl⟩

lemma SameMeta.trans {s s' s'' : State} (h : SameMeta s s') (h' : SameMeta s' s'') :
    SameMeta s s'' where
  image x hx := (h'.image x hx).trans (h.image x hx)
  freeinode := h'.freeinode.trans h.freeinode
  inodeWrites := h'.inodeWrites.trans h.inodeWrites

lemma SameMeta.bump (s : State) : SameMeta s s.bump := ⟨fun _ _ => rfl, rfl, rfl⟩

lemma SameMeta.write (s : State) {x : ℕ} (b : Block) (hx : nmeta ≤ x) :
    SameMeta s (s.write x b) where
  image y hy := update_of_ne (by omega) _ _
  freeinode := rfl
  inodeWrites := rfl

/-- A table in which file `j` has the given bytes, blocks and inode. -/
def Opened (j : ℕ) (C : ℕ → List UInt8) (E : ℕ → Extent) (D : ℕ → Dinode) (bytes : List UInt8)
    (e : Extent) (d : Dinode) (s : State) : Prop :=
  Table (update C j bytes) (update E j e) (update D j d) s

section Opened
variable {j : ℕ} {C : ℕ → List UInt8} {E : ℕ → Extent} {D : ℕ → Dinode}
  {bytes bytes' : List UInt8} {e e' : Extent} {d d' : Dinode} {s : State}

lemma Table.opened (h : Table C E D s) (j : ℕ) : Opened j C E D (C j) (E j) (D j) s := by
  unfold Opened
  rwa [update_eq_self, update_eq_self, update_eq_self]

namespace Opened

section
variable (h : Opened j C E D bytes e d s)
include h

lemma held : Held s.image d e bytes := by
  simpa using Table.held h j

variable {x : ℕ}

lemma range (hx : x ∈ e.used) : nmeta ≤ x ∧ x < s.freeblock :=
  Table.range h j x (by simpa using hx)

lemma nodup : e.used.Nodup := by
  simpa using Table.nodup h j

lemma fresh : s.freeblock ∉ e.used := fun hx =>
  Nat.lt_irrefl _ (h.range hx).2

/-- The file changes, and of the image only its own blocks and new ones do. -/
lemma change (s' : State) (hheld : Held s'.image d' e' bytes')
    (hused : ∀ x ∈ e'.used, x ∈ e.used ∨ s.freeblock ≤ x ∧ x < s'.freeblock)
    (hnodup : e'.used.Nodup) (himage : ∀ x, x ∉ e.used → s'.image x = s.image x)
    (hsectors : s'.sectors = s.sectors) (hfree : s.freeblock ≤ s'.freeblock) :
    Opened j C E D bytes' e' d' s' := by
  have hother : ∀ i, i ≠ j → ∀ x ∈ (E i).used, x ∉ e.used := by
    intro i hi x hx
    simpa using Table.disjoint h i j hi x (by simpa [hi] using hx)
  have hold : ∀ i, i ≠ j → ∀ x ∈ (E i).used, nmeta ≤ x ∧ x < s.freeblock := fun i hi x hx =>
    Table.range h i x (by simpa [hi] using hx)
  have hapart : ∀ i, i ≠ j → ∀ x ∈ (E i).used, x ∉ e'.used := by
    intro i hi x hx hx'
    rcases hused x hx' with hx' | hx'
    · exact hother i hi x hx hx'
    have := (hold i hi x hx).2
    omega
  constructor
  case sectors => exact hsectors.trans (Table.sectors h)
  case held =>
    intro i
    obtain rfl | hi := eq_or_ne i j
    · simpa using hheld
    have hframe := (Table.held h i).frame fun x hx =>
      himage x (hother i hi x (by simpa [hi] using hx))
    simpa [hi] using hframe
  case range =>
    intro i x hx
    have hdata := Table.data h
    obtain rfl | hi := eq_or_ne i j
    · rcases hused x (by simpa using hx) with hx | hx
      · have := h.range hx
        omega
      · omega
    · have := hold i hi x (by simpa [hi] using hx)
      omega
  case nodup =>
    intro i
    obtain rfl | hi := eq_or_ne i j
    · simpa using hnodup
    · simpa [hi] using Table.nodup h i
  case disjoint =>
    intro i k hik x hx
    obtain rfl | hi := eq_or_ne i j
    · have hk : k ≠ i := hik.symm
      intro hx'
      simp only [update_self, update_of_ne hk] at hx hx'
      exact hapart k hk x hx' hx
    simp only [update_of_ne hi] at hx
    obtain rfl | hk := eq_or_ne k j
    · simpa using hapart i hi x hx
    have := Table.disjoint h i k hik x (by simpa [hi] using hx)
    simpa [hk] using this
  case free =>
    intro x hx
    rw [himage x fun hx' => by have := (h.range hx').2; omega]
    exact Table.free h x (by omega)
  case data => exact (Table.data h).trans hfree

lemma push_direct (hlen : e.blocks.length < NDIRECT) (hind : e.ind = none) :
    Opened j C E D bytes (e.push s.freeblock)
      (d.setAddr e.blocks.length (UInt32.ofNat s.freeblock)) s.bump := by
  apply h.change s.bump (h.held.push_direct hlen hind)
  · intro x hx
    rcases Extent.mem_used_push.mp hx with hx | rfl
    · exact .inl hx
    · exact .inr ⟨Nat.le_refl _, Nat.lt_succ_self _⟩
  · exact Extent.nodup_push h.nodup h.fresh
  · exact fun _ _ => rfl
  · rfl
  · exact Nat.le_succ _

/-- An indirect block without entries. -/
lemma addInd (hlen : e.blocks.length ≤ NDIRECT) (hind : e.ind = none) :
    Opened j C E D bytes (e.addInd s.freeblock)
      (d.setAddr NDIRECT (UInt32.ofNat s.freeblock)) s.bump := by
  apply h.change s.bump (h.held.addInd hlen (Table.free h _ (Nat.le_refl _)))
  · intro x hx
    rcases (Extent.mem_used_addInd hind).mp hx with hx | rfl
    · exact .inl hx
    · exact .inr ⟨Nat.le_refl _, Nat.lt_succ_self _⟩
  · exact Extent.nodup_addInd h.nodup h.fresh hind
  · exact fun _ _ => rfl
  · rfl
  · exact Nat.le_succ _

/-- A write to a sector of the image does not make the image file longer. -/
lemma max_sectors (hx : x < FSSIZE) : max s.sectors (x + 1) = s.sectors := by
  rw [Table.sectors h]
  omega

lemma push_indirect {a : ℕ} (hind : e.ind = some a) (hlen : NDIRECT ≤ e.blocks.length)
    (hmax : e.blocks.length < MAXFILE) (ha : a < FSSIZE) :
    Opened j C E D bytes (e.push s.freeblock) d (s.bump.write a
      ((s.image a).setWord (e.blocks.length - NDIRECT) (UInt32.ofNat s.freeblock))) := by
  apply h.change _ (h.held.push_indirect h.nodup hind hlen hmax)
  · intro x hx
    rcases Extent.mem_used_push.mp hx with hx | rfl
    · exact .inl hx
    · exact .inr ⟨Nat.le_refl _, Nat.lt_succ_self _⟩
  · exact Extent.nodup_push h.nodup h.fresh
  · intro x hx
    exact update_of_ne (fun hxa : x = a => hx (hxa ▸ Extent.mem_used_of_ind hind)) _ _
  · exact h.max_sectors ha
  · exact Nat.le_succ _

lemma splice {chunk : List UInt8} (hx : e.blocks[bytes.length / BSIZE]? = some x)
    (hlt : x < FSSIZE) (hfit : bytes.length % BSIZE + chunk.length ≤ BSIZE) :
    Opened j C E D (bytes ++ chunk) e d
      (s.write x ((s.image x).splice (bytes.length % BSIZE) chunk)) := by
  apply h.change _ (h.held.splice h.nodup hx hfit)
  · exact fun y hy => .inl hy
  · exact h.nodup
  · intro y hy
    exact update_of_ne (fun hyx : y = x => hy (hyx ▸ Extent.mem_used_of_block hx)) _ _
  · exact h.max_sectors hlt
  · exact Nat.le_refl _

end
end Opened

/-- The block `b` is the file block `fbn`. The file has grown to hold it, by the new blocks of
the image. -/
structure Mapped (j : ℕ) (C : ℕ → List UInt8) (E : ℕ → Extent) (D : ℕ → Dinode)
    (bytes : List UInt8) (e : Extent) (s : State) (fbn : ℕ) (e' : Extent) (b : ℕ) (d' : Dinode)
    (s' : State) : Prop where
  opened : Opened j C E D bytes e' d' s'
  shaped : e'.Shaped
  length : e'.blocks.length = max e.blocks.length (fbn + 1)
  block : e'.blocks[fbn]? = some b
  same : SameMeta s s'
  grown : s'.freeblock + e.used.length = s.freeblock + e'.used.length
  full : b < FSSIZE → s'.freeblock ≤ FSSIZE
  le : b ≤ FSSIZE

lemma Opened.mapped_self {b fbn : ℕ} (h : Opened j C E D bytes e d s) (hshaped : e.Shaped)
    (hfull : s.freeblock ≤ FSSIZE) (hb : e.blocks[fbn]? = some b) :
    Mapped j C E D bytes e s fbn e b d s where
  opened := h
  shaped := hshaped
  length := by
    have := (List.getElem?_eq_some_iff.mp hb).1
    omega
  block := hb
  same := .refl s
  grown := rfl
  full _ := hfull
  le := by
    have := (h.range (Extent.mem_used_of_block hb)).2
    omega

variable {S : Failure → State → Prop}

lemma wp_mapIndirect {a fbn : ℕ} {Q : UInt32 → State → Prop} (h : Opened j C E D bytes e d s)
    (hind : e.ind = some a) (hfull : s.freeblock ≤ FSSIZE + 1)
    (hge : NDIRECT ≤ fbn) (hle : fbn ≤ e.blocks.length) (hmax : fbn < MAXFILE)
    (hstop : FSSIZE ≤ a → S .read s) (hold : ∀ b, e.blocks[fbn]? = some b → Q (UInt32.ofNat b) s)
    (hnew : fbn = e.blocks.length → a < FSSIZE → ∀ s',
      Opened j C E D bytes (e.push s.freeblock) d s' → SameMeta s s' →
        s'.freeblock = s.freeblock + 1 → Q (UInt32.ofNat s.freeblock) s') :
    wp (mapIndirect d fbn) Q S s := by
  have ha := h.range (Extent.mem_used_of_ind hind)
  have haddr : d.addr NDIRECT = UInt32.ofNat a := by rw [h.held.indirect, hind, Option.getD_some]
  have hsector : sector (d.addr NDIRECT) = a := by rw [haddr, sector_ofNat (by omega)]
  have hslot : fbn - NDIRECT < NINDIRECT := by
    unfold MAXFILE at hmax
    omega
  have hword : (s.image a).word (fbn - NDIRECT) = e.entry fbn := by
    rw [h.held.entries a hind _ hslot, Nat.add_sub_cancel' hge]
  unfold mapIndirect
  rw [wp_bind, wp_rsect, hsector, Table.sectors h]
  refine ⟨hstop, fun hlow => ?_⟩
  obtain hlt | rfl := Nat.lt_or_eq_of_le hle
  · obtain ⟨b, hb⟩ : ∃ b, e.blocks[fbn]? = some b := ⟨_, getElem?_eq_getElem hlt⟩
    have hbrange := h.range (Extent.mem_used_of_block hb)
    rw [Extent.entry_of_block hb] at hword
    rw [hword, if_neg (ofNat_ne_zero (Nat.lt_of_lt_of_le (by decide) hbrange.1) (by omega))]
    exact (wp_pure _).mpr (hold b hb)
  rw [hword, Extent.entry_of_le (Nat.le_refl _), if_pos rfl, wp_bind, wp_nextBlock,
    wp_bind, wp_wsect, wp_pure, hsector, Block.word_setWord _ _ hslot]
  have hlt := Nat.lt_of_not_le hlow
  exact hnew rfl hlt _ (h.push_indirect hind hge hmax hlt)
    ((SameMeta.bump s).trans (.write _ _ ha.1)) rfl

lemma mapAddr_of_ne {i : ℕ} (h : d.addr i ≠ 0) : mapAddr d i = pure d := if_neg h

lemma wp_mapAddr_of_eq {i : ℕ} {Q : Dinode → State → Prop} (h : d.addr i = 0)
    (hQ : Q (d.setAddr i (UInt32.ofNat s.freeblock)) s.bump) : wp (mapAddr d i) Q S s := by
  rw [mapAddr, if_pos h]
  exact hQ

/-- The blocks that a file lacks for the file block `fbn` do not fit into the image. -/
def NoRoom (e : Extent) (s : State) (fbn : ℕ) : Prop :=
  FSSIZE + spent e.blocks.length < s.freeblock + spent (max e.blocks.length (fbn + 1))

lemma Mapped.of_push {s' : State} (hopened : Opened j C E D bytes (e.push s.freeblock) d' s')
    (hshaped : (e.push s.freeblock).Shaped) (hfull : s.freeblock ≤ FSSIZE) (hsame : SameMeta s s')
    (hfree : s'.freeblock = s.freeblock + 1) :
    Mapped j C E D bytes e s e.blocks.length (e.push s.freeblock) s.freeblock d' s' where
  opened := hopened
  shaped := hshaped
  length := by
    rw [Extent.push_blocks, length_append, length_singleton]
    omega
  block := by simp
  same := hsame
  grown := by
    rw [Extent.length_used, Extent.length_used, Extent.push_blocks, Extent.push_ind,
      length_append, length_singleton, hfree]
    omega
  full h := by omega
  le := hfull

lemma wp_mapBlock {fbn : ℕ} (h : Opened j C E D bytes e d s) (hshaped : e.Shaped)
    (hfull : s.freeblock ≤ FSSIZE) (hle : fbn ≤ e.blocks.length) (hmax : fbn < MAXFILE) :
    wp (mapBlock d fbn)
      (fun r s' => ∃ e' b, Mapped j C E D bytes e s fbn e' b r.1 s' ∧ r.2 = UInt32.ofNat b ∧
        r.1 = { d with addrs := r.1.addrs })
      (fun err _ => err = .read ∧ NoRoom e s fbn) s := by
  unfold mapBlock
  split_ifs with hdirect
  · have haddr := h.held.direct fbn hdirect
    rw [wp_bind]
    obtain hlt | rfl := Nat.lt_or_eq_of_le hle
    · obtain ⟨b, hb⟩ : ∃ b, e.blocks[fbn]? = some b := ⟨_, getElem?_eq_getElem hlt⟩
      have hmapped := h.mapped_self hshaped hfull hb
      have hpos := (h.range (Extent.mem_used_of_block hb)).1
      rw [Extent.entry_of_block hb] at haddr
      have hne := ofNat_ne_zero (Nat.lt_of_lt_of_le (by decide) hpos) hmapped.le
      rw [mapAddr_of_ne (haddr ▸ hne)]
      exact ⟨e, b, hmapped, haddr, rfl⟩
    rw [Extent.entry_of_le (Nat.le_refl _)] at haddr
    have hind := hshaped.ind_eq_none (Nat.le_of_lt hdirect)
    have hshaped' : (e.push s.freeblock).Shaped := by
      simp [Extent.Shaped, hind]
      omega
    apply wp_mapAddr_of_eq haddr
    exact ⟨_, _, .of_push (h.push_direct hdirect hind) hshaped' hfull (.bump s) rfl,
      d.addr_setAddr _ (by omega), rfl⟩
  have hge : NDIRECT ≤ fbn := Nat.le_of_not_lt hdirect
  rw [wp_bind]
  cases hind : e.ind with
  | some a =>
    have hlen := hshaped.length_gt hind
    have ha := h.range (Extent.mem_used_of_ind hind)
    have haddr : d.addr NDIRECT = UInt32.ofNat a := by
      rw [h.held.indirect, hind, Option.getD_some]
    have hne := ofNat_ne_zero (Nat.lt_of_lt_of_le (by decide) ha.1) (by omega : a ≤ FSSIZE)
    rw [mapAddr_of_ne (haddr ▸ hne), wp_pure, wp_bind]
    apply wp_mapIndirect h hind (Nat.le_succ_of_le hfull) hge hle hmax
    · intro hstop
      omega
    · intro b hb
      exact ⟨e, b, h.mapped_self hshaped hfull hb, rfl, rfl⟩
    rintro rfl _ s' hopened hsame hfree
    have hshaped' : (e.push s.freeblock).Shaped := by
      simp [Extent.Shaped, hind]
      omega
    exact ⟨_, _, .of_push hopened hshaped' hfull hsame hfree, rfl, rfl⟩
  | none =>
    have hlen : e.blocks.length ≤ NDIRECT := by
      by_contra hgt
      have hsome := hshaped.mpr (Nat.lt_of_not_le hgt)
      simp [hind] at hsome
    obtain rfl : fbn = e.blocks.length := by omega
    have hlen' : e.blocks.length = NDIRECT := by omega
    apply wp_mapAddr_of_eq (by rw [h.held.indirect, hind]; rfl)
    rw [wp_bind]
    have hroom : spent (max e.blocks.length (e.blocks.length + 1)) = spent e.blocks.length + 2 := by
      rw [hlen']
      rfl
    apply wp_mapIndirect (h.addInd hlen hind) rfl (Nat.succ_le_succ hfull) hge (Nat.le_refl _) hmax
    · intro hstop
      unfold NoRoom
      exact ⟨rfl, by omega⟩
    · intro b hb
      have := (List.getElem?_eq_some_iff.mp hb).1
      exact absurd this (Nat.lt_irrefl _)
    intro _ hlt s' hopened hsame hfree
    refine ⟨_, _, ⟨hopened, ?_, ?_, ?_, (SameMeta.bump s).trans hsame, ?_, ?_, ?_⟩, rfl, rfl⟩
    · simp [Extent.Shaped]
      omega
    · simp
    · simp
    · simp [Extent.length_used, hfree, hind]
      omega
    · rw [State.bump_freeblock] at hfree ⊢
      omega
    · exact hlt

/-- The extent of a file with `len` bytes. -/
structure Tight (e : Extent) (len : ℕ) : Prop where
  shaped : e.Shaped
  length : e.blocks.length = blocksOf len
  small : len ≤ MAXFILE * BSIZE

lemma Tight.length_used {len : ℕ} (h : Tight e len) : e.used.length = spent (blocksOf len) := by
  rw [h.shaped.length_used, h.length]

lemma blocksOf_mono {m n : ℕ} (h : m ≤ n) : blocksOf m ≤ blocksOf n :=
  Nat.div_le_div_right (by omega)

/-- Bytes that fit into the block of the next byte take no block but that one. -/
lemma blocksOf_add {len n : ℕ} (hn : 0 < n) (hfit : len % BSIZE + n ≤ BSIZE) :
    blocksOf (len + n) = max (blocksOf len) (len / BSIZE + 1) := by
  unfold blocksOf
  simp only [BSIZE] at hfit ⊢
  omega

/-- The two reasons for which a file of `old` bytes does not grow to `new` bytes. -/
def Failure.CannotGrow (err : Failure) (freeblock old new : ℕ) : Prop :=
  err = .maxfile ∧ MAXFILE * BSIZE < new ∨
    err = .read ∧ FSSIZE + spent (blocksOf old) < freeblock + spent (blocksOf new)

/-- The file holds `p` behind what it held. -/
structure Appended (j : ℕ) (C : ℕ → List UInt8) (E : ℕ → Extent) (D : ℕ → Dinode)
    (bytes p : List UInt8) (d : Dinode) (s : State) (e' : Extent) (d' : Dinode)
    (s' : State) : Prop where
  opened : Opened j C E D (bytes ++ p) e' d' s'
  tight : Tight e' (bytes ++ p).length
  full : s'.freeblock ≤ FSSIZE
  head : d' = { d with addrs := d'.addrs }
  same : SameMeta s s'
  grown : s'.freeblock + spent (blocksOf bytes.length) =
    s.freeblock + spent (blocksOf (bytes ++ p).length)

lemma wp_appendLoop (p : List UInt8) (h : Opened j C E D bytes e d s)
    (htight : Tight e bytes.length) (hfull : s.freeblock ≤ FSSIZE) :
    wp (appendLoop d bytes.length p)
      (fun r s' => r.2 = (bytes ++ p).length ∧ ∃ e', Appended j C E D bytes p d s e' r.1 s')
      (fun err _ => err.CannotGrow s.freeblock bytes.length (bytes ++ p).length) s := by
  induction hn : p.length using Nat.strong_induction_on generalizing p bytes e d s with
  | _ n ih =>
  rw [appendLoop]
  split_ifs with hp
  · subst hp
    rw [wp_pure, append_nil]
    exact ⟨rfl, e, by rwa [append_nil], by rwa [append_nil], hfull, rfl, .refl s,
      by rw [append_nil]⟩
  have hpos := length_pos_of_ne_nil hp
  have htotal : (bytes ++ p).length = bytes.length + p.length := length_append
  have hn₁ := min_room_pos bytes.length hpos
  have hle : bytes.length / BSIZE ≤ e.blocks.length := by
    rw [htight.length]
    exact Nat.div_le_div_right (by unfold BSIZE; omega)
  dsimp only
  generalize hn1 : min p.length ((bytes.length / BSIZE + 1) * BSIZE - bytes.length) = n1 at hn₁ ⊢
  have hchunk : (p.take n1).length = n1 := by
    rw [length_take]
    omega
  have hfit : bytes.length % BSIZE + n1 ≤ BSIZE := by
    unfold BSIZE at hn1 ⊢
    omega
  have hoff : bytes.length - bytes.length / BSIZE * BSIZE = bytes.length % BSIZE := by
    rw [Nat.mul_comm, ← Nat.mod_eq_sub_mul_div]
  have hgrow := blocksOf_add hn₁ hfit
  have hmono : spent (blocksOf (bytes.length + n1)) ≤ spent (blocksOf (bytes ++ p).length) :=
    spent_mono (blocksOf_mono (by omega))
  rw [wp_bind, wp_stopIf]
  refine ⟨fun hmax => .inl ⟨rfl, ?_⟩, fun hmax => ?_⟩
  · have := (Nat.le_div_iff_mul_le (by decide : 0 < BSIZE)).mp hmax
    omega
  have hsmall : bytes.length + n1 ≤ MAXFILE * BSIZE := by
    have hdiv := Nat.div_add_mod bytes.length BSIZE
    have hle := Nat.mul_le_mul_right BSIZE (Nat.lt_of_not_le hmax)
    rw [Nat.mul_comm] at hdiv
    rw [Nat.succ_mul] at hle
    omega
  rw [wp_bind]
  refine wp_mono (wp_mapBlock h htight.shaped hfull hle (Nat.lt_of_not_le hmax)) ?_ ?_
  · rintro ⟨d₁, x⟩ s₁ ⟨e₁, b, hmap, rfl, hd₁⟩
    have hb := hmap.opened.range (Extent.mem_used_of_block hmap.block)
    have hgrown := hmap.grown
    have hlength : e₁.blocks.length = blocksOf (bytes.length + n1) := by
      rw [hmap.length, htight.length, hgrow]
    rw [htight.length_used, hmap.shaped.length_used, hlength] at hgrown
    rw [wp_bind, wp_rsect, sector_ofNat hmap.le, Table.sectors hmap.opened]
    refine ⟨fun hlow => .inr ⟨rfl, by omega⟩, fun hlow => ?_⟩
    have hlt := Nat.lt_of_not_le hlow
    rw [wp_bind, wp_wsect, sector_ofNat hmap.le, hoff]
    have hopened := hmap.opened.splice hmap.block hlt (by rwa [hchunk])
    have hlen : (bytes ++ p.take n1).length = bytes.length + n1 := by
      rw [length_append, hchunk]
    have hall : bytes ++ p.take n1 ++ p.drop n1 = bytes ++ p := by
      rw [append_assoc, take_append_drop]
    have hrec := ih (p.drop n1).length (by rw [length_drop]; omega) (p.drop n1) hopened
      ⟨hmap.shaped, by rw [hlen, hlength], by rwa [hlen]⟩ (hmap.full hlt) rfl
    rw [hlen, hall] at hrec
    refine wp_mono hrec ?_ ?_
    · rintro ⟨d₂, off⟩ s₂ ⟨hoff₂, e₂, happ⟩
      refine ⟨hoff₂, e₂, ?_⟩
      have hgrown₂ := happ.grown
      rw [hlen, hall, State.write_freeblock] at hgrown₂
      exact ⟨hall ▸ happ.opened, hall ▸ happ.tight, happ.full, by rw [happ.head, hd₁],
        (hmap.same.trans (.write _ _ hb.1)).trans happ.same, by omega⟩
    rintro err _ (⟨herr, hstop⟩ | ⟨herr, hstop⟩)
    · exact .inl ⟨herr, hstop⟩
    refine .inr ⟨herr, ?_⟩
    rw [State.write_freeblock] at hstop
    omega
  rintro err _ ⟨herr, hroom⟩
  unfold NoRoom at hroom
  rw [htight.length, ← hgrow] at hroom
  exact .inr ⟨herr, by omega⟩

end Opened
end Xv6.Mkfs
