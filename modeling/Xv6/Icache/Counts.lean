import Xv6.Icache.Balance
import Xv6.Lib.Tally

/-!
# Reference counts of the inode cache

Between complete system calls, the reference count of an entry of the inode cache is
the number of working directories and open files that point to it, and no two entries
in use are for the same inode. The latter holds at every moment of a call.

## Implementation notes

`Counts strict p e s` says that the books `e` of process `p` agree with the state. If
it is not strict, only the reference counts have to agree, so what `namex` does to
them can be said in any state.
-/

namespace Xv6.Icache
open Fs Lib File Function Exec

/-- The file is open for the inode. -/
def Holds (t : Ptr) (x : OpenFile Ptr) : Prop := 0 < x.ref ∧ x.type = .inode ∧ x.ip = t

instance (t : Ptr) : DecidablePred (Holds t) := fun _ => inferInstanceAs (Decidable (_ ∧ _ ∧ _))

/-- The working directories and open files that point to an entry. -/
def State.pointers (s : State) (t : Ptr) : ℕ :=
  tally Finset.univ (fun o => if o = some t then 1 else 0) s.cwd +
    tally Finset.univ (fun x => if Holds t x then 1 else 0) s.file

/-- No two entries in use are for the same inode. -/
def State.Single (s : State) : Prop :=
  ∀ t t', 0 < (s.inode t).ref → 0 < (s.inode t').ref → (s.inode t).dev = (s.inode t').dev →
    (s.inode t).inum = (s.inode t').inum → t = t'

/-- What holds between system calls. -/
structure State.Counted (s : State) : Prop where
  single : s.Single
  ref : ∀ t, (s.inode t).ref = s.pointers t
  bare : ∀ f, (s.file f).ref = 0 → (s.file f).type ≠ .inode
  idle : ∀ p, s.state p ≠ .runnable → s.cwd p = none

/-- The books of a call agree with the pointers. -/
structure Fits (p : Pid) (e : Books) (s : State) : Prop where
  single : s.Single
  pins : ∀ t, e.pins t = s.pointers t
  cwd : e.cwd = s.cwd p
  fresh : ∀ f, e.fresh = some f → 0 < (s.file f).ref ∧ (s.file f).type ≠ .inode
  bare : ∀ f, (s.file f).ref = 0 → (s.file f).type ≠ .inode
  idle : ∀ q, s.state q ≠ .runnable → s.cwd q = none
  running : s.state p = .runnable

/-- The books of a call agree with the state. -/
structure Counts (strict : Prop) (p : Pid) (e : Books) (s : State) : Prop where
  ref : ∀ t, e.ref t = (s.inode t).ref
  fits : strict → Fits p e s

/-! ### Pointers -/

section Pointers
variable {s : State} {t : Ptr}

lemma pointers_setCwd (p : Pid) (o : Option Ptr) :
    (s.setCwd p o).pointers t + (if s.cwd p = some t then 1 else 0) =
      s.pointers t + (if o = some t then 1 else 0) := by
  have hrow := tally_update (w := fun o => if o = some t then 1 else 0) (f := s.cwd) (x := o)
    (Finset.mem_univ p)
  simp only [State.pointers, State.setCwd_cwd, State.setCwd_file]
  omega

lemma pointers_setFile (f : Fin NFILE) (x : OpenFile Ptr) :
    (s.setFile f x).pointers t + (if Holds t (s.file f) then 1 else 0) =
      s.pointers t + (if Holds t x then 1 else 0) := by
  have hrow := tally_update (w := fun x => if Holds t x then 1 else 0) (f := s.file) (x := x)
    (Finset.mem_univ f)
  simp only [State.pointers, State.setFile_cwd, State.setFile_file]
  omega

lemma pointers_setFile_of_iff {f : Fin NFILE} {x : OpenFile Ptr}
    (h : Holds t x ↔ Holds t (s.file f)) : (s.setFile f x).pointers t = s.pointers t := by
  have hrow := pointers_setFile (s := s) (t := t) f x
  rw [if_congr h rfl rfl] at hrow
  omega

lemma pointers_pos_of_cwd {p : Pid} (h : s.cwd p = some t) : 0 < s.pointers t :=
  Nat.add_pos_left (tally_ite_pos_iff.mpr ⟨p, Finset.mem_univ p, h⟩) _

lemma pointers_pos_of_holds {f : Fin NFILE} (h : Holds t (s.file f)) : 0 < s.pointers t :=
  Nat.add_pos_right _ (tally_ite_pos_iff.mpr ⟨f, Finset.mem_univ f, h⟩)

end Pointers

/-! ### Looking for an entry -/

section Loop
variable {inode : Ptr → Inode} {dev : ℕ} {inum : Inum} {ts : List Ptr} {o : Option Ptr} {t : Ptr}

lemma is_of_igetLoop_inl (h : igetLoop inode dev inum ts o = some (.inl t)) :
    (inode t).Is dev inum := by
  induction ts generalizing o with
  | nil => cases o <;> simp [igetLoop] at h
  | cons u ts ih =>
    rw [igetLoop] at h
    split at h
    next hu =>
      cases h
      exact hu
    next => exact ih h

section
variable (h : igetLoop inode dev inum ts o = some (.inr t))
include h

lemma ref_of_igetLoop_inr (ho : ∀ u, o = some u → (inode u).ref = 0) : (inode t).ref = 0 := by
  induction ts generalizing o with
  | nil =>
    rcases o with _ | u
    · cases h
    cases h
    exact ho t rfl
  | cons u ts ih =>
    rw [igetLoop] at h
    split at h
    next => cases h
    next =>
      refine ih h fun v hv => ?_
      split at hv
      next hfree =>
        cases hv
        exact hfree.2
      next => exact ho v hv

lemma not_is_of_igetLoop_inr : ∀ u ∈ ts, ¬ (inode u).Is dev inum := by
  induction ts generalizing o with
  | nil => exact fun _ hu => nomatch hu
  | cons u ts ih =>
    rw [igetLoop] at h
    split at h
    next => cases h
    next hu =>
      intro v hv
      rcases List.mem_cons.mp hv with rfl | hv
      · exact hu
      · exact ih h v hv

end

/-- The first entry is taken if none is in use. -/
lemma igetLoop_unused (h : ∀ u, (inode u).ref = 0) {us : List Ptr} (hts : ts = t :: us) :
    igetLoop inode dev inum ts none = some (.inr t) := by
  have hnot (u : Ptr) : ¬ (inode u).Is dev inum := fun hu => hu.1.ne' (h u)
  have hrest : igetLoop inode dev inum us (some t) = some (.inr t) := by
    clear hts
    induction us with
    | nil => rfl
    | cons u us ih => simpa [igetLoop, hnot u] using ih
  rw [hts, igetLoop, if_neg (hnot t), if_pos ⟨rfl, h t⟩, hrest]

end Loop

/-! ### Operations -/

/-- Nothing that the books are about is different. -/
structure Same (s s' : State) : Prop where
  dev : ∀ t, (s'.inode t).dev = (s.inode t).dev
  inum : ∀ t, (s'.inode t).inum = (s.inode t).inum
  ref : ∀ t, (s'.inode t).ref = (s.inode t).ref
  file : s'.file = s.file
  cwd : s'.cwd = s.cwd
  state : s'.state = s.state

section Steps
variable {strict : Prop} {p : Pid} {e : Books} {s s' : State} {t : Ptr} {o : FsOp Ptr}

lemma Same.refl (s : State) : Same s s := by constructor <;> intros <;> rfl

variable {x : Inode} {f : Fin NFILE} {S : Stop → State → Prop} {R : Ptr → Books → Prop}

lemma Same.setInode (hdev : x.dev = (s.inode t).dev) (hinum : x.inum = (s.inode t).inum)
    (href : x.ref = (s.inode t).ref) : Same s (s.setInode t x) := by
  constructor
  case dev => exact fun u => by by_cases hu : u = t <;> simp [hu, hdev]
  case inum => exact fun u => by by_cases hu : u = t <;> simp [hu, hinum]
  case ref => exact fun u => by by_cases hu : u = t <;> simp [hu, href]
  all_goals rfl

lemma State.Single.of_le (h : s.Single) (hdev : ∀ t, (s'.inode t).dev = (s.inode t).dev)
    (hinum : ∀ t, (s'.inode t).inum = (s.inode t).inum)
    (href : ∀ t, 0 < (s'.inode t).ref → 0 < (s.inode t).ref) : s'.Single := by
  intro t t' ht ht' hd hi
  rw [hdev, hdev] at hd
  rw [hinum, hinum] at hi
  exact h t t' (href t ht) (href t' ht') hd hi

lemma Same.pointers (h : Same s s') (t : Ptr) : s'.pointers t = s.pointers t := by
  rw [State.pointers, State.pointers, h.cwd, h.file]

lemma Same.counts (h : Same s s') (hc : Counts strict p e s) : Counts strict p e s' where
  ref t := (hc.ref t).trans (h.ref t).symm
  fits hstrict := by
    have hfits := hc.fits hstrict
    constructor
    case single => exact hfits.single.of_le h.dev h.inum fun t ht => h.ref t ▸ ht
    case pins => exact fun t => (hfits.pins t).trans (h.pointers t).symm
    case cwd => rw [h.cwd]; exact hfits.cwd
    case fresh => rw [h.file]; exact hfits.fresh
    case bare => rw [h.file]; exact hfits.bare
    case idle => rw [h.state, h.cwd]; exact hfits.idle
    case running => rw [h.state]; exact hfits.running

lemma wp_load : wp (load t) (fun _ => Same s) (fun _ => Same s) s := by
  rw [load, wp_bind, wp_get]
  split
  · exact Same.refl s
  rw [wp_bind, modifyInode, wp_modify, wp_stopIf]
  exact ⟨fun _ => Same.setInode rfl rfl rfl, fun _ => Same.setInode rfl rfl rfl⟩

lemma wp_ialloc {type : FileType} : wp (ialloc type) (fun _ => Same s) (fun _ => Same s) s := by
  rw [ialloc, wp_bind, wp_get]
  split
  · exact Same.refl s
  rw [wp_bind, wp_modify, wp_pure]
  constructor <;> intros <;> rfl

lemma wp_dirwrite {name : Name} {inum : Inum} :
    wp (dirwrite t name inum) (fun _ => Same s) (fun _ => Same s) s := by
  rw [dirwrite, wp_bind, wp_get]
  dsimp only
  split
  · rw [wp_modify]
    constructor <;> intros <;> rfl
  rw [wp_bind, wp_stopIf]
  refine ⟨fun _ => Same.refl s, fun _ => ?_⟩
  rw [wp_bind, wp_stopIf]
  refine ⟨fun _ => Same.refl s, fun _ => ?_⟩
  rw [wp_modify]
  constructor <;> intros <;> rfl

lemma wp_fdalloc : wp (fdalloc p f) (fun _ => Same s) S s := by
  rw [fdalloc, wp_bind, wp_get]
  split
  · exact Same.refl s
  rw [wp_bind, wp_modify, wp_pure]
  constructor <;> intros <;> rfl

lemma wp_argfd {fd : ℤ} : wp (argfd p fd) (fun _ => Same s) S s := by
  rw [argfd, wp_bind, wp_get]
  split <;> exact Same.refl s

lemma wp_cacheOp_quiet (ho : Quiet o) :
    wp (cacheOp p o) (fun _ => Same s) (fun _ => Same s) s := by
  have hdisk {s' : State} (hinode : s'.inode = s.inode) (hfile : s'.file = s.file)
      (hcwd : s'.cwd = s.cwd) (hstate : s'.state = s.state) : Same s s' :=
    ⟨fun t => by rw [hinode], fun t => by rw [hinode], fun t => by rw [hinode], hfile, hcwd, hstate⟩
  cases o
  case iget => exact ho.elim
  case idup => exact ho.elim
  case decref => exact ho.elim
  case cwd => exact ho.elim
  case setCwd => exact ho.elim
  case filealloc => exact ho.elim
  case setFile => exact ho.elim
  case fileDrop => exact ho.elim
  case acquire t =>
    rw [cacheOp, wp_bind, wp_get, wp_bind, wp_stopIf]
    exact ⟨fun _ => Same.refl s, fun _ => Same.setInode rfl rfl rfl⟩
  case release => exact Same.setInode rfl rfl rfl
  case setMeta => exact Same.setInode rfl rfl rfl
  case invalidate => exact Same.setInode rfl rfl rfl
  case load => exact wp_load
  case ialloc => exact wp_ialloc
  case dirwrite => exact wp_dirwrite
  case fdalloc => exact wp_fdalloc
  case argfd => exact wp_argfd
  all_goals exact hdisk rfl rfl rfl rfl

lemma Fits.setCwd (h : Fits p e s) (o : Option Ptr) : Fits p (e.setCwd o) (s.setCwd p o) := by
  constructor
  case single => exact h.single
  case pins =>
    intro t
    have hrow := pointers_setCwd (s := s) (t := t) p o
    rw [Books.setCwd_apply, h.pins, h.cwd]
    by_cases hcwd : s.cwd p = some t
    · have hpos := pointers_pos_of_cwd hcwd
      rw [if_pos hcwd] at hrow ⊢
      omega
    · rw [if_neg hcwd] at hrow ⊢
      omega
  case cwd => simp [Books.setCwd]
  case fresh =>
    rw [Books.setCwd_fresh]
    exact h.fresh
  case bare => exact h.bare
  case idle =>
    intro q hq
    have hqp : q ≠ p := by
      rintro rfl
      exact hq h.running
    simpa [hqp] using h.idle q hq
  case running => exact h.running

lemma State.Single.take (h : s.Single) {dev : ℕ} {inum : Inum}
    (hnew : ∀ u, ¬ (s.inode u).Is dev inum) (hdev : x.dev = dev) (hinum : x.inum = inum) :
    (s.setInode t x).Single := by
  intro u u' hu hu' hdev' hinum'
  by_cases hut : u = t <;> by_cases hut' : u' = t
  · rw [hut, hut']
  · subst hut
    simp only [State.setInode_inode, update_self, update_of_ne hut'] at *
    exact (hnew u' ⟨hu', by rw [← hdev', hdev], by rw [← hinum', hinum]⟩).elim
  · subst hut'
    simp only [State.setInode_inode, update_self, update_of_ne hut] at *
    exact (hnew u ⟨hu, by rw [hdev', hdev], by rw [hinum', hinum]⟩).elim
  · simp only [State.setInode_inode, update_of_ne hut, update_of_ne hut'] at *
    exact h u u' hu hu' hdev' hinum'

lemma State.Single.setRef (h : s.Single) {r : ℕ} (hr : 0 < r → 0 < (s.inode t).ref) :
    (s.setInode t { s.inode t with ref := r }).Single := by
  refine h.of_le (fun u => ?_) (fun u => ?_) fun u hu => ?_
  all_goals by_cases hut : u = t
  all_goals simp_all

section
variable (hc : Counts strict p e s)
include hc

lemma Counts.setInode {r : ℕ} (hr : x.ref = r) (hs : strict → (s.setInode t x).Single) :
    Counts strict p { e with ref := update e.ref t r } (s.setInode t x) where
  ref u := by
    by_cases hu : u = t
    · simp [hu, hr]
    · simp [hu, hc.ref u]
  fits hstrict := { hc.fits hstrict with single := hs hstrict }

lemma Counts.setCwd (o : Option Ptr) : Counts strict p (e.setCwd o) (s.setCwd p o) where
  ref := by
    rw [Books.setCwd_ref]
    exact hc.ref
  fits hstrict := (hc.fits hstrict).setCwd o

/-- A file may change, if the books say what it held and what it holds. -/
lemma Counts.setFile {x : OpenFile Ptr} {e' : Books}
    (href : e'.ref = e.ref) (hcwd : e'.cwd = e.cwd)
    (hpins : Fits p e s → ∀ t, e'.pins t + (if Holds t (s.file f) then 1 else 0) =
      e.pins t + if Holds t x then 1 else 0)
    (hfresh : Fits p e s → ∀ g, e'.fresh = some g → g = f ∧ 0 < x.ref ∧ x.type ≠ .inode)
    (hbare : Fits p e s → x.ref = 0 → x.type ≠ .inode) : Counts strict p e' (s.setFile f x) where
  ref := by
    rw [href]
    exact hc.ref
  fits hstrict := by
    have h := hc.fits hstrict
    constructor
    case single => exact h.single
    case pins =>
      intro t
      have hrow := pointers_setFile (s := s) (t := t) f x
      have hpin := hpins h t
      rw [h.pins] at hpin
      omega
    case cwd => exact hcwd.trans h.cwd
    case fresh =>
      intro g hg
      obtain ⟨rfl, hx⟩ := hfresh h g hg
      simpa using hx
    case bare =>
      intro g
      by_cases hg : g = f
      · subst hg
        simpa using hbare h
      · simpa [hg] using h.bare g
    case idle => exact h.idle
    case running => exact h.running

end

/-- What an operation has to leave behind. -/
abbrev Leaves (strict : Prop) (p : Pid) (o : FsOp Ptr) (R : o.Res → Books → Prop) (s : State) :
    Prop :=
  wp (cacheOp p o) (fun r s' => ∃ e', R r e' ∧ Counts strict p e' s')
    (fun _ s' => ∃ e', Counts strict p e' s') s

section
variable (hc : Counts strict p e s)
include hc

lemma leaves_iget {dev : ℕ} {inum : Inum} {R : Ptr → Books → Prop}
    (hR : ∀ t, R t (e.addRef t)) : Leaves strict p (.iget dev inum) R s := by
  rw [Leaves, cacheOp, iget, wp_bind, wp_get]
  split
  next t hfound =>
    have hin := is_of_igetLoop_inl hfound
    refine ⟨e.addRef t, hR t, hc.setInode ?_ fun hstrict => ?_⟩
    · rw [hc.ref]
    · exact (hc.fits hstrict).single.setRef fun _ => hin.1
  next => exact ⟨e, hc⟩
  next t hempty =>
    refine ⟨e.addRef t, hR t, hc.setInode ?_ fun hstrict => ?_⟩
    · rw [hc.ref, ref_of_igetLoop_inr hempty nofun]
    · refine (hc.fits hstrict).single.take (fun u => ?_) rfl rfl
      exact not_is_of_igetLoop_inr hempty u (List.mem_finRange u)

lemma leaves_cwd (hR : ∀ t, (strict → e.cwd = some t ∧ 0 < e.pins t) → R t e) :
    Leaves strict p .cwd R s := by
  rw [Leaves, cacheOp, getCwd, wp_bind, wp_get]
  split
  next t hcwd =>
    refine ⟨e, hR t fun hstrict => ?_, hc⟩
    have h := hc.fits hstrict
    refine ⟨h.cwd.trans hcwd, ?_⟩
    rw [h.pins]
    exact pointers_pos_of_cwd hcwd
  next => exact ⟨e, hc⟩

lemma leaves_filealloc {R : Option (Fin NFILE) → Books → Prop}
    (hnone : R none e) (hsome : ∀ f, R (some f) (e.setFresh (some f))) :
    Leaves strict p .filealloc R s := by
  rw [Leaves, cacheOp, filealloc, wp_bind, wp_get]
  split
  next => exact ⟨e, hnone, hc⟩
  next f hf =>
    have href : (s.file f).ref = 0 := by simpa using List.find?_some hf
    refine ⟨_, hsome f, hc.setFile rfl rfl (fun h t => ?_) (fun h g hg => ?_) fun _ => nofun⟩
    · have hbare := h.bare f href
      simp [Holds, href, hbare]
    · cases hg
      exact ⟨rfl, Nat.one_pos, h.bare f href⟩

lemma leaves_setFile {omode : UInt32} {R : Unit → Books → Prop}
    (hf : e.fresh = some f) (hR : R () ((e.setFresh none).addPin t)) :
    Leaves strict p (.setFile f t omode) R s := by
  refine ⟨_, hR, hc.setFile rfl rfl (fun h u => ?_) (fun _ _ => nofun) fun h href => ?_⟩
  · obtain ⟨href, htype⟩ := h.fresh f hf
    rw [Books.addPin_apply]
    simp [Holds, href, htype]
  · exact ((h.fresh f hf).1.ne' href).elim

lemma leaves_fileDrop {f : Fin NFILE}
    {R : Option (OpenFile Ptr) → Books → Prop} (hnone : R none (e.setFresh none))
    (hsome : ∀ x : OpenFile Ptr, (strict → x.type = .inode → e.fresh ≠ some f ∧ 0 < e.pins x.ip) →
      R (some x) (if x.type = .inode then (e.setFresh none).dropPin x.ip else e.setFresh none)) :
    Leaves strict p (.fileDrop f) R s := by
  rw [Leaves, cacheOp, fileDrop, wp_bind, wp_get, wp_bind, wp_stopIf]
  refine ⟨fun _ => ⟨e, hc⟩, fun hopen => ?_⟩
  have hpos : 0 < (s.file f).ref := by omega
  split
  next hmany =>
    have hpos' : 0 < (s.file f).ref - 1 := by omega
    refine ⟨_, hnone, hc.setFile rfl rfl (fun h t => ?_) (fun _ _ => nofun) fun h hzero => ?_⟩
    · simp [Holds, hpos, hpos']
    · exact (hpos'.ne' hzero).elim
  next hlast =>
    have hheld : Fits p e s → (s.file f).type = .inode →
        e.fresh ≠ some f ∧ 0 < e.pins (s.file f).ip := by
      intro h htype
      refine ⟨fun hfresh => (h.fresh f hfresh).2 htype, ?_⟩
      rw [h.pins]
      exact pointers_pos_of_holds ⟨hpos, htype, rfl⟩
    refine ⟨_, hsome _ fun hstrict => hheld (hc.fits hstrict), ?_⟩
    split
    next htype =>
      refine hc.setFile rfl rfl (fun h t => ?_) (fun _ _ => nofun) fun _ _ => nofun
      have hpin := (hheld h htype).2
      rw [Books.dropPin_apply]
      by_cases ht : (s.file f).ip = t
      · subst ht
        simp [Holds, hpos, htype, Nat.sub_add_cancel hpin]
      · simp [Holds, ht]
    next htype =>
      refine hc.setFile rfl rfl (fun h t => ?_) (fun _ _ => nofun) fun _ _ => nofun
      simp [Holds, htype]

end

lemma leaves_of_terms (o : FsOp Ptr) (e : Books) (s : State) (R : o.Res → Books → Prop)
    (hc : Counts strict p e s) (hR : terms strict o e R) : Leaves strict p o R s := by
  have hquiet (ho : Quiet o) (hR : ∀ r, R r e) : Leaves strict p o R s :=
    wp_mono (wp_cacheOp_quiet ho) (fun r s' hsame => ⟨e, hR r, hsame.counts hc⟩)
      fun _ s' hsame => ⟨e, hsame.counts hc⟩
  cases o
  case iget => exact leaves_iget hc hR
  case idup t =>
    refine ⟨_, hR.2, hc.setInode ?_ fun hstrict => ?_⟩
    · rw [hc.ref]
    refine (hc.fits hstrict).single.setRef fun _ => ?_
    rw [← hc.ref]
    exact hR.1 hstrict
  case decref t =>
    refine ⟨_, hR.2, hc.setInode ?_ fun hstrict => ?_⟩
    · rw [hc.ref]
    refine (hc.fits hstrict).single.setRef fun _ => ?_
    rw [← hc.ref]
    exact hR.1
  case cwd => exact leaves_cwd hc hR
  case setCwd o => exact ⟨_, hR, hc.setCwd o⟩
  case filealloc => exact leaves_filealloc hc hR.1 hR.2
  case setFile => exact leaves_setFile hc hR.1 hR.2
  case fileDrop => exact leaves_fileDrop hc hR.1 hR.2
  all_goals exact hquiet trivial hR

end Steps

/-! ### Calls -/

section Calls
variable {p : Pid} {s : State}

/-- The books of a process between calls. -/
def State.books (s : State) (p : Pid) : Books where
  ref t := (s.inode t).ref
  pins := s.pointers
  cwd := s.cwd p
  fresh := none

lemma State.Counted.balanced (h : s.Counted) : (s.books p).Balanced := funext h.ref

lemma State.Counted.counts (h : s.Counted) (hp : s.state p = .runnable) :
    Counts True p (s.books p) s where
  ref _ := rfl
  fits _ :=
    { single := h.single
      pins := fun _ => rfl
      cwd := rfl
      fresh := fun _ => nofun
      bare := h.bare
      idle := h.idle
      running := hp }

variable {e : Books}

lemma Counts.single (h : Counts True p e s) : s.Single := (h.fits trivial).single

lemma Counts.counted (h : Counts True p e s) (he : e.Balanced) : s.Counted where
  single := h.single
  ref t := by rw [← h.ref, ← (h.fits trivial).pins, he]
  bare := (h.fits trivial).bare
  idle := (h.fits trivial).idle

lemma wp_run_of_keeps {α : Type} {strict : Prop} {x : CallOn Ptr α}
    {Q : α → Books → Prop} (hx : Keeps strict Q x e) (hc : Counts strict p e s) :
    wp (x.run (cacheOp p)) (fun a s' => ∃ e', Q a e' ∧ Counts strict p e' s')
      (fun _ s' => ∃ e', Counts strict p e' s') s :=
  Prog.Obeys.run leaves_of_terms hx hc

/-- The calls that only use the operations. -/
def Request.program : Request → Option (CallOn Ptr ℤ)
  | .file r => some r.code
  | .exec dirs (some path) loads fits => some (File.exec dirs path loads fits)
  | _ => none

/-- No two entries in use are for the same inode after the first steps of any call, however
many. -/
def State.StaysSingle (s : State) : Prop :=
  ∀ p r x n, s.state p = .runnable → Request.program r = some x →
    wp ((x.cut n).run (cacheOp p)) (fun _ => State.Single) (fun _ => State.Single) s

section
variable (h : s.Counted)
include h

lemma State.Counted.staysSingle : s.StaysSingle := by
  intro p r x n hp hx
  have hkeeps : ∃ Q, Keeps True Q x (s.books p) := by
    cases r with
    | file r =>
      cases hx
      exact ⟨_, Request.code_keeps r h.balanced⟩
    | exec dirs path loads fits =>
      rcases path with _ | path
      · cases hx
      cases hx
      exact ⟨fun _ _ => True, exec_keeps h.balanced.covered fun _ => trivial⟩
    | fork memory => cases hx
    | reap q => cases hx
  obtain ⟨Q, hQ⟩ := hkeeps
  refine wp_mono (wp_run_of_keeps (hQ.cut terms_mono n) (h.counts hp)) ?_ ?_
  · rintro _ s' ⟨e', -, hc⟩
    exact hc.single
  · rintro _ s' ⟨e', hc⟩
    exact hc.single

lemma State.Counted.setState {q : Pid} {st : Process.ProcState}
    (hq : st ≠ .runnable → s.cwd q = none) : (s.setState q st).Counted where
  single := h.single
  ref := h.ref
  bare := h.bare
  idle q' hq' := by
    by_cases heq : q' = q
    · subst heq
      exact hq (by simpa using hq')
    · exact h.idle q' (by simpa [heq] using hq')

lemma State.Counted.setFile {f : Fin NFILE} {x : OpenFile Ptr}
    (hx : ∀ t, Holds t x ↔ Holds t (s.file f)) (hopen : 0 < x.ref) : (s.setFile f x).Counted where
  single := h.single
  ref t := (h.ref t).trans (pointers_setFile_of_iff (hx t)).symm
  bare g := by
    by_cases hg : g = f
    · subst hg
      intro hzero
      simp [hopen.ne'] at hzero
    · simpa [hg] using h.bare g
  idle := h.idle

variable {np : Pid}

lemma wp_copyFd {fd : Fin NOFILE} :
    wp (copyFd p np fd) (fun _ s' => s'.Counted ∧ s'.cwd = s.cwd) (fun _ => State.Single) s := by
  rw [copyFd, wp_bind, wp_get]
  split
  next => exact ⟨h, rfl⟩
  next f hf =>
    rw [wp_bind, filedup, wp_bind, wp_get, wp_bind, wp_stopIf]
    refine ⟨fun _ => h.single, fun hopen => ?_⟩
    have hpos : 0 < (s.file f).ref := by omega
    have hdup : (s.setFile f { s.file f with ref := (s.file f).ref + 1 }).Counted :=
      h.setFile (fun t => by simp [Holds, hpos]) (Nat.succ_pos _)
    exact ⟨⟨hdup.single, hdup.ref, hdup.bare, hdup.idle⟩, rfl⟩

lemma wp_copyFds {fds : List (Fin NOFILE)} :
    wp (Exec.each (copyFd p np) fds) (fun _ s' => s'.Counted ∧ s'.cwd = s.cwd)
      (fun _ => State.Single) s := by
  refine wp_each _ (fun _ (s' : State) => s'.Counted ∧ s'.cwd = s.cwd) fds ?_ ⟨h, rfl⟩
  rintro done fd rest - s' ⟨h', hcwd⟩
  refine wp_post (wp_copyFd h') ?_
  rintro _ s'' ⟨h'', hcwd'⟩
  exact ⟨h'', hcwd'.trans hcwd⟩

/-- A child that starts in the working directory of its parent is a pointer and a reference
more. -/
lemma State.Counted.addChild {t : Ptr} (hp : s.cwd p = some t)
    (hnp : s.cwd np = none) :
    (((s.setInode t { s.inode t with ref := (s.inode t).ref + 1 }).setCwd np (some t)).setState np
      .runnable).Counted := by
  constructor
  case single =>
    refine h.single.setRef fun _ => ?_
    rw [h.ref]
    exact pointers_pos_of_cwd hp
  case ref =>
    intro u
    have hrow : (s.setCwd np (some t)).pointers u = s.pointers u + if t = u then 1 else 0 := by
      simpa [hnp] using pointers_setCwd (s := s) (t := u) np (some t)
    refine Eq.trans ?_ hrow.symm
    by_cases hu : t = u
    · subst hu
      simp [h.ref]
    · simp [hu, Ne.symm hu, h.ref]
  case bare => exact h.bare
  case idle =>
    intro q hq
    by_cases hqnp : q = np
    · simp [hqnp] at hq
    · simpa [hqnp] using h.idle q (by simpa [hqnp] using hq)

lemma wp_fork {memory : Bool} :
    wp (fork p memory) (fun _ => State.Counted) (fun _ => State.Single) s := by
  rw [fork, wp_bind, wp_get]
  split
  next => exact h
  next np hnp =>
    have hunused : s.state np = .unused := by simpa using List.find?_some hnp
    have hcwd : s.cwd np = none := h.idle np (by simp [hunused])
    rw [wp_bind, wp_modify]
    have hembryo : (s.setState np .embryo).Counted := h.setState fun _ => hcwd
    split
    · refine wp_seq (wp_copyFds hembryo) ?_
      rintro _ s' ⟨h', hcwd'⟩
      rw [wp_bind, getCwd, wp_bind, wp_get]
      split
      next t ht => exact h'.addChild ht ((congrFun hcwd' np).trans hcwd)
      next => exact h'.single
    · exact hembryo.setState fun _ => hcwd

lemma wp_serve {r : Request} (hp : s.state p = .runnable) :
    wp (serve p r) (fun _ => State.Counted) (fun _ => State.Single) s := by
  cases r with
  | file r =>
    rw [serve, wp_bind]
    refine wp_mono (wp_run_of_keeps (Request.code_keeps r h.balanced) (h.counts hp)) ?_ ?_
    · rintro _ s' ⟨e', ⟨he', hexit⟩, hc⟩
      have h' := hc.counted he'
      cases r
      case exit => exact h'.setState fun _ => (hc.fits trivial).cwd.symm.trans (hexit rfl)
      all_goals exact h'
    · rintro _ s' ⟨e', hc⟩
      exact hc.single
  | exec dirs path loads fits =>
    rcases path with _ | path
    · exact h
    have hkeeps : Keeps True (fun _ e' => e'.Balanced) (File.exec dirs path loads fits)
        (s.books p) := exec_keeps h.balanced.covered fun _ => h.balanced
    rw [serve, wp_bind]
    refine wp_mono (wp_run_of_keeps hkeeps (h.counts hp)) ?_ ?_
    · rintro _ s' ⟨e', he', hc⟩
      exact hc.counted he'
    · rintro _ s' ⟨e', hc⟩
      exact hc.single
  | fork memory => exact wp_fork h
  | reap q =>
    rw [serve, wp_bind, wp_get]
    split
    next hzombie => exact h.setState fun _ => h.idle q (by simp [hzombie])
    next => exact h

end

lemma wp_syscall (c : Pid × Request) (h : s.Counted) :
    wp (syscall c) (fun _ => State.Counted) (fun _ => State.Single) s := by
  rw [syscall, wp_bind, wp_get]
  split
  next hp => exact wp_serve h hp
  next => exact h

end Calls

/-! ### Boot -/

section Boot

lemma blank_counted (ninodes nfree : ℕ) (node : Inum → Node) :
    (blank ninodes nfree node).Counted where
  single _ _ h := nomatch h
  ref t := by simp [blank, State.pointers, Holds, tally]
  bare _ _ := nofun
  idle _ _ := rfl

lemma wp_iget_unused {s : State} {dev : ℕ} {inum : Inum} {Q : Ptr → State → Prop}
    {S : Stop → State → Prop} (h : ∀ t, (s.inode t).ref = 0) (hQ : Q 0 (s.setInode 0
      { s.inode 0 with dev := dev, inum := inum, ref := 1, valid := false })) :
    wp (iget dev inum) Q S s := by
  have hfirst : igetLoop s.inode dev inum (List.finRange NINODE) none = some (.inr 0) :=
    igetLoop_unused h (List.finRange_succ (n := NINODE - 1))
  rwa [iget, wp_bind, wp_get, hfirst]

lemma pathElements_slash : pathElements [File.slash] = [] := by decide

/-- The first process starts in the root directory, for which the first entry is taken. -/
lemma userinit_counted (ninodes nfree : ℕ) (node : Inum → Node) :
    ∃ a s, userinit.run (cacheOp 0) (blank ninodes nfree node) = .ok a s ∧ s.Counted := by
  have h := blank_counted ninodes nfree node
  have hunused : ∀ t, ((blank ninodes nfree node).inode t).ref = 0 := fun _ => rfl
  have hnone : (blank ninodes nfree node).cwd 0 = none := rfl
  have hrunning : (blank ninodes nfree node).state 0 = .runnable := rfl
  generalize blank ninodes nfree node = s at *
  apply wp_exists
  rw [userinit, namei, namex, pathElements_slash, Prog.wp_bind, Prog.wp_bind, pathStart,
    if_pos (by decide), Prog.wp_perform]
  refine wp_iget_unused hunused ?_
  have hget : Counts True 0 ((s.books 0).addRef 0) (s.setInode 0
      { s.inode 0 with dev := ROOTDEV, inum := ROOTINO, ref := 1, valid := false }) := by
    refine (h.counts hrunning).setInode (by simp [State.books, hunused]) fun _ => ?_
    exact h.single.take (fun u hu => hu.1.ne' (hunused u)) rfl rfl
  exact (hget.setCwd (some 0)).counted (h.balanced.addRef_setCwd 0 hnone)

end Boot

/-- Whatever is on the disk, the kernel starts, and from then on, whatever calls are made:
the reference count of every entry is the number of pointers to it, no two entries in use are for
the same inode at any moment, and `namex` adds one reference to what it returns. -/
theorem references_counted (ninodes nfree : ℕ) (node : Inum → Node) :
    (∃ a s₀, userinit.run (cacheOp 0) (blank ninodes nfree node) = .ok a s₀ ∧
      ∀ calls, wp (Exec.each syscall calls)
        (fun _ s => (∀ t, (s.inode t).ref = s.pointers t) ∧ s.Single ∧ s.StaysSingle)
        (fun _ s => s.Single) s₀) ∧ ∀ (p : Pid) (path : Path) (parent : Bool) (s : State),
      wp ((namex path parent).run (cacheOp p)) (fun r s' => ∀ t, (s'.inode t).ref =
          (s.inode t).ref + if r.map Prod.fst = some t then 1 else 0)
        (fun _ _ => True) s := by
  constructor
  · obtain ⟨a, s₀, hboot, h⟩ := userinit_counted ninodes nfree node
    refine ⟨a, s₀, hboot, fun calls => ?_⟩
    refine wp_post (wp_each syscall (fun _ => State.Counted) calls ?_ h) ?_
    · exact fun _ c _ _ s' h' => wp_syscall c h'
    · exact fun _ s' h' => ⟨h'.ref, h'.single, h'.staysSingle⟩
  intro p path parent s
  have hkeeps : Keeps False (fun r e => e = (s.books p).addRefOf (r.map Prod.fst))
      (namex path parent) (s.books p) := namex_keeps False.elim fun r => rfl
  have hc : Counts False p (s.books p) s := ⟨fun _ => rfl, False.elim⟩
  refine wp_mono (wp_run_of_keeps hkeeps hc) ?_ fun _ _ _ => trivial
  rintro r s' ⟨e', rfl, hc'⟩ t
  rw [← hc'.ref]
  rcases r with _ | r
  · rfl
  simp only [Option.map_some, Option.some.injEq]
  exact Books.addRef_apply (s.books p) r.1 t

end Xv6.Icache
