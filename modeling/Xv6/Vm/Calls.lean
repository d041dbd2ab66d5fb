import Xv6.Vm.Plumbing

/-!
# The system calls keep the books

Each system call leaves every page in one place again, whichever calls of `kalloc`
fail on the way.
-/

namespace Xv6.Vm
open Lib Function Exec List
open Fs (NPROC NFILE NOFILE)

/-- The ways in which a system call may end the machine. Two of the panics come from a process
that has lost its pages to `sbrk(-sz)`. -/
def Stop.Possible (e : Stop) : Prop :=
  e = .copyuvmPte ∨ e = .copyuvmPresent ∨ e = .initExiting ∨ e = .null ∨ e = .fault

variable {P : Pool} {V : View} {cs : Cells} {k : Kernel} {p : Fin NPROC} {S S' : Space}

/-! ### `sbrk` -/

namespace Space.Fits

variable {lo hi sz sz' : ℕ}

/-- The pages above the new size are not there, as they were not or are cleared. -/
lemma changes (h : S.Fits sz) (hS : S.Changes (fun b => lo ≤ b ∧ b < hi) S')
    (hlt : sz' < KERNBASE) (hhi : hi ≤ KERNBASE)
    (hin : ∀ b, lo ≤ b → b < hi → pgRoundUp sz' ≤ b → (S'.pte b).p = false)
    (hout : ∀ b, pgRoundUp sz' ≤ b → ¬ (lo ≤ b ∧ b < hi) → pgRoundUp sz ≤ b) : S'.Fits sz' where
  sz_lt := hlt
  above b hb hb' := by
    by_cases hmem : lo ≤ b ∧ b < hi
    · exact hin b hmem.1 hmem.2 hb
    rw [hS.pte b (hb'.trans (by decide)) hmem]
    exact h.above b (hout b hb hmem) hb'
  shut := hS.shut h.shut fun b hb => hb.2.trans_le hhi

lemma grow (h : S.Fits sz) (hle : sz ≤ sz') (hlt : sz' < KERNBASE)
    (hS : S.Fills (pgRoundUp sz) (pgRoundUp sz') S') : S'.Fits sz' := by
  have hmono := pgRoundUp_mono hle hlt.le
  exact h.changes hS.toChanges hlt (pgRoundUp_spec hlt.le).2.2.2 (by omega) (by omega)

lemma shrink (h : S.Fits sz) (hle : sz' ≤ sz)
    (hS : S.Clears (pgRoundUp sz') (pgRoundUp sz) S') : S'.Fits sz' := by
  have hlt := h.sz_lt
  exact h.changes hS.toChanges (by omega) (pgRoundUp_spec hlt.le).2.2.2
    (fun b hlo hb _ => hS.sets b hlo hb) (by omega)

lemma clear (h : S.Fits sz) (hhi : hi ≤ KERNBASE) (hS : S.Clears lo hi S') : S'.Fits sz :=
  h.changes hS.toChanges h.sz_lt hhi (fun b hlo hb _ => hS.sets b hlo hb) fun _ hb _ => hb

end Space.Fits

variable {E : Stop → Kernel → Prop}

lemma sbrk_sound {arg : Option Int32} (h : k.Sound P) (hp : (k.proc p).state = .runnable) :
    wp (sysSbrk P.layout p arg) (fun _ k' => k'.Sound P) E k := by
  have hstate : (k.proc p).state ≠ .unused := by simp [hp]
  rcases arg with _ | n
  · exact h
  obtain ⟨V, hV⟩ := h.ledger
  obtain ⟨hkstack, hpgdir, hfits⟩ := hV.live p hstate
  have hsz := hfits.sz_lt
  -- the address space and the size may change
  have hdone : ∀ {k'} (sz' : ℕ) (S' : Space), k.Slot p ((k.proc p).resize sz') k' →
      S'.root = (V.space p).root → S'.Fits sz' →
      k'.mem.Owns P (S'.cells + ((k.proc p).stack + (V.rest k.proc p + 0))) →
      k'.Sound P := by
    intro k' sz' S' hslot hroot hfits' howns
    refine h.slot hslot ⟨_, hV.respace hstate hslot hstate rfl ?_ hfits' howns⟩ rfl ?_
    · rwa [hroot]
    · simp [hp]
  have hkeep : ∀ {m'} (S' : Space), S'.root = (V.space p).root → S'.Fits (k.proc p).sz →
      m'.Owns P (S'.cells + ((k.proc p).stack + (V.rest k.proc p + 0))) →
      (k.setMem m').Sound P := fun S' hroot hfits' howns =>
    hdone (k.proc p).sz S' (Kernel.Slot.refl.setMem _) hroot hfits' howns
  refine wp_sysSbrk (wp_growproc (hV.space hstate) hpgdir hkstack hsz hfits.above ?_ ?_ ?_ ?_ ?_ ?_)
  · intro sz' S' m' hpos hsz' hlt hS h'
    exact hdone sz' S' ((Kernel.Slot.refl.setMem _).setProc _) hS.root
      (hfits.grow (by omega) hlt hS) h'
  · intro sz' S' m' _ hlt hS h'
    exact hkeep S' hS.root (hfits.clear (pgRoundUp_spec hlt.le).2.2.2 hS) h'
  · intro sz' S' m' _ hsz' _ hS h'
    exact hdone sz' S' ((Kernel.Slot.refl.setMem _).setProc _) hS.root
      (hfits.shrink (by omega) hS) h'
  · intro S' m' _ _ hS h'
    exact hkeep S' hS.root (hfits.clear (pgRoundUp_spec hsz.le).2.2.2 hS) h'
  · intro _
    exact hdone _ (V.space p) (Kernel.Slot.refl.setProc _) rfl hfits (hV.space hstate)
  · intro _ _
    exact h

/-! ### `exec` -/

/-- The process with another address space. -/
@[simps]
def Proc.reload (x : Proc) (pgdir sz : ℕ) : Proc := { x with pgdir := some pgdir, sz := sz }

lemma add_exchange (a b c d e : Cells) : a + (b + c + d + e) = c + (a + (b + (d + e))) := by
  ac_rfl

lemma commit_sound {sz : ℕ} {m : Memory} (h : k.Sound P)
    (hV : k.Ledger P V 0) (hp : (k.proc p).state = .runnable) (hS : S.Fits sz)
    (howns : m.Owns P (S.cells + (V.cells k.proc + 0))) : wp (do
      let x ← getProc p
      modifyProc p fun y => { y with pgdir := some S.root, sz := sz }
      switchuvm p
      onMem (freevm P.layout x.pgdir)
      return (0 : Int32)) (fun _ k' => k'.Sound P) E (k.setMem m) := by
  have hstate : (k.proc p).state ≠ .unused := by simp [hp]
  obtain ⟨hkstack, hpgdir, hfits⟩ := hV.live p hstate
  have hslot : k.Slot p ((k.proc p).reload S.root sz)
      ((k.setMem m).setProc p ((k.proc p).reload S.root sz)) :=
    (Kernel.Slot.refl.setMem m).setProc _
  refine wp_bind.mpr (wp_getProc.mpr (wp_bind.mpr (wp_modify.mpr ?_)))
  change wp _ _ E ((k.setMem m).setProc p ((k.proc p).reload S.root sz))
  refine wp_bind.mpr (wp_switchuvm ?_ ?_ ?_)
  · rwa [hslot.self]
  · rw [hslot.self]
    exact Option.some_ne_none _
  have hcells : S.cells + (V.cells k.proc + 0) = (V.space p).cells +
      (S.cells + ((k.proc p).stack + (V.rest k.proc p + 0))) := by
    rw [View.cells_eq p, Proc.cells, if_neg hstate]
    exact add_exchange ..
  rw [hcells] at howns
  rw [Kernel.setMem_proc, hpgdir]
  refine wp_bind.mpr (wp_onMem.mpr (wp_freevm howns rfl fun m' h' => ?_))
  exact h.slot (hslot.setMem m') ⟨_, hV.respace hstate (hslot.setMem m') hstate rfl rfl hS h'⟩
    rfl (by simp [hp])

lemma exec_sound {prog : Option Program} {uargv : List (Option Arg)}
    {ustack : ℕ → Page → Page} (h : k.Sound P) (hp : (k.proc p).state = .runnable) :
    wp (sysExec P.layout p prog uargv ustack) (fun _ k' => k'.Sound P)
      (fun e _ => e.Possible) k := by
  have hstate : (k.proc p).state ≠ .unused := by simp [hp]
  obtain ⟨V, hV⟩ := h.ledger
  have hsz := (hV.live p hstate).2.2.sz_lt
  have hsame : ∀ {m'}, m'.Owns P (V.cells k.proc + 0) → (k.setMem m').Sound P := fun howns =>
    h.slot (Kernel.Slot.refl.setMem _) ⟨V, howns, hV.kpgdir, hV.bare, hV.live, hV.plumbed⟩ rfl
      (h.idle p)
  refine wp_bind.mpr (wp_getProc.mpr ?_)
  rcases hargv : fetchArgs (k.proc p).sz 0 uargv with _ | argv
  · exact h
  obtain ⟨hlength, hall⟩ := fetchArgs_spec hargv
  rcases prog with _ | prog
  · exact h
  change wp (if prog.magic ≠ some ELF_MAGIC then _ else _) _ _ k
  split
  case isTrue => exact h
  case isFalse =>
    refine wp_bind.mpr (wp_onMem.mpr (wp_setupkvm hV.owns
      (fun m' h' _ => hsame h') fun S m' hS h' => ?_))
    refine wp_bind.mpr (wp_onMem.mpr (wp_buildImage h' rfl hS (by omega)
      (fun a ha => (hall a ha).trans hsz) (fun _ => ?_) (fun S' m'' hroot h'' => ?_)
      fun sz' S' m'' hroot hfits h'' => ?_))
    · simp [Stop.Possible]
    · exact wp_bind.mpr (wp_onMem.mpr (wp_freevm h'' hroot fun m₃ h₃ => hsame h₃))
    rw [← hroot]
    change wp _ _ _ (k.setMem m'')
    exact commit_sound h hV hp hfits h''

/-! ### `wait` -/

lemma wait_sound {F : Stop → Prop} (h : k.Sound P) :
    wp (wait P.layout p) (fun _ k' => k'.Sound P) (fun e _ => F e) k := by
  obtain ⟨V, hV⟩ := h.ledger
  refine wp_bind.mpr (wp_get.mpr ?_)
  cases hfind : (List.finRange NPROC).find? fun q =>
      (k.proc q).parent = some p ∧ (k.proc q).state = .zombie with
  | none =>
    dsimp only
    split
    · exact h
    · exact h
  | some q =>
    have hzombie : (k.proc q).state = .zombie := by
      have hq := find?_some hfind
      exact (of_decide_eq_true hq).2
    have hstate : (k.proc q).state ≠ .unused := by simp [hzombie]
    obtain ⟨hkstack, hpgdir, hfits⟩ := hV.live q hstate
    obtain ⟨f, hf⟩ := Option.ne_none_iff_exists'.mp hkstack
    have howns := hV.space hstate
    rw [Proc.stack, hf, Multiset.singleton_add, Multiset.add_cons] at howns
    refine wp_bind.mpr (wp_getProc.mpr (wp_bind.mpr ?_))
    rw [hf, hpgdir]
    refine wp_onSlot (Kernel.Slot.refl (p := q)) (wp_kfree howns fun m₁ h₁ k₁ hslot₁ hmem₁ => ?_)
    refine wp_bind.mpr (wp_modifySlot hslot₁ fun k₂ hslot₂ hmem₂ => ?_)
    rw [← hmem₁, ← hmem₂] at h₁
    refine wp_bind.mpr (wp_onSlot hslot₂ (wp_freevm h₁ rfl fun m₃ h₃ k₃ hslot₃ hmem₃ => ?_))
    refine wp_bind.mpr (wp_modifySlot hslot₃ fun k₄ hslot₄ hmem₄ => ?_)
    rw [← hmem₃, ← hmem₄] at h₃
    have hledger : k₄.Ledger P (V.setSpace q (V.space q)) 0 :=
      hV.replace hslot₄ (by simpa [Proc.cells] using h₃) (by simp)
    exact h.slot hslot₄ ⟨_, hledger⟩ rfl fun _ => h.idle q (.inr hzombie)

/-! ### `close` and `exit` -/

section Descriptors
variable {held : Fin NFILE → ℤ} {f : Fin NFILE} {F : Stop → Prop}

lemma Kernel.Sound.working (h : k.Sound P) : ∃ V, k.Working P V fun _ => 0 := by
  obtain ⟨V, hV⟩ := h.ledger
  exact ⟨V, hV, fun i => by rw [h.counted i, add_zero]⟩

lemma Kernel.Working.sound (h : k.Working P V held) (hheld : ∀ j, held j = 0)
    (hidle : Idle k.proc) : k.Sound P := by
  refine ⟨⟨V, h.ledger⟩, fun i => ?_, hidle⟩
  have hi := h.counted i
  rw [hheld] at hi
  omega

lemma Idle.set {proc : Fin NPROC → Proc} {x : Proc} (h : Idle proc)
    (hx : x.state = .unused ∨ x.state = .zombie → ∀ fd, x.ofile fd = none) :
    Idle (update proc p x) := by
  intro q hq
  by_cases hqp : q = p
  · subst hqp
    rw [update_self] at hq ⊢
    exact hx hq
  · rw [update_of_ne hqp] at hq ⊢
    exact h q hq

variable {arg : Option Int32}

lemma close_sound (h : k.Sound P) (hp : (k.proc p).state = .runnable) :
    wp (sysClose P.layout p arg) (fun _ k' => k'.Sound P) (fun e _ => F e) k := by
  obtain ⟨V, hV⟩ := h.working
  refine wp_bind.mpr (wp_getProc.mpr ?_)
  rcases arg with _ | n
  · exact h
  dsimp only
  split
  case isFalse => exact h
  case isTrue hn =>
    rcases hf : (k.proc p).ofile ⟨n.toInt.toNat, hn.2⟩ with _ | f
    · exact h
    refine wp_bind.mpr (wp_fdclear hV hf fun k₁ h₁ hproc₁ _ => ?_)
    have hpos : 0 < (k₁.file f).ref := by
      have hcount := h₁.counted f
      simp only [if_true] at hcount
      omega
    refine wp_bind.mpr (wp_fileclose h₁ hpos fun V' k' h' hproc _ => ?_)
    refine h'.sound (fun j => ?_) ?_
    · split <;> omega
    · rw [hproc, hproc₁]
      exact h.idle.set fun hx => by simp [hp] at hx

variable {Q : Unit → Kernel → Prop}

lemma wp_closeAll (h : k.Working P V fun _ => 0)
    (hQ : ∀ V' x k', k'.Working P V' (fun _ => 0) → k'.proc = update k.proc p x →
      (∀ fd, x.ofile fd = none) → x.SamePages (k.proc p) → Q () k') : wp (Exec.each (fun fd => do
      let x ← getProc p
      match x.ofile fd with
      | none => return ()
      | some f =>
        fileclose P.layout f
        fdclear p fd) (List.finRange NOFILE)) Q (fun e _ => F e) k := by
  refine wp_mono (wp_each _ (fun done k' => ∃ V' x, k'.Working P V' (fun _ => 0) ∧
    k'.proc = update k.proc p x ∧ (∀ fd ∈ done, x.ofile fd = none) ∧
    x.SamePages (k.proc p)) _ ?_ ?_) ?_ fun _ _ => id
  · rintro done fd rest - k₁ ⟨V₁, x, h₁, hproc₁, hdone, hsame⟩
    have hx : k₁.proc p = x := by rw [hproc₁, update_self]
    refine wp_bind.mpr (wp_getProc.mpr ?_)
    rw [hx]
    rcases hfd : x.ofile fd with _ | f
    · refine ⟨V₁, x, h₁, hproc₁, fun fd' hfd' => ?_, hsame⟩
      rcases mem_append.mp hfd' with hfd' | hfd'
      · exact hdone fd' hfd'
      · rwa [mem_singleton.mp hfd']
    have hfd₁ : (k₁.proc p).ofile fd = some f := by rw [hx]; exact hfd
    have hpos : 0 < (k₁.file f).ref := by
      have hcount := h₁.counted f
      have := refs_pos hfd₁
      omega
    refine wp_bind.mpr (wp_fileclose h₁ hpos fun V₂ k₂ h₂ hproc₂ _ => ?_)
    rw [← hproc₂] at hfd₁
    refine wp_fdclear h₂ hfd₁ fun k₃ h₃ hproc₃ _ => ?_
    refine ⟨V₂, x.setFd fd none, h₃.congr fun j => by split <;> omega, ?_, fun fd' hfd' => ?_, ?_⟩
    · rw [hproc₃, hproc₂, hx, hproc₁, update_idem]
    · by_cases heq : fd' = fd
      · subst heq
        simp
      · have hmem : fd' ∈ done := by simpa [heq] using hfd'
        simpa [heq] using hdone fd' hmem
    · exact ⟨hsame.unused, hsame.kstack, hsame.pgdir, hsame.sz⟩
  · exact ⟨V, k.proc p, h, by simp, by simp, .refl _⟩
  · rintro - k' ⟨V', x, h', hproc, hdone, hsame⟩
    exact hQ V' x k' h' hproc (fun fd => hdone fd (mem_finRange fd)) hsame

lemma wp_reparent {o : Option (Fin NPROC)}
    (hQ : ∀ k', (∀ q, (k'.proc q).SamePages (k.proc q) ∧ (k'.proc q).state = (k.proc q).state ∧
        (k'.proc q).ofile = (k.proc q).ofile) → k'.mem = k.mem → k'.file = k.file →
      k'.kpgdir = k.kpgdir → k'.events = k.events → Q () k') : wp (Exec.each (fun q => do
      let y ← getProc q
      if y.parent = some p then modifyProc q fun y => { y with parent := o })
      (List.finRange NPROC)) Q (fun e _ => F e) k := by
  refine wp_mono (wp_each _ (fun _ k' => (∀ q, (k'.proc q).SamePages (k.proc q) ∧
    (k'.proc q).state = (k.proc q).state ∧ (k'.proc q).ofile = (k.proc q).ofile) ∧
    k'.mem = k.mem ∧ k'.file = k.file ∧ k'.kpgdir = k.kpgdir ∧ k'.events = k.events) _ ?_ ?_)
    (fun _ k' ⟨hproc, hmem, hfile, hkpgdir, hevents⟩ => hQ k' hproc hmem hfile hkpgdir hevents)
    fun _ _ => id
  · rintro - q - - k₁ ⟨hproc, hrest⟩
    refine wp_bind.mpr (wp_getProc.mpr ?_)
    split
    case isFalse => exact ⟨hproc, hrest⟩
    case isTrue =>
      refine wp_modify.mpr ⟨fun q' => ?_, hrest⟩
      obtain ⟨hsame, hstate, hofile⟩ := hproc q'
      by_cases hq : q' = q
      · subst hq
        simp only [Kernel.setProc_proc, update_self]
        exact ⟨⟨hsame.unused, hsame.kstack, hsame.pgdir, hsame.sz⟩, hstate, hofile⟩
      · simp only [Kernel.setProc_proc, update_of_ne hq]
        exact ⟨hsame, hstate, hofile⟩
  · exact ⟨fun q => ⟨.refl _, rfl, rfl⟩, rfl, rfl, rfl, rfl⟩

lemma exit_sound (h : k.Sound P) (hp : (k.proc p).state = .runnable) :
    wp (exit P.layout p) (fun _ k' => k'.Sound P) (fun e _ => e.Possible) k := by
  obtain ⟨V, hV⟩ := h.working
  refine wp_bind.mpr (wp_get.mpr ?_)
  refine wp_bind.mpr (wp_stopIf.mpr ⟨fun _ => ?_, fun _ => ?_⟩)
  · simp [Stop.Possible]
  refine wp_bind.mpr (wp_closeAll hV fun V₁ x k₁ h₁ hproc₁ hclosed hsame => ?_)
  refine wp_bind.mpr (wp_reparent fun k₂ hproc₂ hmem₂ hfile₂ hkpgdir₂ hevents₂ => ?_)
  have hx : k₁.proc p = x := by rw [hproc₁, update_self]
  have hstate : (k₂.proc p).state ≠ .unused := by
    rw [(hproc₂ p).2.1, hx, ne_eq, hsame.unused, hp]
    decide
  have hzombie : ∀ q, ((k₂.setProc p { k₂.proc p with state := .zombie }).proc q).SamePages
      (k₁.proc q) := by
    intro q
    obtain ⟨hpages, -⟩ := hproc₂ q
    by_cases hq : q = p
    · subst hq
      simp only [Kernel.setProc_proc, update_self]
      exact ⟨by simp [← hpages.unused, hstate], hpages.kstack, hpages.pgdir, hpages.sz⟩
    · simpa only [Kernel.setProc_proc, update_of_ne hq] using hpages
  refine wp_modify.mpr ((h₁.reproc hzombie (fun q => ?_) hmem₂ hfile₂ hkpgdir₂
    hevents₂).sound (fun _ => rfl) ?_)
  · by_cases hq : q = p
    · subst hq
      simpa using (hproc₂ q).2.2
    · simpa [hq] using (hproc₂ q).2.2
  intro q hq fd
  by_cases hqp : q = p
  · subst hqp
    simp [(hproc₂ q).2.2, hx, hclosed]
  have hother : k₁.proc q = k.proc q := by rw [hproc₁, update_of_ne hqp]
  simp only [Kernel.setProc_proc, update_of_ne hqp, (hproc₂ q).2.1, (hproc₂ q).2.2, hother] at hq ⊢
  exact h.idle q hq fd

/-! ### `pipe` -/

variable {put : ℕ → Page → Page}

lemma wp_putUser {m : Memory} {pgdir va : ℕ} {Q : Unit → Memory → Prop}
    {E : Stop → Memory → Prop} (h : m.Owns P (S.cells + cs)) (hroot : S.root = pgdir)
    (hva : va < KERNBASE) (hfault : ∀ m', E .fault m')
    (hQ : ∀ m', m'.Owns P (S.cells + cs) → Q () m') : wp (putUser pgdir put va) Q E m := by
  refine wp_bind.mpr (wp_walk h hroot (fun _ => hfault m) fun hdir => ?_)
  refine wp_bind.mpr (wp_loadEntry h hdir ?_)
  refine wp_bind.mpr (wp_stopIf.mpr ⟨fun _ => hfault m, fun hp => ?_⟩)
  have hp' : (S.pte va).p = true := eq_true_of_ne_false hp
  exact wp_bind.mpr (wp_fillUser (E := E) h hva hp' _ hQ)

lemma wp_closeBoth {rf wf : Fin NFILE} {Q : Int32 → Kernel → Prop} (h : k.Working P V held)
    (hne : rf ≠ wf) (hrf : 0 < (k.file rf).ref) (hwf : 0 < (k.file wf).ref)
    (hheld : ∀ j, held j = (if j = rf then 1 else 0) + if j = wf then 1 else 0)
    (hQ : ∀ V' k', k'.Working P V' (fun _ => 0) → k'.proc = k.proc → Q (-1) k') : wp (do
      fileclose P.layout rf
      fileclose P.layout wf
      return (-1)) Q (fun e _ => F e) k := by
  refine wp_bind.mpr (wp_fileclose h hrf fun V₁ k₁ h₁ hproc₁ _ => ?_)
  have hwf₁ : (k₁.file wf).ref = (k.file wf).ref := h.ref_eq h₁ hproc₁ (by simp [hne.symm])
  refine wp_bind.mpr (wp_fileclose h₁ (by omega) fun V₂ k₂ h₂ hproc₂ _ => ?_)
  refine hQ V₂ k₂ (h₂.congr fun j => ?_) (hproc₂.trans hproc₁)
  rw [hheld]
  split <;> split <;> omega

lemma Proc.setFd_setFd {x : Proc} {fd : Fin NOFILE} {o : Option (Fin NFILE)}
    (h : x.ofile fd = none) : (x.setFd fd o).setFd fd none = x := by
  unfold Proc.setFd
  simp only [update_idem]
  rw [← h, update_eq_self]

lemma pipe_sound {arg : Option UInt32} (h : k.Sound P) (hp : (k.proc p).state = .runnable) :
    wp (sysPipe P.layout p arg put) (fun _ k' => k'.Sound P) (fun e _ => e.Possible) k := by
  have hstate : (k.proc p).state ≠ .unused := by simp [hp]
  obtain ⟨V, hV⟩ := h.working
  have hsz := (hV.ledger.live p hstate).2.2.sz_lt
  -- with the descriptors as they were
  have hback : ∀ (V' : View) (k' : Kernel), k'.Working P V' (fun _ => 0) → k'.proc = k.proc →
      k'.Sound P := fun V' k' h' hproc => h'.sound (fun _ => rfl) (by rw [hproc]; exact h.idle)
  refine wp_bind.mpr (wp_getProc.mpr ?_)
  rcases arg with _ | fd
  · exact h
  dsimp only
  split
  case isTrue => exact h
  case isFalse hbound =>
    refine wp_bind.mpr (wp_pipealloc hV (fun V' k' h' hproc _ => hback V' k' h' hproc)
      fun rf wf V₁ k₁ h₁ hrf hwf hne hproc₁ _ => ?_)
    refine wp_bind.mpr (wp_fdalloc h₁ ?_ fun fd₀ k₂ hfd₀ h₂ hproc₂ _ => ?_)
    · exact wp_closeBoth h₁ hne hrf hwf (fun j => by omega) fun V' k' h' hproc =>
        hback V' k' h' (hproc.trans hproc₁)
    refine wp_bind.mpr (wp_fdalloc h₂ ?_ fun fd₁ k₃ hfd₁ h₃ hproc₃ _ => ?_)
    · have hfd : (k₂.proc p).ofile fd₀ = some rf := by simp [hproc₂]
      refine wp_bind.mpr (wp_fdclear h₂ hfd fun k₄ h₄ hproc₄ _ => ?_)
      have hproc : k₄.proc = k₁.proc := by
        rw [hproc₄, hproc₂, update_self, update_idem, Proc.setFd_setFd hfd₀, update_eq_self]
      have h₄' : k₄.Working P V₁ (fun j => (if j = rf then 1 else 0) + if j = wf then 1 else 0) :=
        h₄.congr fun j => by omega
      refine wp_closeBoth h₄' hne ?_ ?_ (fun _ => rfl) fun V' k' h' hproc' =>
        hback V' k' h' (hproc'.trans (hproc.trans hproc₁))
      · rwa [h₁.ref_eq h₄' hproc (by omega)]
      · rwa [h₁.ref_eq h₄' hproc (by omega)]
    have hidle : Idle k₃.proc := by
      rw [hproc₃, hproc₂, hproc₁]
      refine (h.idle.set ?_).set ?_
      · intro hx
        simp [hp] at hx
      · intro hx
        simp [hp] at hx
    have hsame : (k₃.proc p).SamePages (k.proc p) := by
      rw [hproc₃, hproc₂, hproc₁]
      simp only [update_self]
      exact ⟨Iff.rfl, rfl, rfl, rfl⟩
    have hstate₃ := hsame.unused.not.mpr hstate
    have hpgdir := (h₃.ledger.live p hstate₃).2.1
    rw [hsame.pgdir] at hpgdir
    refine wp_bind.mpr (wp_deref hpgdir ?_)
    refine wp_bind.mpr (wp_onMem.mpr ?_)
    refine wp_mono (wp_each _ (fun _ m => m.Owns P (V₁.cells k₃.proc + 0)) _ ?_
      h₃.ledger.owns) (fun _ m' h' => ?_) fun _ _ => id
    · intro done va rest hlist m' h'
      have hva : va < KERNBASE := by
        have hmem : va ∈ [fd.toNat, fd.toNat + 3, fd.toNat + 4, fd.toNat + 7] := by
          rw [hlist]
          simp
        simp only [mem_cons, not_mem_nil, or_false] at hmem
        omega
      rw [View.cells_space hstate₃] at h' ⊢
      exact wp_putUser h' rfl hva (fun _ => by simp [Stop.Possible]) fun m'' h'' => h''
    · exact (h₃.setMem h').sound (fun j => by split <;> split <;> omega) hidle

/-! ### `dup` and `open` -/

lemma dup_sound (h : k.Sound P) (hp : (k.proc p).state = .runnable) :
    wp (sysDup p arg) (fun _ k' => k'.Sound P) (fun e _ => F e) k := by
  obtain ⟨V, hV⟩ := h.working
  refine wp_bind.mpr (wp_getProc.mpr ?_)
  rcases arg with _ | n
  · exact h
  dsimp only
  split
  case isFalse => exact h
  case isTrue hn =>
    rcases hf : (k.proc p).ofile ⟨n.toInt.toNat, hn.2⟩ with _ | f
    · exact h
    refine wp_bind.mpr (wp_fdalloc hV h fun fd k₁ _ h₁ hproc₁ hfile₁ => ?_)
    have hpos : 0 < (k₁.file f).ref := by
      rw [hfile₁, h.counted f]
      exact refs_pos hf
    refine wp_bind.mpr (wp_filedup h₁ hpos fun k₂ h₂ hproc₂ _ => ?_)
    refine h₂.sound (fun j => ?_) ?_
    · split <;> omega
    · rw [hproc₂, hproc₁]
      exact h.idle.set fun hx => by simp [hp] at hx

lemma wp_setInode {readable writable : Bool}
    (h : k.Working P V held) (hone : (k.file f).ref = 1) (htype : (k.file f).type = .none)
    (hQ : ∀ k', k'.Working P V held → k'.proc = k.proc → Q () k') :
    wp (modifyFile f fun x => { x with type := .inode, readable, writable }) Q
      (fun e _ => F e) k := by
  have hheld : (fun j => held j + if j = f then 0 else 0) = held := by simp
  refine wp_modify.mpr (hQ _ ?_ rfl)
  rw [← hheld]
  refine h.setFile rfl rfl rfl rfl rfl h.ledger.owns ?_ (Int.add_zero _).symm
  refine h.ledger.plumbed.set (fun g b => by simp [OpenFile.End, htype]) fun hzero => ?_
  simp [hone] at hzero

lemma open_sound {inode : Option File.FileType} {omode : UInt32} (h : k.Sound P)
    (hp : (k.proc p).state = .runnable) :
    wp (sysOpen P.layout p inode omode) (fun _ k' => k'.Sound P) (fun e _ => F e) k := by
  obtain ⟨V, hV⟩ := h.working
  rcases inode with _ | type
  · exact h
  change wp (if _ then _ else _) _ _ k
  split
  case isTrue => exact h
  case isFalse =>
    refine wp_bind.mpr (wp_filealloc hV h fun f k₁ _ hone₁ htype₁ _ h₁ hproc₁ _ => ?_)
    refine wp_bind.mpr (wp_fdalloc h₁ ?_ fun fd k₂ _ h₂ hproc₂ hfile₂ => ?_)
    · refine wp_bind.mpr (wp_fileclose h₁ (by omega) fun V₂ k₂ h₂ hproc₂ _ => ?_)
      refine h₂.sound (fun j => by split <;> omega) ?_
      rw [hproc₂, hproc₁]
      exact h.idle
    rw [← hfile₂] at hone₁ htype₁
    refine wp_bind.mpr (wp_setInode h₂ hone₁ htype₁ fun k₃ h₃ hproc₃ => ?_)
    refine h₃.sound (fun j => by split <;> omega) ?_
    rw [hproc₃, hproc₂, hproc₁]
    exact h.idle.set fun hx => by simp [hp] at hx

/-! ### `fork` -/

/-- `allocproc` finds a slot and a page for the kernel stack, or it leaves the slot unused. -/
lemma wp_allocproc {Q : Option (Fin NPROC) → Kernel → Prop} (h : k.mem.Owns P cs)
    (hfull : (∀ q, (k.proc q).state ≠ .unused) → Q none k)
    (hnone : ∀ np x k', (k.proc np).state = .unused → x.state = .unused →
      x.ofile = (k.proc np).ofile → k.Slot np x k' → k'.mem.Owns P cs →
      (P.lucky → Multiset.card cs = Multiset.card P.stock) → Q none k')
    (hsome : ∀ np x f k', (k.proc np).state = .unused → x.state = .embryo → x.kstack = some f →
      x.ofile = (k.proc np).ofile → k.Slot np x k' → k'.mem.Owns P (⟨f, none⟩ ::ₘ cs) →
      Q (some np) k') : wp allocproc Q (fun e _ => F e) k := by
  refine wp_bind.mpr (wp_get.mpr ?_)
  rcases hfind : (List.finRange NPROC).find? fun q => (k.proc q).state = .unused with _ | np
  · refine hfull fun q hq => ?_
    simpa [hq] using find?_eq_none.mp hfind q (mem_finRange q)
  have hnp : (k.proc np).state = .unused := by simpa using find?_some hfind
  refine wp_bind.mpr (wp_modifySlot (Kernel.Slot.refl) fun k₁ hslot₁ hmem₁ => ?_)
  refine wp_bind.mpr (wp_modify.mpr ?_)
  have h₁ : k₁.nextPid.mem.Owns P cs := by
    rwa [Kernel.nextPid_mem, hmem₁]
  refine wp_bind.mpr (wp_onSlot hslot₁.nextPid (wp_kalloc h₁
    (fun m₂ h₂ hcard k₂ hslot₂ hmem₂ => ?_) fun f m₂ h₂ k₂ hslot₂ hmem₂ => ?_))
  · refine wp_bind.mpr (wp_modifySlot hslot₂ fun k₃ hslot₃ hmem₃ => ?_)
    refine wp_bind.mpr (wp_modifySlot hslot₃ fun k₄ hslot₄ hmem₄ => ?_)
    rw [← hmem₂, ← hmem₃, ← hmem₄] at h₂
    refine hnone np _ k₄ hnp ?_ ?_ hslot₄ h₂ hcard
    · rfl
    · rfl
  refine wp_bind.mpr (wp_modifySlot hslot₂ fun k₃ hslot₃ hmem₃ => ?_)
  rw [← hmem₂, ← hmem₃] at h₂
  refine hsome np _ f k₃ hnp ?_ ?_ ?_ hslot₃ h₂
  · rfl
  · rfl
  · rfl

lemma wp_dupFiles {np : Fin NPROC} (h : k.Working P V fun _ => 0)
    (hne : p ≠ np) (hempty : ∀ fd, (k.proc np).ofile fd = none)
    (hQ : ∀ x k', k'.Working P V (fun _ => 0) → k'.proc = update k.proc np x →
      x.SamePages (k.proc np) → Q () k') : wp (dupFiles p np) Q (fun e _ => F e) k := by
  refine wp_mono (wp_each _ (fun done k' => ∃ x, k'.Working P V (fun _ => 0) ∧
    k'.proc = update k.proc np x ∧ (∀ fd, fd ∉ done → x.ofile fd = none) ∧
    x.SamePages (k.proc np)) _ ?_ ?_) ?_ fun _ _ => id
  · rintro done fd rest hlist k₁ ⟨x, h₁, hproc₁, hrest, hsame⟩
    have hx : k₁.proc np = x := by rw [hproc₁, update_self]
    have hp : k₁.proc p = k.proc p := by rw [hproc₁, update_of_ne hne]
    refine wp_bind.mpr (wp_getProc.mpr ?_)
    rcases hfd : (k₁.proc p).ofile fd with _ | f
    · exact ⟨x, h₁, hproc₁, fun fd' hfd' => hrest fd' fun hmem =>
        hfd' (mem_append_left _ hmem), hsame⟩
    have hpos : 0 < (k₁.file f).ref := by
      have hcount := h₁.counted f
      have := refs_pos hfd
      omega
    refine wp_bind.mpr (wp_filedup h₁ hpos fun k₂ h₂ hproc₂ _ => ?_)
    have hnew : fd ∉ done := by
      have hnodup := nodup_finRange NOFILE
      rw [hlist] at hnodup
      exact fun hmem => (nodup_append.mp hnodup).2.2 fd hmem fd mem_cons_self rfl
    have hfd₂ : (k₂.proc np).ofile fd = none := by
      rw [hproc₂, hx]
      exact hrest fd hnew
    refine wp_setFd h₂ hfd₂ fun k₃ h₃ hproc₃ _ => ?_
    refine ⟨x.setFd fd (some f), h₃.congr fun j => by split <;> omega, ?_, fun fd' hfd' => ?_, ?_⟩
    · rw [hproc₃, hproc₂, hx, hproc₁, update_idem]
    · have hfd'' : fd' ≠ fd ∧ fd' ∉ done := by
        constructor
        · rintro rfl
          exact hfd' (by simp)
        · exact fun hmem => hfd' (mem_append_left _ hmem)
      simpa [hfd''.1] using hrest fd' hfd''.2
    · exact ⟨hsame.unused, hsame.kstack, hsame.pgdir, hsame.sz⟩
  · exact ⟨k.proc np, h, by simp, fun fd _ => hempty fd, .refl _⟩
  · rintro - k' ⟨x, h', hproc, -, hsame⟩
    exact hQ x k' h' hproc hsame

/-- The child of a `fork`, up to its files. -/
@[simps]
def Proc.child (x : Proc) (p : Fin NPROC) (pgdir sz : ℕ) : Proc :=
  { x with pgdir := some pgdir, sz := sz, parent := some p }

lemma fork_sound (h : k.Sound P) (hp : (k.proc p).state = .runnable) :
    wp (fork P.layout p) (fun _ k' => k'.Sound P) (fun e _ => e.Possible) k := by
  have hstate : (k.proc p).state ≠ .unused := by simp [hp]
  obtain ⟨V, hV⟩ := h.working
  obtain ⟨-, hpgdir, hfits⟩ := hV.ledger.live p hstate
  -- the slot is not used in the end
  have hfail : ∀ np x k', (k.proc np).state = .unused → x.state = .unused →
      x.ofile = (k.proc np).ofile → k.Slot np x k' → k'.mem.Owns P (V.cells k.proc + 0) →
      k'.Sound P := by
    intro np x k' hnp hx hofile hslot howns
    refine h.slot hslot ⟨_, hV.ledger.unused hslot hnp hx howns⟩ hofile fun _ => ?_
    rw [hofile]
    exact h.idle np (.inl hnp)
  refine wp_bind.mpr (wp_allocproc hV.ledger.owns (fun _ => h)
    (fun np x k' hnp hx hofile hslot howns _ => hfail np x k' hnp hx hofile hslot howns)
    fun np x f k₁ hnp hx hkstack hofile hslot₁ h₁ => ?_)
  have hne : p ≠ np := by
    rintro rfl
    exact hstate hnp
  have hcells : (⟨f, none⟩ ::ₘ (V.cells k.proc + 0) : Cells) = (V.space p).cells +
      (⟨f, none⟩ ::ₘ ((k.proc p).stack + (V.rest k.proc p + 0))) := by
    rw [View.cells_space hstate, Multiset.add_cons]
  rw [hcells] at h₁
  have hproc₁ : k₁.proc p = k.proc p := by rw [hslot₁.proc, update_of_ne hne]
  refine wp_bind.mpr (wp_getProc.mpr ?_)
  rw [hproc₁]
  refine wp_bind.mpr (wp_deref hpgdir ?_)
  refine wp_bind.mpr (wp_onSlot hslot₁ (wp_copyuvm h₁ rfl hfits.sz_lt
    (fun _ => by simp [Stop.Possible]) (fun _ => by simp [Stop.Possible])
    (fun m₂ h₂ k₂ hslot₂ hmem₂ => ?_) fun D m₂ hD h₂ k₂ hslot₂ hmem₂ => ?_))
  · refine wp_bind.mpr (wp_modifySlot hslot₂ fun k₃ hslot₃ hmem₃ => ?_)
    rw [← hcells, ← hmem₂, ← hmem₃] at h₂
    refine wp_bind.mpr (wp_getProc.mpr ?_)
    rw [hslot₃.self, hkstack]
    refine wp_bind.mpr (wp_onSlot hslot₃ (wp_kfree h₂ fun m₄ h₄ k₄ hslot₄ hmem₄ => ?_))
    refine wp_bind.mpr (wp_modifySlot hslot₄ fun k₅ hslot₅ hmem₅ => ?_)
    rw [← hmem₄, ← hmem₅] at h₄
    refine hfail np _ k₅ hnp ?_ ?_ hslot₅ h₄
    · rfl
    · exact hofile
  refine wp_bind.mpr (wp_modifySlot hslot₂ fun k₃ hslot₃ hmem₃ => ?_)
  refine wp_bind.mpr (wp_modifySlot hslot₃ fun k₄ hslot₄ hmem₄ => ?_)
  rw [← hcells, ← hmem₂, ← hmem₃, ← hmem₄] at h₂
  have hchild : k.Slot np (x.child p D.root (k.proc p).sz) k₄ := hslot₄
  have halive : (x.child p D.root (k.proc p).sz).state ≠ .unused := by simp [hx]
  have hofile' : (x.child p D.root (k.proc p).sz).ofile = (k.proc np).ofile := hofile
  have hledger : k₄.Ledger P (V.setSpace np D) 0 := by
    refine hV.ledger.replace hchild ?_ fun _ => ⟨by simp [hkstack], rfl, hD⟩
    rw [Proc.cells, if_neg halive, Proc.stack, Proc.child_kstack, hkstack,
      ← View.cells_unused hnp, Multiset.singleton_add, Multiset.cons_add, ← Multiset.add_cons]
    exact h₂
  have hwork : k₄.Working P (V.setSpace np D) fun _ => 0 := by
    refine ⟨hledger, fun i => ?_⟩
    rw [hchild.file, hchild.proc, refs_update k.proc hofile']
    exact hV.counted i
  have hempty : ∀ fd, (k₄.proc np).ofile fd = none := by
    rw [hchild.self, hofile']
    exact h.idle np (.inl hnp)
  refine wp_bind.mpr (wp_dupFiles hwork hne hempty fun y k₅ h₅ hproc₅ hsame => ?_)
  refine wp_bind.mpr (wp_getProc.mpr ?_)
  refine wp_bind.mpr (wp_modifySlot (Kernel.Slot.refl) fun k₆ hslot₆ hmem₆ => ?_)
  have hy : k₅.proc np = y := by rw [hproc₅, update_self]
  have halive' : y.state ≠ .unused := by
    rwa [ne_eq, hsame.unused, hchild.self]
  have hpages : ∀ q, (k₆.proc q).SamePages (k₅.proc q) ∧ (k₆.proc q).ofile = (k₅.proc q).ofile := by
    intro q
    rw [hslot₆.proc]
    by_cases hq : q = np
    · subst hq
      rw [update_self]
      exact ⟨⟨by simp [hy, halive'], rfl, rfl, rfl⟩, rfl⟩
    · rw [update_of_ne hq]
      exact ⟨.refl _, rfl⟩
  refine (h₅.reproc (fun q => (hpages q).1) (fun q => (hpages q).2) hmem₆ hslot₆.file
    hslot₆.kpgdir hslot₆.events).sound (fun _ => rfl) ?_
  rw [hslot₆.proc, hproc₅, update_idem, hchild.proc, update_idem]
  exact h.idle.set fun hrun => by simp at hrun

end Descriptors

/-! ### All system calls -/

/-- Which calls of `kalloc` may succeed is no matter of the books, without luck. -/
lemma Kernel.Sound.setFate (h : k.Sound P) (hlucky : ¬ P.lucky) (fate : ℕ → Bool) :
    (k.setMem { k.mem with fate := fate }).Sound P := by
  obtain ⟨V, hV⟩ := h.ledger
  have howns : ({ k.mem with fate := fate } : Memory).Owns P (V.cells k.proc + 0) :=
    ⟨hV.owns.owned, fun hl => absurd hl hlucky⟩
  exact ⟨⟨V, howns, hV.kpgdir, hV.bare, hV.live, hV.plumbed⟩, h.counted, h.idle⟩

lemma syscall_sound (h : k.Sound P) (hlucky : ¬ P.lucky) (r : Request) :
    wp (syscall P.layout r) (fun _ k' => k'.Sound P) (fun e _ => e.Possible) k := by
  refine wp_bind.mpr (wp_getProc.mpr ?_)
  split
  case isFalse => exact h
  case isTrue hp =>
    refine wp_bind.mpr (wp_onMem.mpr (wp_modify.mpr ?_))
    have h' := h.setFate hlucky r.fate
    cases r.call with
    | fork => exact wp_bind.mpr (fork_sound h' hp)
    | exec prog uargv ustack => exact wp_bind.mpr (exec_sound h' hp)
    | sbrk arg => exact wp_bind.mpr (sbrk_sound h' hp)
    | pipe arg put => exact wp_bind.mpr (pipe_sound h' hp)
    | close arg => exact wp_bind.mpr (close_sound h' hp)
    | dup arg => exact wp_bind.mpr (dup_sound h' hp)
    | «open» inode omode => exact wp_bind.mpr (open_sound h' hp)
    | exit => exact exit_sound h' hp
    | wait => exact wp_bind.mpr (wait_sound h')

end Xv6.Vm
