import Xv6.Vm.Boot

/-!
# Reference counts of files

Between system calls the reference count of a file is the number of descriptors for it.
A side of a pipe is closed when its last descriptor goes, once, and the page of the pipe
is freed when both sides are closed.
-/

namespace Xv6.Vm
open Lib
open Fs (NPROC NFILE NOFILE)

/-- Some descriptor is for the side of the pipe in page `f`. -/
def Kernel.HasEnd (k : Kernel) (f : ℕ) (writable : Bool) : Prop :=
  ∃ p fd i, (k.proc p).ofile fd = some i ∧ (k.file i).type = .pipe ∧ (k.file i).pipe = f ∧
    (k.file i).writable = writable

/-- The file table and the descriptors fit together. What has happened to a pipe is its life so
far: a life has one `close` for each side that has no descriptors any more, and a `free` after
both of them. -/
structure Kernel.Accounted (k : Kernel) : Prop where
  ref : ∀ i, (k.file i).ref = refs k.proc i
  free : ∀ i, (k.file i).ref = 0 → (k.file i).type = .none
  unused : ∀ p, (k.proc p).state = .unused → ∀ fd, (k.proc p).ofile fd = none
  pipe : ∀ f,
    life f k.events = some .both ∧ (∀ b, k.HasEnd f b) ∨
    (∃ b, life f k.events = some (.only b) ∧ k.HasEnd f b ∧ ¬ k.HasEnd f (!b)) ∨
    life f k.events = some .gone ∧ ∀ b, ¬ k.HasEnd f b

section Table
variable {P : Pool} {k : Kernel} {f : ℕ} {b : Bool}

lemma refs_pos_iff {proc : Fin NPROC → Proc} {i : Fin NFILE} :
    0 < refs proc i ↔ ∃ p fd, (proc p).ofile fd = some i := by
  constructor
  · intro h
    obtain ⟨p, -, hp⟩ := tally_pos_iff.mp h
    obtain ⟨fd, -, hfd⟩ := tally_ite_pos_iff.mp hp
    exact ⟨p, fd, hfd⟩
  · rintro ⟨p, fd, h⟩
    exact refs_pos h

lemma Kernel.Sound.hasEnd_iff (h : k.Sound P) : k.HasEnd f b ↔ ∃ i, (k.file i).End f b := by
  constructor
  · rintro ⟨p, fd, i, hfd, htype, hpipe, hwritable⟩
    refine ⟨i, ?_, htype, hpipe, hwritable⟩
    rw [h.counted i]
    exact (refs_pos hfd).ne'
  rintro ⟨i, href, htype, hpipe, hwritable⟩
  rw [h.counted i] at href
  obtain ⟨p, fd, hfd⟩ := refs_pos_iff.mp (Nat.pos_of_ne_zero href)
  exact ⟨p, fd, i, hfd, htype, hpipe, hwritable⟩

lemma Kernel.Sound.accounted (h : k.Sound P) : k.Accounted := by
  obtain ⟨V, hV⟩ := h.ledger
  refine ⟨h.counted, hV.plumbed.free, fun p hp => h.idle p (.inl hp), fun f => ?_⟩
  simp only [h.hasEnd_iff]
  obtain ⟨l, hl, hfits⟩ := hV.plumbed.lives f
  cases l with
  | gone => exact .inr (.inr ⟨hl, fun b ⟨i, hi⟩ => hfits b i hi⟩)
  | both => exact .inl ⟨hl, hfits⟩
  | only b => exact .inr (.inl ⟨b, hl, hfits.1, fun ⟨i, hi⟩ => hfits.2 i hi⟩)
  | shut => exact hfits.elim

end Table

/-- The file table after any sequence of system calls. -/
theorem fileTable_accounted (L : Layout) (initcode : Page) (page : ℕ → Page) (ops : List Request) :
    Exec.wp (boot L initcode) (fun _ => Exec.wp (Exec.each (syscall L) ops) (fun _ k => k.Accounted)
        (fun e _ => e.Possible))
      (fun _ _ => False) (blank page) :=
  run_sound (fun _ hk => hk.accounted) initcode page ops

end Xv6.Vm
