import Xv6.Vm.Calls

/-!
# A call of `pipe` that fails

`sys_pipe` gives back the files and the descriptor that it has taken when it
cannot go on. If it had already made the pipe, the two entries of the file
table, which are free again, keep what it wrote into them.
-/

namespace Xv6.Vm
open Lib Function Exec
open Fs (NPROC NFILE NOFILE)

variable {L : Layout} {k k' : Kernel} {p : Fin NPROC}

/-- The entries that are in use are the same, with the same contents. -/
def Kernel.SameOpenFiles (k k' : Kernel) : Prop :=
  ∀ i, (k'.file i).ref = (k.file i).ref ∧ (k'.file i).type = (k.file i).type ∧
    (0 < (k.file i).ref → k'.file i = k.file i)

/-- A file that is one side of the pipe in page `q`, or was it before it was closed. -/
def OpenFile.side (type : File.FdType) (ref : ℕ) (writable : Bool) (q : ℕ) : OpenFile :=
  ⟨type, ref, !writable, writable, q⟩

/-- The file table with the entries `i` and `j` for the two sides of a pipe. -/
def withPipe (file : Fin NFILE → OpenFile) (type : File.FdType) (ref : ℕ) (i j : Fin NFILE)
    (q : ℕ) : Fin NFILE → OpenFile :=
  update (update file i (.side type ref false q)) j (.side type ref true q)

/-- Free entries of the file table stand for nothing. -/
def Kernel.FilesFree (k : Kernel) : Prop := ∀ i, (k.file i).ref = 0 → (k.file i).type = .none

/-- `pipealloc` takes the first two free entries of the file table, and the page that `kalloc`
gives. -/
structure Kernel.TakesPipe (k : Kernel) (i j : Fin NFILE) (q : ℕ) : Prop where
  first : freeFile k.file = some i
  second : freeFile (update k.file i { k.file i with ref := 1 }) = some j
  page : (if k.mem.fate 0 then k.mem.freelist else none) = some q

variable {i j : Fin NFILE}

/-- A pipe is made, in entries of the file table that hold something else than what closing
its sides leaves there. -/
def Kernel.LeavesMarks (k : Kernel) (p : Fin NPROC) (arg : Option UInt32) : Prop :=
  ∃ fd i j q, arg = some fd ∧ fd.toNat < (k.proc p).sz ∧ fd.toNat + 8 ≤ (k.proc p).sz ∧
    k.TakesPipe i j q ∧ ¬ (k.file i = .side .none 0 false q ∧ k.file j = .side .none 0 true q)

/-- What a call of `pipe` that fails leaves. -/
def Kernel.PipeFails (k : Kernel) (p : Fin NPROC) (arg : Option UInt32) (k' : Kernel) : Prop :=
  k'.proc = k.proc ∧ k.SameOpenFiles k' ∧ (k'.file = k.file ↔ ¬ k.LeavesMarks p arg)

variable {arg : Option UInt32}

lemma Kernel.PipeFails.same (hproc : k'.proc = k.proc)
    (hfile : k'.file = k.file) (hmarks : ¬ k.LeavesMarks p arg) : k.PipeFails p arg k' :=
  ⟨hproc, fun i => by simp [hfile], iff_of_true hfile hmarks⟩

lemma Kernel.PipeFails.undone {fd : UInt32} {q : ℕ} (hfree : k.FilesFree)
    (hproc : k'.proc = k.proc) (hne : i ≠ j) (htakes : k.TakesPipe i j q)
    (hfd : fd.toNat < (k.proc p).sz) (hfd' : fd.toNat + 8 ≤ (k.proc p).sz)
    (hfile : k'.file = withPipe k.file .none 0 i j q) : k.PipeFails p (some fd) k' := by
  have hi := freeFile_ref htakes.first
  have hj : (k.file j).ref = 0 := by simpa [hne.symm] using freeFile_ref htakes.second
  have hati : k'.file i = .side .none 0 false q := by simp [hfile, withPipe, hne]
  have hatj : k'.file j = .side .none 0 true q := by simp [hfile, withPipe]
  refine ⟨hproc, fun x => ?_, fun heq => ?_, fun hmarks => ?_⟩
  · rcases eq_or_ne x j with rfl | hxj
    · simp [hatj, OpenFile.side, hj, hfree x hj]
    rcases eq_or_ne x i with rfl | hxi
    · simp [hati, OpenFile.side, hi, hfree x hi]
    · simp [hfile, withPipe, hxj, hxi]
  · rintro ⟨fd', i', j', q', -, -, -, htakes', hmarks⟩
    obtain rfl := Option.some.inj (htakes.first.symm.trans htakes'.first)
    obtain rfl := Option.some.inj (htakes.second.symm.trans htakes'.second)
    obtain rfl := Option.some.inj (htakes.page.symm.trans htakes'.page)
    exact hmarks ⟨heq ▸ hati, heq ▸ hatj⟩
  obtain ⟨hsame, hsame'⟩ := not_not.mp fun h => hmarks ⟨fd, i, j, q, rfl, hfd, hfd', htakes, h⟩
  rw [hfile, withPipe, ← hsame, ← hsame', update_eq_self, update_eq_self]

end Xv6.Vm
