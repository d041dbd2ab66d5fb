import Xv6.File.Histories
import Xv6.Vm.PipeFailure

/-!
# Calls that fail

A system call that returns -1 leaves the file system as it was, with one
exception: `open` with `O_CREATE` makes the file first and asks for an entry in
the file table and a descriptor after that. Where there is none left, the call
fails and the file stays.
-/

namespace Xv6.File
open Fs Lib

variable {v w : Store} {s s' : FsState} {p : Pid} {r : Request}

lemma Creates.ne {path : Path} {t : FileType} {major minor : Int16} {c : Inum}
    (h : Creates p v path t major minor c w) (hv : v.Ready p) (ht : t ≠ .free) : w ≠ v := by
  obtain ⟨dp, name, hpath, -, hfree, -⟩ := h.exists_entry
  have hinfo := h.type fun dp name hpath => (hv.namex hpath).2 rfl
  rintro rfl
  have htype : w.type c = t := congrArg Meta.type hinfo
  exact ht (htype.symm.trans (Store.freeInum_spec hfree).2.2)

end Xv6.File
