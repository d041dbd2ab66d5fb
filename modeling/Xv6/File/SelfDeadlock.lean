import Xv6.File.Consistent

/-!
# Self-deadlock in a system call

A process that runs a system call alone finds every lock free that it has not
taken itself. The only call that waits for a lock of its own is `sys_link`: when
the last element of the new path is `.`, or `..` in the root, `dirlink` calls
`iput` on the directory that `sys_link` has locked.
-/

namespace Xv6.File
open Fs Lib

variable {p : Pid} {s : FsState} {v : Store} {r : Request}

/-- What the code does for a request of process `p`. -/
def serve (p : Pid) (r : Request) : FsExec ℤ := r.code.run (fsOp p)

/-- The calls that look up a path. -/
def Request.IsPath : Request → Prop
  | .close _ => False
  | .exit => False
  | _ => True

/-- A request for a link to a non-directory under a name that stands for the directory in
which it is looked up. -/
def Request.SelfLink (v : Store) (p : Pid) : Request → Prop
  | .link old new => v.SelfLink p old new
  | _ => False

/-- The call stops because it waits for a lock. -/
def Hangs (p : Pid) (r : Request) (s : FsState) : Prop := (serve p r s).reason = some .hang

/-- The call returns. -/
def Returns (p : Pid) (r : Request) (s : FsState) : Prop := (serve p r s).reason = none

/-- The call runs out of cache entries, inodes, blocks or room in a directory. -/
def RunsShort (p : Pid) (r : Request) (s : FsState) : Prop :=
  ∃ e, Shortage e ∧ (serve p r s).reason = some e

lemma serve_cases {E : Stop → Prop} {Q : ℤ → View → Prop} (h : Spec p E ⟨∅, v⟩ r.code Q)
    (hs : Rep p ⟨∅, v⟩ s) : (∃ a s' b', serve p r s = .ok a s' ∧ Rep p b' s' ∧ Q a b') ∨
      ∃ e s', serve p r s = .stop e s' ∧ E e := by
  have hwp := h s hs
  unfold serve
  unfold Exec.wp at hwp
  cases hrun : r.code.run (fsOp p) s with
  | ok a s' =>
    rw [hrun] at hwp
    obtain ⟨b', hb, hQ⟩ := hwp
    exact .inl ⟨a, s', b', rfl, hb, hQ⟩
  | stop e s' =>
    rw [hrun] at hwp
    exact .inr ⟨e, s', rfl, hwp⟩

/-- A call that is not such a request returns, or runs short of something. -/
lemma returns_or_short (hs : Settled s) (hv : s.Usable p) (hr : r.IsPath)
    (hself : ¬ r.SelfLink s.toStore p) : Returns p r s ∨ RunsShort p r s := by
  unfold Returns RunsShort
  rcases serve_cases (spec_result r hv) (hs.rep p) with ⟨a, s', -, hrun, -⟩ | ⟨e, s', hrun, he⟩
  · rw [hrun]
    exact .inl rfl
  rw [hrun]
  refine .inr ⟨e, ?_, rfl⟩
  cases he with
  | short h => exact h
  | self h => exact absurd h hself
  | close | exit | init => exact hr.elim

/-- Such a request waits for a lock of its own, unless it finds no cache entry for an inode. -/
lemma hangs_of_selfLink (hs : Settled s) (hv : s.Usable p) (hself : r.SelfLink s.toStore p) :
    Hangs p r s ∨ NINODE < s.inUse + 3 ∧ RunsShort p r s := by
  cases r with
  | link old new =>
    have hspec := spec_sysLink
      (E := fun e => e = .hang ∨ NINODE < s.inUse + 3 ∧ e = .panic .iget) hv.toReady
      ((Nat.lt_or_ge _ _).imp_left fun hfull => .inr ⟨hfull, rfl⟩) (fun _ => .inl rfl)
      fun h => absurd hself h
    unfold Hangs RunsShort
    rcases serve_cases (r := .link old new) hspec (hs.rep p) with
      ⟨_, _, _, _, _, hQ⟩ | ⟨e, s', hrun, rfl | ⟨hfull, rfl⟩⟩
    · exact absurd hself hQ.1
    · rw [hrun]
      exact .inl rfl
    · rw [hrun]
      exact .inr ⟨hfull, _, .iget, rfl⟩
  | _ => exact hself.elim

/-- A call that looks up a path deadlocks on a lock of its own only for such a request, which
does so if the cache has room, and every other one returns unless it runs short of something. -/
theorem hangs_only_selfLink (hs : Settled s) (hv : s.Usable p) (hr : r.IsPath) :
    (Hangs p r s → r.SelfLink s.toStore p) ∧
      (r.SelfLink s.toStore p → Hangs p r s ∨ NINODE < s.inUse + 3 ∧ RunsShort p r s) ∧
      (¬ r.SelfLink s.toStore p → Returns p r s ∨ RunsShort p r s) := by
  refine ⟨fun hhang => ?_, hangs_of_selfLink hs hv, returns_or_short hs hv hr⟩
  by_contra hself
  unfold Hangs at hhang
  rcases returns_or_short hs hv hr hself with hret | ⟨e, he, hshort⟩
  · exact absurd (hhang.symm.trans hret) (by simp)
  · obtain rfl : Stop.hang = e := Option.some.inj (hhang.symm.trans hshort)
    cases he

/-- `link("a", ".")` waits for the lock of the root directory, which it holds. -/
theorem link_dot_hangs : Sound image ∧ Hangs 1 (.link (some [0x61]) (some dot)) image := by
  refine ⟨image_sound, ?_⟩
  unfold Hangs
  decide +kernel

/-- `unlink("a")` does not wait for a lock of its own. -/
theorem unlink_a_hangs_not : ¬ Hangs 1 (.unlink (some [0x61])) image :=
  (hangs_only_selfLink image_sound.settled (image_sound.consistent.usable (p := 1) rfl)
    (r := .unlink (some [0x61])) trivial).1

end Xv6.File
