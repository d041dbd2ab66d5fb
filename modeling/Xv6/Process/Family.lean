import Mathlib.Data.Int.Notation
import Mathlib.Data.List.Basic

/-!
# Families of processes

The life of a process as its parent sees it. A slot is free, holds an embryo that
a parent is setting up, a living process, or one that has exited and has not been
waited for. The invariant of a family is that the living and the exited have a
living parent, and that every process that has exited is waited for once.

## Implementation notes

The slots are an arbitrary type. The pids of slots are integers, and the two lists
of pids say which processes have exited and which have been waited for, by whom.
-/

namespace Xv6.Process
open Function

inductive Phase where
  | free
  | embryo
  | alive
  | zombie
  deriving DecidableEq, Repr

@[ext]
structure Family (ι : Type) where
  phase : ι → Phase
  parent : ι → Option ι
  pid : ι → ℤ
  /-- The next pid. -/
  next : ℤ
  /-- The process that takes over children. -/
  init : ι
  /-- The embryo that a process is setting up, and whether it is its parent already. -/
  child : ι → Option (ι × Bool)
  exited : List ℤ
  waited : List (ι × ℤ)

namespace Family

variable {ι : Type} [DecidableEq ι] (F : Family ι)

@[simps]
def setPhase (p : ι) (ph : Phase) : Family ι := { F with phase := update F.phase p ph }

@[simps]
def setParent (p : ι) (o : Option ι) : Family ι := { F with parent := update F.parent p o }

@[simps]
def setChild (p : ι) (o : Option (ι × Bool)) : Family ι := { F with child := update F.child p o }

/-- A slot gets the next pid. -/
@[simps]
def newPid (p : ι) : Family ι := { F with pid := update F.pid p F.next, next := F.next + 1 }

@[simps]
def clearPid (p : ι) : Family ι := { F with pid := update F.pid p 0 }

/-- The children of a process are handed over. -/
@[simps]
def handOver (p : ι) : Family ι :=
  { F with parent := fun q => if F.parent q = some p then some F.init else F.parent q }

@[simps]
def logExit (e : ℤ) : Family ι := { F with exited := F.exited ++ [e] }

@[simps]
def logWait (p : ι) (e : ℤ) : Family ι := { F with waited := F.waited ++ [(p, e)] }

lemma setPhase_eq_self {p : ι} {ph : Phase} (h : F.phase p = ph) : F.setPhase p ph = F := by
  subst h
  simp [setPhase]

lemma setParent_eq_self {p : ι} {o : Option ι} (h : F.parent p = o) : F.setParent p o = F := by
  subst h
  simp [setParent]

/-- The steps of a family. -/
inductive Step (F : Family ι) : Family ι → Prop
  | refl : Step F F
  /-- A process begins to set up a child. -/
  | conceive {p np : ι} (hp : F.phase p = .alive) (hchild : F.child p = none)
      (hnp : F.phase np = .free) :
      Step F (((F.setPhase np .embryo).newPid np).setChild p (some (np, false)))
  /-- It gives up. -/
  | fail {p np : ι} (hchild : F.child p = some (np, false)) :
      Step F ((F.setPhase np .free).setChild p none)
  /-- It becomes the parent. -/
  | adopt {p np : ι} (hchild : F.child p = some (np, false)) :
      Step F ((F.setParent np (some p)).setChild p (some (np, true)))
  /-- The child lives. -/
  | bear {p np : ι} (hchild : F.child p = some (np, true)) :
      Step F ((F.setPhase np .alive).setChild p none)
  | exit {p : ι} (hp : F.phase p = .alive) (hchild : F.child p = none) (hinit : p ≠ F.init) :
      Step F (((F.handOver p).setPhase p .zombie).logExit (F.pid p))
  | wait {p z : ι} (hp : F.phase p = .alive) (hz : F.phase z = .zombie)
      (hparent : F.parent z = some p) :
      Step F ((((F.setPhase z .free).setParent z none).clearPid z).logWait p (F.pid z))

/-- Parents live. -/
structure Tree : Prop where
  init : F.phase F.init = .alive
  initParent : F.parent F.init = none
  noSelf : ∀ p, F.parent p ≠ some p
  parent : ∀ p, F.phase p = .alive ∨ F.phase p = .zombie → p ≠ F.init →
    ∃ q, F.parent p = some q ∧ F.phase q = .alive
  embryo : ∀ p np b, F.child p = some (np, b) → F.phase np = .embryo
  owner : ∀ p q np b b', F.child p = some (np, b) → F.child q = some (np, b') → p = q
  busy : ∀ p np b, F.child p = some (np, b) → F.phase p = .alive
  adopted : ∀ p np, F.child p = some (np, true) → F.parent np = some p

/-- Pids are not used twice, and every process that exits is waited for at most once. -/
structure Ledger : Prop where
  next : 0 < F.next
  nonneg : ∀ p, 0 ≤ F.pid p
  lt : ∀ p, F.pid p < F.next
  pos : ∀ p, F.phase p ≠ .free → 0 < F.pid p
  unique : ∀ p q, F.pid p = F.pid q → 0 < F.pid p → p = q
  exited_lt : ∀ e ∈ F.exited, 0 < e ∧ e < F.next
  living : ∀ p, F.phase p = .alive ∨ F.phase p = .embryo → F.pid p ∉ F.exited
  zombie : ∀ z, F.phase z = .zombie → F.pid z ∈ F.exited ∧ F.pid z ∉ F.waited.map Prod.snd
  fate : ∀ e ∈ F.exited, (∃ z, F.phase z = .zombie ∧ F.pid z = e) ∨ e ∈ F.waited.map Prod.snd
  exited_nodup : F.exited.Nodup
  waited_nodup : (F.waited.map Prod.snd).Nodup
  waited_exited : ∀ e ∈ F.waited.map Prod.snd, e ∈ F.exited

variable {F} {F' : Family ι}

section
variable (hphase : ∀ q, F.phase q = if q = F.init then .alive else .free)
include hphase

lemma Tree.start (hparent : ∀ q, F.parent q = none) (hchild : ∀ q, F.child q = none) : F.Tree
    where
  init := by simp [hphase]
  initParent := hparent _
  noSelf p := by simp [hparent]
  parent p hp hne := by simp [hphase, hne] at hp
  embryo p np b h := by simp [hchild] at h
  owner p q np b b' h := by simp [hchild] at h
  busy p np b h := by simp [hchild] at h
  adopted p np h := by simp [hchild] at h

lemma Ledger.start (hpid : ∀ q, F.pid q = if q = F.init then 1 else 0) (hnext : F.next = 2)
    (hexited : F.exited = []) (hwaited : F.waited = []) : F.Ledger := by
  constructor
  all_goals grind

end

/-- Parents live after a step: a process that exits hands its children over, and an embryo is
not a parent. -/
lemma Tree.step (h : F.Tree) (hs : F.Step F') : F'.Tree := by
  have h₀ := h
  obtain ⟨hinit, hinitParent, hself, hparent, hembryo, howner, hbusy, hadopted⟩ := h
  cases hs with
  | refl => exact h₀
  | @conceive p np hp hchild hnp =>
    constructor
    all_goals simp only [setChild, newPid, setPhase, update_apply]
    all_goals grind
  | @fail p np hchild =>
    have hnp := hembryo p np false hchild
    constructor
    all_goals simp only [setChild, setPhase, update_apply]
    all_goals grind
  | @adopt p np hchild =>
    have hnp := hembryo p np false hchild
    constructor
    all_goals simp only [setChild, setParent, update_apply]
    all_goals grind
  | @bear p np hchild =>
    have hnp := hembryo p np true hchild
    have hp := hbusy p np true hchild
    constructor
    case parent =>
      intro q hq hne
      by_cases hnq : q = np
      · -- the parent of the child is the process that has set it up
        exact ⟨p, hnq ▸ hadopted p np hchild, by simp [update_apply, hp]⟩
      simp only [setChild_phase, setPhase_phase, update_of_ne hnq] at hq
      obtain ⟨r, hr, hlive⟩ := hparent q hq hne
      exact ⟨r, hr, by simp [update_apply, hlive]⟩
    all_goals simp only [setChild, setPhase, update_apply]
    all_goals grind
  | @exit p hp hchild hi =>
    constructor
    case parent =>
      intro q hq hne
      by_cases hqp : F.parent q = some p
      · -- the children of `p` go to `init`
        exact ⟨F.init, by simp [hqp], by simp [Ne.symm hi, hinit]⟩
      have hq' : F.phase q = .alive ∨ F.phase q = .zombie := by
        by_cases h : q = p
        · exact .inl (h ▸ hp)
        · simpa [h] using hq
      obtain ⟨r, hr, hlive⟩ := hparent q hq' hne
      have hrp : r ≠ p := fun h => hqp (h ▸ hr)
      exact ⟨r, by simp [hr, hrp], by simp [hrp, hlive]⟩
    all_goals simp only [logExit, setPhase, handOver, update_apply]
    all_goals grind
  | @wait p z hp hz hzp =>
    constructor
    all_goals simp only [logWait, clearPid, setParent, setPhase, update_apply]
    all_goals grind

/-- The pids and the two lists stay in order. A pid enters the list of exits when its process
exits, and the list of waits when the slot is freed. -/
lemma Ledger.step (h : F.Ledger) (ht : F.Tree) (hs : F.Step F') : F'.Ledger := by
  have h₀ := h
  obtain ⟨hnext, hnonneg, hlt, hpos, hunique, hexited, hliving, hzombie, hfate, hend, hwnd,
    hwaited⟩ := h
  cases hs with
  | refl => exact h₀
  | @conceive p np hp hchild hnp =>
    constructor
    all_goals simp only [setChild, newPid, setPhase, update_apply]
    all_goals grind
  | @fail p np hchild =>
    have hnp := ht.embryo p np false hchild
    constructor
    all_goals simp only [setChild, setPhase, update_apply]
    all_goals grind
  | @adopt p np hchild =>
    exact ⟨hnext, hnonneg, hlt, hpos, hunique, hexited, hliving, hzombie, hfate, hend, hwnd,
      hwaited⟩
  | @bear p np hchild =>
    have hnp := ht.embryo p np true hchild
    constructor
    all_goals simp only [setChild, setPhase, update_apply]
    all_goals grind
  | @exit p hp hchild hi =>
    have hnew : F.pid p ∉ F.exited := hliving p (.inl hp)
    constructor
    all_goals simp only [logExit, setPhase, handOver, update_apply]
    all_goals grind
  | @wait p z hp hz hzp =>
    obtain ⟨hin, hnew⟩ := hzombie z hz
    constructor
    all_goals simp only [logWait, clearPid, setParent, setPhase, update_apply, List.map_append,
      List.map_cons, List.map_nil]
    all_goals grind

/-- What a step does to a process that has exited: nothing, or its parent exits and hands it
over, or its parent waits for it. -/
inductive Kept (F F' : Family ι) (z : ι) : Prop
  | same (hphase : F'.phase z = .zombie) (hpid : F'.pid z = F.pid z)
      (hparent : F'.parent z = F.parent z)
  | handed (p : ι) (hp : F.parent z = some p) (hphase : F'.phase z = .zombie)
      (hpid : F'.pid z = F.pid z) (hexit : F'.phase p = .zombie)
      (hparent : F'.parent z = some F.init)
  | reaped (p : ι) (hp : F.parent z = some p) (hphase : F'.phase z = .free)
      (hwaited : F'.waited = F.waited ++ [(p, F.pid z)])

lemma Step.kept (hs : F.Step F') (ht : F.Tree) {z : ι} (hz : F.phase z = .zombie) :
    Kept F F' z := by
  have hne : ∀ {q ph}, F.phase q = ph → ph ≠ .zombie → z ≠ q := by
    rintro q ph hq hph rfl
    exact hph (hq ▸ hz)
  cases hs with
  | refl => exact .same hz rfl rfl
  | @conceive p np hp hchild hnp =>
    have hznp := hne hnp nofun
    exact .same (by simpa [hznp] using hz) (by simp [hznp]) rfl
  | @fail p np hchild =>
    have hznp := hne (ht.embryo p np false hchild) nofun
    exact .same (by simpa [hznp] using hz) rfl rfl
  | @adopt p np hchild =>
    have hznp := hne (ht.embryo p np false hchild) nofun
    exact .same hz rfl (by simp [hznp])
  | @bear p np hchild =>
    have hznp := hne (ht.embryo p np true hchild) nofun
    exact .same (by simpa [hznp] using hz) rfl rfl
  | @exit p hp hchild hi =>
    have hzp := hne hp nofun
    by_cases hparent : F.parent z = some p
    · exact .handed p hparent (by simpa [hzp] using hz) rfl (by simp) (by simp [hparent])
    · exact .same (by simpa [hzp] using hz) rfl (by simp [hparent])
  | @wait p z' hp hz' hparent =>
    by_cases h : z = z'
    · subst h
      exact .reaped p hparent (by simp) rfl
    · exact .same (by simpa [h] using hz) (by simp [h]) (by simp [h])

end Family
end Xv6.Process
