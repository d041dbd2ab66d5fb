import Xv6.Vm.Build

/-!
# The address space that `exec` builds
-/

namespace Xv6.Vm
open Lib Exec

variable {P : Pool} {m : Memory} {cs : Cells} {S : Space} {pgdir sz : ℕ} {E : Stop → Memory → Prop}

/-- An address space while `exec` loads it: all pages below the size are there. -/
structure Space.Loads (S : Space) (sz : ℕ) : Prop where
  sz_lt : sz < KERNBASE
  covers : S.Covers sz
  shut : S.Shut

lemma Space.Fresh.loads (h : S.Fresh) : S.Loads 0 where
  sz_lt := by decide
  covers va hva := by
    rw [h.empty va hva]
    simp [pgRoundUp, PGSIZE]
  shut := h.shut

lemma Space.Loads.present (h : S.Loads sz) {b : ℕ} (hb : b < sz) : (S.pte b).p = true := by
  have hlt := h.sz_lt
  exact (h.covers b (by omega)).mpr (hb.trans_le (pgRoundUp_spec hlt.le).2.1)

lemma UInt32.toNat_add_of_le {a b : UInt32} (h : ¬ a + b < a) :
    (a + b).toNat = a.toNat + b.toNat := by
  have ha := a.toNat_lt
  have hb := b.toNat_lt
  rw [UInt32.lt_iff_toNat_lt, UInt32.toNat_add] at h
  rw [UInt32.toNat_add]
  omega

lemma pgRoundUp_pgRoundUp (h : sz ≤ KERNBASE) : pgRoundUp (pgRoundUp sz) = pgRoundUp sz := by
  unfold pgRoundUp PGSIZE KERNBASE at *
  omega

/-- With a page that the user has no access to. -/
lemma Space.Loads.fits {S' : Space} {va : ℕ} (h : S.Loads sz)
    (hS : S.Changes (fun b => b / PGSIZE = va / PGSIZE) S') (hva : va < sz) : S'.Fits sz := by
  have hlt := h.sz_lt
  have hspec := pgRoundUp_spec hlt.le
  have hpage : ∀ b, b / PGSIZE = va / PGSIZE → b < pgRoundUp sz := by
    unfold PGSIZE at *
    omega
  refine ⟨hlt, fun b hb hb' => ?_, hS.shut h.shut fun b hb => ?_⟩
  · rw [hS.pte b (hb'.trans (by decide)) fun hsame => by have := hpage b hsame; omega]
    exact h.covers.absent hb hb'
  · have := hpage b hb
    omega

section
variable (h : m.Owns P (S.cells + cs))
include h

section
variable (hroot : S.root = pgdir)
include hroot

variable {newsz : ℕ}

lemma wp_allocLoads {Q : ℕ → Memory → Prop} (hS : S.Loads sz)
    (hbad : ∀ S' m', S'.root = pgdir → m'.Owns P (Space.cells S' + cs) → Q 0 m')
    (hok : ∀ sz' S' m', S'.root = pgdir → Space.Loads S' sz' → newsz ≤ sz' →
      (sz ≤ newsz → sz' = newsz) → m'.Owns P (Space.cells S' + cs) → Q sz' m') :
    wp (allocuvm P.layout pgdir sz newsz) Q E m := by
  refine wp_allocuvm h hroot (fun hlt b hlo hb => ?_) (fun _ => hbad S m hroot h)
    (fun _ hless => hok sz S m hroot hS hless.le (fun hle => by omega) h)
    (fun _ _ S' m' hS' h' => hbad S' m' (hS'.root.trans hroot) h') fun hlt hle S' m' hS' h' => ?_
  · exact hS.covers.absent hlo (hb.trans_le (pgRoundUp_spec hlt.le).2.2.2)
  refine hok newsz S' m' (hS'.root.trans hroot) ⟨hlt, hS.covers.grow hle hlt hS', ?_⟩ le_rfl
    (fun _ => rfl) h'
  exact hS'.toChanges.shut hS.shut fun b hb => hb.2.trans_le (pgRoundUp_spec hlt.le).2.2.2

variable {Q : Option ℕ → Memory → Prop} {segments : List (Option Segment)}

lemma wp_loadSegments (hS : S.Loads sz)
    (hbad : ∀ S' m', S'.root = pgdir → m'.Owns P (Space.cells S' + cs) → Q none m')
    (hok : ∀ sz' S' m', S'.root = pgdir → Space.Loads S' sz' → m'.Owns P (Space.cells S' + cs) →
      Q (some sz') m') : wp (loadSegments P.layout pgdir segments sz) Q E m := by
  induction segments generalizing m S sz with
  | nil => exact hok sz S m hroot hS h
  | cons ph phs ih =>
    rcases ph with _ | ph
    · exact hbad S m hroot h
    rw [loadSegments]
    split
    case isTrue => exact ih h hroot hS
    case isFalse =>
      split
      case isTrue => exact hbad S m hroot h
      case isFalse hmemsz =>
        split
        case isTrue => exact hbad S m hroot h
        case isFalse hwrap =>
          have hsum := UInt32.toNat_add_of_le hwrap
          rw [UInt32.lt_iff_toNat_lt] at hmemsz
          refine wp_bind.mpr (wp_allocLoads h hroot hS (fun S' m' hS' h' => ?_)
            fun sz' S' m' hroot' hS' hle _ h' => ?_)
          · rw [if_pos rfl]
            exact hbad S' m' hS' h'
          split
          case isTrue => exact hbad S' m' hroot' h'
          case isFalse =>
            split
            case isTrue => exact hbad S' m' hroot' h'
            case isFalse haligned =>
              have hlt := hS'.sz_lt
              refine wp_bind.mpr (wp_loaduvm h' hroot' (not_not.mp haligned)
                (by omega) (fun b _ hb => hS'.present (by omega)) fun b m'' h'' => ?_)
              cases b with
              | false => exact hbad S' m'' hroot' h''
              | true => exact ih h'' hroot' hS'

variable {argv : List Arg}

lemma wp_pushArgs {argc sp : ℕ} (hshut : S.Shut)
    (hargv : ∀ a ∈ argv, a.len < KERNBASE) (hnull : ∀ m', E .null m')
    (hQ : ∀ o m', m'.Owns P (S.cells + cs) → Q o m') : wp (pushArgs pgdir argv argc sp) Q E m := by
  induction argv generalizing m argc sp with
  | nil => exact hQ _ m h
  | cons a argv ih =>
    rw [pushArgs]
    split
    case isTrue => exact hQ none m h
    case isFalse =>
      have hlen := hargv a List.mem_cons_self
      refine wp_bind.mpr (wp_copyout h hroot hshut ?_ ?_ hnull fun b m' h' => ?_)
      · unfold pushDown
        omega
      · unfold TURNS NPDENTRIES NPTENTRIES PGSIZE KERNBASE at *
        omega
      cases b with
      | false => exact hQ none m' h'
      | true => exact ih h' fun a' ha' => hargv a' (List.mem_cons_of_mem a ha')

lemma wp_allocStack {Q : ℕ → Memory → Prop} (hS : S.Loads sz)
    (hnew : newsz = pgRoundUp sz + 2 * PGSIZE)
    (hbad : ∀ S' m', S'.root = pgdir → m'.Owns P (Space.cells S' + cs) → Q 0 m')
    (hok : ∀ S' m', S'.root = pgdir → Space.Loads S' newsz → m'.Owns P (Space.cells S' + cs) →
      Q newsz m') : wp (allocuvm P.layout pgdir (pgRoundUp sz) newsz) Q E m := by
  have hspec := pgRoundUp_spec hS.sz_lt.le
  have hle : pgRoundUp sz ≤ newsz := by omega
  by_cases hlt : pgRoundUp sz < KERNBASE
  · have hbase : S.Loads (pgRoundUp sz) := by
      refine ⟨hlt, fun va hva => ?_, hS.shut⟩
      rw [pgRoundUp_pgRoundUp hS.sz_lt.le]
      exact hS.covers va hva
    refine wp_allocLoads h hroot hbase hbad fun sz' S' m' hroot' hS' _ heq h' => ?_
    rw [heq hle] at hS' ⊢
    exact hok S' m' hroot' hS' h'
  refine wp_allocuvm h hroot ?_ (fun _ => hbad S m hroot h) ?_ ?_ ?_
  all_goals
    intro hlt'
    omega

variable {ustack : ℕ → Page → Page}

lemma wp_buildStack (hS : S.Loads sz)
    (hnew : newsz = pgRoundUp sz + 2 * PGSIZE) (hlength : argv.length ≤ MAXARG)
    (hargv : ∀ a ∈ argv, a.len < KERNBASE) (hnull : ∀ m', E .null m')
    (hbad : ∀ S' m', S'.root = pgdir → m'.Owns P (Space.cells S' + cs) → Q none m')
    (hok : ∀ sz' S' m', S'.root = pgdir → Space.Fits S' sz' → m'.Owns P (Space.cells S' + cs) →
      Q (some sz') m') : wp (buildStack P.layout pgdir (pgRoundUp sz) newsz argv ustack) Q E m := by
  refine wp_bind.mpr (wp_allocStack h hroot hS hnew (fun S' m' hS' h' => ?_)
    fun S₁ m₁ hroot₁ hS₁ h₁ => ?_)
  · rw [if_pos rfl]
    exact hbad S' m' hS' h'
  have hpos : 0 < 2 * PGSIZE := by decide
  have hva : newsz - 2 * PGSIZE < newsz := by omega
  rw [if_neg (by omega)]
  refine wp_bind.mpr (wp_clearpteu h₁ hroot₁ (hva.trans hS₁.sz_lt) (hS₁.present hva)
    fun S₂ m₂ hS₂ h₂ => ?_)
  have hroot₂ : S₂.root = pgdir := hS₂.root.trans hroot₁
  have hfits := hS₁.fits hS₂ hva
  refine wp_bind.mpr (wp_pushArgs h₂ hroot₂ hfits.shut hargv hnull fun o m₃ h₃ => ?_)
  rcases o with _ | sp
  · exact hbad S₂ m₃ hroot₂ h₃
  refine wp_bind.mpr (wp_copyout h₃ hroot₂ hfits.shut (Nat.mod_lt _ (by decide)) ?_
    hnull fun b m₄ h₄ => ?_)
  · unfold TURNS NPDENTRIES NPTENTRIES PGSIZE MAXARG at *
    omega
  cases b with
  | false => exact hbad S₂ m₄ hroot₂ h₄
  | true => exact hok newsz S₂ m₄ hroot₂ hfits h₄

lemma wp_buildImage (hS : S.Fresh) (hlength : argv.length ≤ MAXARG)
    (hargv : ∀ a ∈ argv, a.len < KERNBASE) (hnull : ∀ m', E .null m')
    (hbad : ∀ S' m', S'.root = pgdir → m'.Owns P (Space.cells S' + cs) → Q none m')
    (hok : ∀ sz' S' m', S'.root = pgdir → Space.Fits S' sz' → m'.Owns P (Space.cells S' + cs) →
      Q (some sz') m') : wp (buildImage P.layout pgdir segments argv ustack) Q E m := by
  refine wp_bind.mpr (wp_loadSegments h hroot hS.loads hbad fun sz S₁ m₁ hroot₁ hS₁ h₁ => ?_)
  -- the new size as a variable, to keep it from being computed
  dsimp only
  generalize hnew : pgRoundUp sz + 2 * PGSIZE = newsz
  exact wp_buildStack h₁ hroot₁ hS₁ hnew.symm hlength hargv hnull hbad hok

end
end

lemma fetchArgs_spec {i : ℕ} {uargv : List (Option Arg)} {argv : List Arg}
    (h : fetchArgs sz i uargv = some argv) : i + argv.length < MAXARG ∧ ∀ a ∈ argv, a.len < sz := by
  induction uargv generalizing i argv with
  | nil =>
    rw [fetchArgs] at h
    split at h
    · cases h
    cases h
    exact ⟨by simpa using by omega, by simp⟩
  | cons o uargv ih =>
    rcases o with _ | a
    · cases h
    rw [fetchArgs] at h
    split at h
    · cases h
    split at h
    · cases h
    obtain ⟨rest, hrest, rfl⟩ := Option.map_eq_some_iff.mp h
    obtain ⟨hlength, hall⟩ := ih hrest
    refine ⟨by rw [List.length_cons]; omega, fun b hb => ?_⟩
    rcases List.mem_cons.mp hb with rfl | hb
    · omega
    · exact hall b hb

end Xv6.Vm
