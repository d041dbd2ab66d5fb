import Xv6.Vm.Ledger

/-!
# Files and pipes keep the books

A pipe has a page as long as one of its sides has a file. The functions of `file.c`
and `pipe.c` keep this, and they keep count of the references to a file.
-/

namespace Xv6.Vm
open Lib Function Exec Multiset
open Fs (NPROC NFILE NOFILE)

/-! ### Ends of pipes -/

section Lives
variable {file file' : Fin NFILE → OpenFile} {f g : ℕ} {b : Bool} {l : Life} {e : PipeEvent}
  {events : List PipeEvent}

lemma life_cons_of_ne (h : e.page ≠ g) : life g (e :: events) = life g events := if_neg h

lemma life_cons {l' : Life} (hpage : e.page = f) (h : life f events = some l)
    (hnext : l.next e = some l') : life f (e :: events) = some l' := by
  rw [life, if_pos hpage, h, Option.bind_some, hnext]

section
variable (h : l.Fits file f)
include h

lemma Life.Fits.congr (hend : ∀ i b, (file' i).End f b ↔ (file i).End f b) : l.Fits file' f := by
  cases l with
  | gone => exact fun b i hi => h b i ((hend i b).mp hi)
  | both =>
    intro b
    obtain ⟨i, hi⟩ := h b
    exact ⟨i, (hend i b).mpr hi⟩
  | only b =>
    obtain ⟨⟨i, hi⟩, hnone⟩ := h
    exact ⟨⟨i, (hend i b).mpr hi⟩, fun j hj => hnone j ((hend j (!b)).mp hj)⟩
  | shut => exact h

/-- Both sides are open if each of them has a file. -/
lemma Life.Fits.eq_both {i j : Fin NFILE} (hi : (file i).End f b)
    (hj : (file j).End f (!b)) : l = .both := by
  cases l with
  | gone => exact absurd hi (h b i)
  | both => rfl
  | only c =>
    obtain rfl | rfl : c = b ∨ c = !b := by cases b <;> cases c <;> simp
    · exact absurd hj (h.2 j)
    have hnone := h.2 i
    rw [Bool.not_not] at hnone
    exact absurd hi hnone
  | shut => exact absurd h id

/-- One side is open if only that has a file. -/
lemma Life.Fits.eq_only {i : Fin NFILE} (hi : (file i).End f b)
    (hnone : ∀ j, ¬ (file j).End f (!b)) : l = .only b := by
  cases l with
  | gone => exact absurd hi (h b i)
  | both =>
    obtain ⟨j, hj⟩ := h (!b)
    exact absurd hj (hnone j)
  | only c =>
    obtain rfl | rfl : c = b ∨ c = !b := by cases b <;> cases c <;> simp
    · rfl
    · obtain ⟨⟨j, hj⟩, -⟩ := h
      exact absurd hj (hnone j)
  | shut => exact absurd h id

/-- There is no pipe if there is no file for one. -/
lemma Life.Fits.eq_gone (hnone : ∀ b j, ¬ (file j).End f b) : l = .gone := by
  cases l with
  | gone => rfl
  | both =>
    obtain ⟨j, hj⟩ := h false
    exact absurd hj (hnone false j)
  | only c =>
    obtain ⟨⟨j, hj⟩, -⟩ := h
    exact absurd hj (hnone c j)
  | shut => exact absurd h id

end
end Lives

namespace Plumbed

variable {file : Fin NFILE → OpenFile} {pipes : Multiset ℕ} {page : ℕ → Page}
  {events : List PipeEvent} {f : ℕ} {b : Bool} {i : Fin NFILE} {y : OpenFile}

/-- What `Plumbed` says about the page `f`. -/
@[mk_iff]
structure At (file : Fin NFILE → OpenFile) (pipes : Multiset ℕ) (pg : Page) (o : Option Life)
    (f : ℕ) : Prop where
  mem : ∀ i b, (file i).End f b → f ∈ pipes
  unique : ∀ i j b, (file i).End f b → (file j).End f b → i = j
  isOpen : ∀ i b, (file i).End f b → pg (openWord b) = one
  isShut : f ∈ pipes → ∀ b, (∀ i, ¬ (file i).End f b) → pg (openWord b) = {}
  used : f ∈ pipes → ∃ b i, (file i).End f b
  lives : ∃ l, o = some l ∧ l.Fits file f

lemma At.congr {file' : Fin NFILE → OpenFile} {pipes' : Multiset ℕ} {pg : Page} {o : Option Life}
    (h : At file pipes pg o f) (hend : ∀ i b, (file' i).End f b ↔ (file i).End f b)
    (hmem : f ∈ pipes' ↔ f ∈ pipes) : At file' pipes' pg o f := by
  simp only [at_iff, hend, hmem] at h ⊢
  obtain ⟨hm, hu, ho, hs, hused, l, hl, hfits⟩ := h
  exact ⟨hm, hu, ho, hs, hused, l, hl, hfits.congr hend⟩

lemma plumbed_iff : Plumbed file pipes page events ↔
    (∀ i, (file i).ref = 0 → (file i).type = .none) ∧
      ∀ g, At file pipes (page g) (life g events) g :=
  ⟨fun h => ⟨h.free, fun g => ⟨fun i => h.mem i g, fun i j => h.unique i j g,
    fun i => h.isOpen i g, h.isShut g, h.used g, h.lives g⟩⟩,
  fun h => ⟨h.1, fun i g => (h.2 g).mem i, fun i j g => (h.2 g).unique i j,
    fun i g => (h.2 g).isOpen i, fun g => (h.2 g).isShut, fun g => (h.2 g).used,
    fun g => (h.2 g).lives⟩⟩

lemma ne_of_end {j : Fin NFILE} {g : ℕ} {c : Bool} (hj : (file j).End g c)
    (hi : (file i).End f b) (hne : g ≠ f ∨ c ≠ b) : j ≠ i := by
  rintro rfl
  exact hne.elim (fun h => h (hj.2.2.1.symm.trans hi.2.2.1))
    fun h => h (hj.2.2.2.symm.trans hi.2.2.2)

lemma end_update_iff (hy : y.ref = 0) (j : Fin NFILE) (g : ℕ) (c : Bool) :
    (update file i y j).End g c ↔ j ≠ i ∧ (file j).End g c := by
  by_cases hji : j = i
  · subst hji
    simp [OpenFile.End, hy]
  · simp [hji]

/-- The ends of other pipes are not touched. -/
lemma end_update_other {g : ℕ} (hi : (file i).End f b) (hy : y.ref = 0) (hgf : g ≠ f)
    (j : Fin NFILE) (c : Bool) : (update file i y j).End g c ↔ (file j).End g c := by
  rw [end_update_iff hy]
  exact ⟨And.right, fun hj => ⟨ne_of_end hj hi (.inl hgf), hj⟩⟩

lemma openWord_ne (b : Bool) : openWord (!b) ≠ openWord b := by
  cases b <;> decide

section
variable (h : Plumbed file pipes page events)
include h

lemma change {file' : Fin NFILE → OpenFile} {pipes' : Multiset ℕ} {page' : ℕ → Page}
    {events' : List PipeEvent} (hfree : ∀ i, (file' i).ref = 0 → (file' i).type = .none)
    (hend : ∀ g ≠ f, ∀ i b, (file' i).End g b ↔ (file i).End g b)
    (hmem : ∀ g ≠ f, g ∈ pipes' ↔ g ∈ pipes) (hpage : ∀ g ≠ f, page' g = page g)
    (hlife : ∀ g ≠ f, life g events' = life g events)
    (hf : At file' pipes' (page' f) (life f events') f) : Plumbed file' pipes' page' events' := by
  refine plumbed_iff.mpr ⟨hfree, fun g => ?_⟩
  by_cases hg : g = f
  · exact hg ▸ hf
  rw [hpage g hg, hlife g hg]
  exact ((plumbed_iff.mp h).2 g).congr (hend g hg) (hmem g hg)

lemma free_update (hy : y.ref = 0 → y.type = .none)
    (j : Fin NFILE) (hj : (update file i y j).ref = 0) : (update file i y j).type = .none := by
  by_cases hji : j = i
  · subst hji
    rw [update_self] at hj ⊢
    exact hy hj
  · rw [update_of_ne hji] at hj ⊢
    exact h.free j hj

/-- A file that changes and is the same end as before, or none. -/
lemma set (hend : ∀ f b, y.End f b ↔ (file i).End f b)
    (hfree : y.ref = 0 → y.type = .none) : Plumbed (update file i y) pipes page events := by
  refine plumbed_iff.mpr ⟨h.free_update hfree, fun g => ?_⟩
  refine ((plumbed_iff.mp h).2 g).congr (fun j b => ?_) Iff.rfl
  by_cases hji : j = i
  · subst hji
    rw [update_self]
    exact hend g b
  · rw [update_of_ne hji]

/-- Close a file that is no end of a pipe. -/
lemma drop (hy : y.ref = 0) (hty : y.type = .none)
    (hnone : ∀ f b, ¬ (file i).End f b) : Plumbed (update file i y) pipes page events :=
  h.set (fun f b => iff_of_false (fun hend => hend.1 hy) (hnone f b)) fun _ => hty

lemma shut (hi : (file i).End f b) (hy : y.ref = 0)
    (hty : y.type = .none) (hother : ∃ j, (file j).End f (!b)) : Plumbed (update file i y) pipes
      (update page f (update (page f) (openWord b) {}))
      (.close f b :: events) := by
  obtain ⟨j, hj⟩ := hother
  have hj' := (end_update_iff hy j f (!b)).mpr ⟨ne_of_end hj hi (.inr (by simp)), hj⟩
  refine h.change (h.free_update fun _ => hty) (fun g hg l c => end_update_other hi hy hg l c)
    (fun _ _ => Iff.rfl) (fun g hg => update_of_ne hg ..)
    (fun g hg => life_cons_of_ne (Ne.symm hg)) ?_
  rw [update_self]
  refine ⟨fun l c hl => h.mem l f c ((end_update_iff hy l f c).mp hl).2,
    fun l l' c hl hl' => h.unique l l' f c ((end_update_iff hy l f c).mp hl).2
      ((end_update_iff hy l' f c).mp hl').2,
    fun l c hl => ?_, fun _ c hnone => ?_, fun _ => ⟨!b, j, hj'⟩, ?_⟩
  · obtain ⟨hli, hl⟩ := (end_update_iff hy l f c).mp hl
    have hc : c ≠ b := by
      rintro rfl
      exact hli (h.unique l i f c hl hi)
    obtain rfl := Bool.eq_not_iff.mpr hc
    rw [update_of_ne (openWord_ne b)]
    exact h.isOpen l f _ hl
  · by_cases hc : c = b
    · subst hc
      simp
    · obtain rfl := Bool.eq_not_iff.mpr hc
      exact absurd hj' (hnone j)
  obtain ⟨l, hl, hfits⟩ := h.lives f
  obtain rfl := hfits.eq_both hi hj
  refine ⟨.only (!b), life_cons rfl hl rfl, ⟨j, hj'⟩, fun j' hend => ?_⟩
  obtain ⟨hne, hend⟩ := (end_update_iff hy j' f _).mp hend
  rw [Bool.not_not] at hend
  exact hne (h.unique j' i f b hend hi)

end

lemma remove (h : Plumbed file (f ::ₘ pipes) page events) (hf : f ∉ pipes) (hi : (file i).End f b)
    (hy : y.ref = 0) (hty : y.type = .none) (hother : ∀ j, ¬ (file j).End f (!b)) :
    Plumbed (update file i y) pipes page (.free f :: .close f b :: events) := by
  -- the pipe has no end any more
  have hnone : ∀ j c, ¬ (update file i y j).End f c := by
    intro j c hj
    obtain ⟨hji, hj⟩ := (end_update_iff hy j f c).mp hj
    by_cases hc : c = b
    · subst hc
      exact hji (h.unique j i f c hj hi)
    · obtain rfl := Bool.eq_not_iff.mpr hc
      exact hother j hj
  refine h.change (h.free_update fun _ => hty) (fun g hg l c => end_update_other hi hy hg l c)
    (fun g hg => ?_) (fun _ _ => rfl) (fun g hg => ?_) ?_
  · rw [mem_cons, or_iff_right hg]
  · rw [life_cons_of_ne (Ne.symm hg), life_cons_of_ne (Ne.symm hg)]
  refine ⟨fun j c hj => absurd hj (hnone j c), fun j l c hj => absurd hj (hnone j c),
    fun j c hj => absurd hj (hnone j c), fun hmem => absurd hmem hf, fun hmem => absurd hmem hf,
    .gone, ?_, fun c j => hnone j c⟩
  obtain ⟨l, hl, hfits⟩ := h.lives f
  obtain rfl := hfits.eq_only hi hother
  have hclose : life f (.close f b :: events) = some .shut := life_cons rfl hl (if_pos rfl)
  exact life_cons rfl hclose rfl

end Plumbed

/-- Open a pipe: two files that were no ends become its ends. -/
lemma Plumbed.add {file : Fin NFILE → OpenFile} {pipes : Multiset ℕ} {page : ℕ → Page}
    {events : List PipeEvent} {f : ℕ} {pg : Page} {y : Bool → OpenFile} {i : Bool → Fin NFILE}
    (h : Plumbed file pipes page events)
    (hf : f ∉ pipes) (hne : i false ≠ i true) (htype : ∀ b, (file (i b)).type = .none)
    (hy : ∀ b, (y b).End f b) (hpg : ∀ b, pg (openWord b) = one) :
    Plumbed (update (update file (i false) (y false)) (i true) (y true))
      (f ::ₘ pipes) (update page f pg) (.open f :: events) := by
  have hnew : ∀ b, update (update file (i false) (y false)) (i true) (y true) (i b) = y b := by
    intro b
    cases b with
    | false => rw [update_of_ne hne, update_self]
    | true => rw [update_self]
  generalize hfile : update (update file (i false) (y false)) (i true) (y true) = file' at hnew ⊢
  have hold : ∀ j, (∀ b, j ≠ i b) → file' j = file j := by
    intro j hj
    rw [← hfile, update_of_ne (hj true), update_of_ne (hj false)]
  -- the ends are the two new ones and the old ones
  have hend : ∀ j g c, (file' j).End g c ↔ j = i c ∧ g = f ∨ (∀ b, j ≠ i b) ∧ (file j).End g c := by
    intro j g c
    by_cases hj : ∃ b, j = i b
    · obtain ⟨b, rfl⟩ := hj
      rw [hnew]
      constructor
      · intro hb
        obtain rfl : b = c := (hy b).2.2.2.symm.trans hb.2.2.2
        exact .inl ⟨rfl, hb.2.2.1.symm.trans (hy b).2.2.1⟩
      rintro (⟨hbc, rfl⟩ | ⟨hb, -⟩)
      · rw [← hnew b, hbc, hnew c]
        exact hy c
      · exact absurd rfl (hb b)
    have hj : ∀ b, j ≠ i b := fun b hb => hj ⟨b, hb⟩
    rw [hold j hj]
    constructor
    · exact fun hend => .inr ⟨hj, hend⟩
    rintro (⟨hjc, -⟩ | ⟨-, hend⟩)
    · exact absurd hjc (hj c)
    · exact hend
  have hnotf : ∀ {j g c}, (file j).End g c → g ≠ f ∧ ∀ b, j ≠ i b := by
    intro j g c hj
    refine ⟨ne_of_mem_of_not_mem (h.mem j g c hj) hf, ?_⟩
    rintro b rfl
    have := (htype b).symm.trans hj.2.1
    cases this
  -- both sides of the new pipe have one end
  have hmine : ∀ {j c}, (file' j).End f c → j = i c := fun hj =>
    ((hend _ f _).mp hj).elim And.left fun hold => absurd rfl (hnotf hold.2).1
  have hmade : ∀ c, (file' (i c)).End f c := fun c => (hend (i c) f c).mpr (.inl ⟨rfl, rfl⟩)
  refine h.change (fun j hj => ?_) (fun g hg j c => ?_) (fun g hg => ?_)
    (fun g hg => update_of_ne hg ..) (fun g hg => life_cons_of_ne (Ne.symm hg)) ?_
  · by_cases hb : ∃ b, j = i b
    · obtain ⟨b, rfl⟩ := hb
      rw [hnew] at hj
      exact absurd hj (hy b).1
    · rw [hold j fun b hb' => hb ⟨b, hb'⟩] at hj ⊢
      exact h.free j hj
  · rw [hend]
    constructor
    · rintro (⟨-, hgf⟩ | ⟨-, hj⟩)
      · exact absurd hgf hg
      · exact hj
    · exact fun hj => .inr ⟨(hnotf hj).2, hj⟩
  · rw [mem_cons, or_iff_right hg]
  rw [update_self]
  refine ⟨fun _ _ _ => mem_cons_self .., fun j l c hj hl => (hmine hj).trans (hmine hl).symm,
    fun _ c _ => hpg c, fun _ c hnone => absurd (hmade c) (hnone (i c)),
    fun _ => ⟨true, i true, hmade true⟩, .both, ?_, fun c => ⟨i c, hmade c⟩⟩
  obtain ⟨l, hl, hfits⟩ := h.lives f
  obtain rfl := hfits.eq_gone fun b j hj => (hnotf hj).1 rfl
  exact life_cons rfl hl rfl

/-! ### The pages of pipes -/

namespace View

variable {V : View} {proc : Fin NPROC → Proc} {f : ℕ} {pipes : Multiset ℕ} {pg : Page}

/-- With other pipes. -/
@[simps -fullyApplied]
def setPipes (V : View) (pipes : Multiset ℕ) (page : ℕ → Page) : View :=
  { V with pipes := pipes, page := page }

lemma cells_pipe (hf : f ∉ pipes) (page : ℕ → Page) :
    (V.setPipes (f ::ₘ pipes) (update page f pg)).cells proc =
      ⟨f, some pg⟩ ::ₘ (V.setPipes pipes page).cells proc := by
  have hmap : pipes.map (fun g => (⟨g, some (update page f pg g)⟩ : Cell ℕ Page)) =
      pipes.map fun g => ⟨g, some (page g)⟩ := by
    refine map_congr rfl fun g hg => ?_
    rw [update_of_ne (ne_of_mem_of_not_mem hg hf)]
  simp only [cells, pipeCells, setPipes, map_cons, update_self, hmap, add_cons]

lemma pipes_le (V : View) (proc : Fin NPROC → Proc) : V.pipes ≤ (V.cells proc).map Cell.key := by
  have hmap : V.pipeCells.map Cell.key = V.pipes := by
    rw [pipeCells, map_map]
    exact map_id' _
  rw [cells, map_add, map_add, hmap]
  exact (Multiset.le_add_left ..).trans (Multiset.le_add_left ..)

lemma cells_split (hpipes : V.pipes = f ::ₘ pipes) (hf : f ∉ pipes) :
    V.cells proc = ⟨f, some (V.page f)⟩ ::ₘ (V.setPipes pipes V.page).cells proc := by
  have hcells : (V.setPipes (f ::ₘ pipes) (update V.page f (V.page f))).cells proc =
      ⟨f, some (V.page f)⟩ ::ₘ (V.setPipes pipes V.page).cells proc := cells_pipe hf V.page
  rwa [update_eq_self, ← hpipes] at hcells

end View

section Pipes
variable {P : Pool} {V : View} {m : Memory} {cs : Cells} {k : Kernel} {f : ℕ} {pg : Page} {b : Bool}
  {i : Fin NFILE} {held : Fin NFILE → ℤ} {F : Stop → Prop}

variable {Q : Unit → Kernel → Prop} {E : Stop → Memory → Prop} {V' : View} {k' : Kernel}
  {held' : Fin NFILE → ℤ}

lemma wp_pipeclose {Q : Bool → Memory → Prop} {E : Stop → Memory → Prop}
    (h : m.Owns P (⟨f, some pg⟩ ::ₘ cs))
    (hfree : pg (openWord (!b)) = {} → ∀ m', m'.Owns P cs → Q true m')
    (hkeep : pg (openWord (!b)) ≠ {} →
      ∀ m', m'.Owns P (⟨f, some (update pg (openWord b) {})⟩ ::ₘ cs) → Q false m') :
    wp (pipeclose P.layout f b) Q E m := by
  have hstore := h.write (update pg (openWord b) {})
  have hread := h.read
  have hwords : update pg (openWord b) {} (openWord false) = {} ∧
      update pg (openWord b) {} (openWord true) = {} ↔ pg (openWord (!b)) = {} := by
    have hne : openWord true ≠ openWord false := Plumbed.openWord_ne false
    cases b with
    | false => simp [hne]
    | true => simp [hne.symm]
  refine wp_bind.mpr (wp_modify.mpr ?_)
  rw [hread]
  refine wp_bind.mpr (wp_bind.mpr ?_)
  change wp (if (m.setPage f (update pg (openWord b) {})).page f (openWord false) = {} ∧
      (m.setPage f (update pg (openWord b) {})).page f (openWord true) = {}
    then _ else _) Q E _
  rw [hstore.read]
  split
  case isTrue hboth =>
    exact wp_bind.mpr (wp_kfree hstore fun m' h' => hfree (hwords.mp hboth) m' h')
  case isFalse hboth => exact hkeep (hwords.not.mp hboth) _ hstore

/-- The books while a system call holds references of its own. -/
structure Kernel.Working (P : Pool) (V : View) (held : Fin NFILE → ℤ) (k : Kernel) : Prop where
  ledger : k.Ledger P V 0
  counted : ∀ i, ((k.file i).ref : ℤ) = refs k.proc i + held i

lemma Kernel.Ledger.pipes_nodup (h : k.Ledger P V cs) : V.pipes.Nodup := by
  have hkeys := h.owns.owned.keys_le
  rw [map_add] at hkeys
  exact nodup_of_le ((V.pipes_le k.proc).trans ((le_add_right ..).trans hkeys)) h.owns.owned.nodup

lemma Kernel.Ledger.files (h : k.Ledger P V cs) (hkernel : V'.kernel = V.kernel)
    (hspace : V'.space = V.space) (hproc : k'.proc = k.proc) (hkpgdir : k'.kpgdir = k.kpgdir)
    (howns : k'.mem.Owns P (V'.cells k.proc + cs))
    (hplumbed : Plumbed k'.file V'.pipes V'.page k'.events) : k'.Ledger P V' cs where
  owns := by
    rwa [hproc]
  kpgdir := by
    rw [hkpgdir, hkernel]
    exact h.kpgdir
  bare := by
    rw [hkernel]
    exact h.bare
  live q hq := by
    rw [hproc] at hq ⊢
    rw [hspace]
    exact h.live q hq
  plumbed := hplumbed

lemma Plumbed.setRef {file : Fin NFILE → OpenFile} {pipes : Multiset ℕ} {page : ℕ → Page}
    {events : List PipeEvent} {n : ℕ} (h : Plumbed file pipes page events)
    (hi : (file i).ref ≠ 0) (hn : n ≠ 0) :
    Plumbed (update file i { file i with ref := n }) pipes page events :=
  h.set (fun f b => by simp [OpenFile.End, hi, hn]) fun hzero => absurd hzero hn

lemma Kernel.Working.setFile {y : OpenFile} {d : ℤ} (h : k.Working P V held)
    (hfile : k'.file = update k.file i y) (hproc : k'.proc = k.proc)
    (hkpgdir : k'.kpgdir = k.kpgdir) (hkernel : V'.kernel = V.kernel) (hspace : V'.space = V.space)
    (howns : k'.mem.Owns P (V'.cells k.proc + 0))
    (hplumbed : Plumbed (update k.file i y) V'.pipes V'.page k'.events)
    (hd : (y.ref : ℤ) = (k.file i).ref + d) :
    k'.Working P V' (fun j => held j + if j = i then d else 0) := by
  rw [← hfile] at hplumbed
  refine ⟨h.ledger.files hkernel hspace hproc hkpgdir howns hplumbed, fun j => ?_⟩
  have hj := h.counted j
  rw [hfile, hproc]
  by_cases hji : j = i
  · subst hji
    rw [update_self, if_pos rfl]
    omega
  · rw [update_of_ne hji, if_neg hji]
    omega

/-- The first free entry of the file table. -/
def freeFile (file : Fin NFILE → OpenFile) : Option (Fin NFILE) :=
  (List.finRange NFILE).find? fun i => (file i).ref = 0

lemma freeFile_ref {file : Fin NFILE → OpenFile} {i : Fin NFILE} (h : freeFile file = some i) :
    (file i).ref = 0 := by
  simpa using List.find?_some h

lemma wp_filealloc_frame {E : Stop → Kernel → Prop} {Q : Option (Fin NFILE) → Kernel → Prop}
    (hnone : freeFile k.file = none → Q none k)
    (hsome : ∀ i, freeFile k.file = some i → Q (some i) (k.setFile i { k.file i with ref := 1 })) :
    wp filealloc Q E k := by
  rw [filealloc, wp_bind, wp_get]
  split
  case h_1 hi => exact (wp_pure _).mpr (hnone hi)
  case h_2 i hi =>
    rw [wp_bind, modifyFile, wp_modify]
    exact (wp_pure _).mpr (hsome i hi)

lemma wp_pipeinit {Q : Unit → Memory → Prop} {v : Option Page} (h : m.Owns P (⟨f, v⟩ ::ₘ cs))
    (hQ : ∀ pg m', (∀ b, pg (openWord b) = one) → m'.Owns P (⟨f, some pg⟩ ::ₘ cs) → Q () m') :
    wp (pipeinit f) Q E m := by
  have h₁ := h.write (update (m.page f) (openWord false) one)
  have h₂ := h₁.write (update (update (m.page f) (openWord false) one) (openWord true) one)
  refine wp_bind.mpr (wp_modify.mpr (wp_modify.mpr ?_))
  rw [h₁.read]
  refine hQ _ _ (fun b => ?_) h₂
  have hne : openWord false ≠ openWord true := Plumbed.openWord_ne true
  cases b with
  | false => simp [hne]
  | true => simp

section
variable (h : k.Working P V held)
include h

lemma wp_fileclose {Q : Unit → Kernel → Prop} (hi : 0 < (k.file i).ref)
    (hQ : ∀ V' k', k'.Working P V' (fun j => held j + if j = i then -1 else 0) →
      k'.proc = k.proc → k'.initproc = k.initproc → Q () k') :
    wp (fileclose P.layout i) Q (fun e _ => F e) k := by
  have howns := h.ledger.owns
  have hplumbed := h.ledger.plumbed
  refine wp_bind.mpr (wp_get.mpr ?_)
  refine wp_bind.mpr (wp_stopIf.mpr ⟨fun hbad => by omega, fun _ => ?_⟩)
  by_cases hmore : 0 < (k.file i).ref - 1
  · rw [if_pos hmore]
    refine wp_modify.mpr (hQ V _ (h.setFile rfl rfl rfl rfl rfl howns
      (hplumbed.setRef (by omega) (by omega)) ?_) rfl rfl)
    push_cast
    omega
  rw [if_neg hmore]
  have hd : ((0 : ℕ) : ℤ) = (k.file i).ref + -1 := by omega
  refine wp_bind.mpr (wp_modify.mpr ?_)
  by_cases htype : (k.file i).type = .pipe
  · rw [if_pos htype]
    have hend : (k.file i).End (k.file i).pipe (k.file i).writable := ⟨by omega, htype, rfl, rfl⟩
    obtain ⟨pipes, hpipes⟩ := exists_cons_of_mem (hplumbed.mem i _ _ hend)
    have hf : (k.file i).pipe ∉ pipes := by
      have hnodup := h.ledger.pipes_nodup
      rw [hpipes] at hnodup
      exact (nodup_cons.mp hnodup).1
    rw [View.cells_split hpipes hf, cons_add] at howns
    refine wp_bind.mpr (wp_modify.mpr (wp_bind.mpr
      (wp_onMem.mpr (wp_pipeclose howns (fun hword m' h' => ?_) fun hword m' h' => ?_))))
    · -- the other side is shut, too
      have hother : ∀ j, ¬ (k.file j).End (k.file i).pipe (!(k.file i).writable) := by
        intro j hj
        rw [hplumbed.isOpen j _ _ hj] at hword
        cases hword
      rw [hpipes] at hplumbed
      exact hQ (V.setPipes pipes V.page) _ (h.setFile rfl rfl rfl rfl rfl h'
        (hplumbed.remove hf hend rfl rfl hother) hd) rfl rfl
    have hother : ∃ j, (k.file j).End (k.file i).pipe (!(k.file i).writable) := by
      by_contra hnone
      exact hword (hplumbed.isShut _ (hplumbed.mem i _ _ hend) _ fun j hj => hnone ⟨j, hj⟩)
    rw [← cons_add, ← View.cells_pipe hf V.page, ← hpipes] at h'
    exact hQ (V.setPipes V.pipes (update V.page (k.file i).pipe
      (update (V.page (k.file i).pipe) (openWord (k.file i).writable) {}))) _
      (h.setFile rfl rfl rfl rfl rfl h' (hplumbed.shut hend rfl rfl hother) hd) rfl rfl
  rw [if_neg htype]
  exact hQ V _ (h.setFile rfl rfl rfl rfl rfl howns
    (hplumbed.drop rfl rfl fun f b hend => htype hend.2.1) hd) rfl rfl

lemma Kernel.Working.congr (hheld : ∀ j, held j = held' j) : k.Working P V held' :=
  ⟨h.ledger, fun j => by rw [← hheld]; exact h.counted j⟩

lemma wp_filealloc {E : Stop → Kernel → Prop} {Q : Option (Fin NFILE) → Kernel → Prop}
    (hnone : Q none k)
    (hsome : ∀ i k', (k.file i).ref = 0 → (k'.file i).ref = 1 → (k'.file i).type = .none →
      (∀ j, j ≠ i → k'.file j = k.file j) →
      k'.Working P V (fun j => held j + if j = i then 1 else 0) →
      k'.proc = k.proc → k'.initproc = k.initproc → Q (some i) k') : wp filealloc Q E k := by
  refine wp_filealloc_frame (fun _ => hnone) fun i hfree => ?_
  have href := freeFile_ref hfree
  have htype := h.ledger.plumbed.free i href
  refine hsome i _ href (by simp) (by simpa using htype) (fun j hj => by simp [hj])
    (h.setFile rfl rfl rfl rfl rfl h.ledger.owns ?_ (by simp [href])) rfl rfl
  exact h.ledger.plumbed.set (fun f b => by simp [OpenFile.End, href, htype]) nofun

lemma Kernel.Working.setMem (howns : m.Owns P (V.cells k.proc + 0)) :
    (k.setMem m).Working P V held :=
  ⟨h.ledger.files rfl rfl rfl rfl howns h.ledger.plumbed, h.counted⟩

lemma Kernel.Working.ref_eq (h' : k'.Working P V' held')
    (hproc : k'.proc = k.proc) (hheld : held' i = held i) : (k'.file i).ref = (k.file i).ref := by
  have hi := h.counted i
  have hi' := h'.counted i
  rw [hproc, hheld] at hi'
  omega

end

/-- A file as the end of a pipe. -/
@[simps]
def OpenFile.connect (x : OpenFile) (f : ℕ) (b : Bool) : OpenFile :=
  { x with type := .pipe, readable := !b, writable := b, pipe := f }

lemma Kernel.Working.connect {i : Bool → Fin NFILE} (h : k.Working P V held)
    (hne : i false ≠ i true)
    (hfile : k'.file = update (update k.file (i false) ((k.file (i false)).connect f false))
      (i true) ((k.file (i true)).connect f true))
    (hproc : k'.proc = k.proc) (hkpgdir : k'.kpgdir = k.kpgdir)
    (hevents : k'.events = .open f :: k.events) (htype : ∀ b, (k.file (i b)).type = .none)
    (href : ∀ b, (k.file (i b)).ref ≠ 0) (hpg : ∀ b, pg (openWord b) = one)
    (howns : k'.mem.Owns P (⟨f, some pg⟩ ::ₘ (V.cells k.proc + 0))) :
    k'.Working P (V.setPipes (f ::ₘ V.pipes) (update V.page f pg)) held := by
  have hf : f ∉ V.pipes := by
    intro hf
    obtain ⟨c, hc, hkey⟩ := mem_map.mp (mem_of_le (V.pipes_le k.proc) hf)
    exact howns.owned.alone.2.2 c (mem_add.mpr (.inl hc)) hkey
  have hplumbed := h.ledger.plumbed.add (y := fun b => (k.file (i b)).connect f b) hf hne htype
    (fun b => ⟨href b, rfl, rfl, rfl⟩) hpg
  rw [← hfile, ← hevents] at hplumbed
  rw [← cons_add] at howns
  refine ⟨h.ledger.files rfl rfl hproc hkpgdir ?_ hplumbed, fun j => ?_⟩
  · rwa [View.cells_pipe hf V.page]
  have hj := h.counted j
  rw [hproc, hfile]
  by_cases htrue : j = i true
  · subst htrue
    rwa [update_self]
  rw [update_of_ne htrue]
  by_cases hfalse : j = i false
  · subst hfalse
    rwa [update_self]
  · rwa [update_of_ne hfalse]

lemma wp_pipealloc {Q : Option (Fin NFILE × Fin NFILE) → Kernel → Prop} (h : k.Working P V held)
    (hnone : ∀ V' k', k'.Working P V' held → k'.proc = k.proc → k'.initproc = k.initproc →
      Q none k') (hsome : ∀ f₀ f₁ V' k',
      k'.Working P V' (fun j => held j + (if j = f₀ then 1 else 0) + if j = f₁ then 1 else 0) →
      0 < (k'.file f₀).ref → 0 < (k'.file f₁).ref → f₀ ≠ f₁ →
      k'.proc = k.proc → k'.initproc = k.initproc → Q (some (f₀, f₁)) k') :
    wp (pipealloc P.layout) Q (fun e _ => F e) k := by
  refine wp_bind.mpr (wp_filealloc h (hnone V k h rfl rfl)
    fun f₀ k₀ href₀ hone₀ htype₀ hother₀ h₀ hproc₀ hinit₀ => ?_)
  refine wp_bind.mpr (wp_filealloc h₀ ?_
    fun f₁ k₁ href₁ hone₁ htype₁ hother₁ h₁ hproc₁ hinit₁ => ?_)
  · refine wp_bind.mpr (wp_fileclose h₀ (by omega) fun V' k' h' hproc' hinit' => ?_)
    refine hnone V' k' (h'.congr fun j => ?_) (hproc'.trans hproc₀) (hinit'.trans hinit₀)
    split <;> omega
  have hne : f₀ ≠ f₁ := by
    rintro rfl
    omega
  refine wp_bind.mpr (wp_onMem.mpr (wp_kalloc h₁.ledger.owns (fun m' h' _ => ?_) fun f m' h' => ?_))
  · have h₂ := h₁.setMem h'
    refine wp_bind.mpr (wp_fileclose h₂ ?_ fun V₃ k₃ h₃ hproc₃ hinit₃ => ?_)
    · change 0 < (k₁.file f₀).ref
      rw [hother₁ f₀ hne]
      omega
    have href₃ : (k₃.file f₁).ref = (k₁.file f₁).ref := h₁.ref_eq h₃ hproc₃ (by simp [hne.symm])
    refine wp_bind.mpr (wp_fileclose h₃ (by omega) fun V₄ k₄ h₄ hproc₄ hinit₄ => ?_)
    refine hnone V₄ k₄ (h₄.congr fun j => ?_) (hproc₄.trans (hproc₃.trans (hproc₁.trans hproc₀)))
      (hinit₄.trans (hinit₃.trans (hinit₁.trans hinit₀)))
    split <;> split <;> omega
  refine wp_bind.mpr (wp_onMem.mpr (wp_pipeinit h' fun pg m'' hpg h'' => ?_))
  refine wp_bind.mpr (wp_modify.mpr ?_)
  refine wp_bind.mpr (wp_modify.mpr ?_)
  refine wp_bind.mpr (wp_modify.mpr ?_)
  have hone : (k₁.file f₀).ref = 1 := by rw [hother₁ f₀ hne, hone₀]
  have htype : (k₁.file f₀).type = .none := by rw [hother₁ f₀ hne, htype₀]
  refine hsome f₀ f₁ (V.setPipes (f ::ₘ V.pipes) (update V.page f pg)) _
    (h₁.connect (i := fun b => if b then f₁ else f₀) hne ?_ rfl rfl rfl ?_ ?_ hpg h'') ?_ ?_ hne
    (hproc₁.trans hproc₀) (hinit₁.trans hinit₀)
  · change update (update k₁.file f₀ ((k₁.file f₀).connect f false)) f₁
      ((update k₁.file f₀ ((k₁.file f₀).connect f false) f₁).connect f true) = _
    rw [update_of_ne hne.symm]
    rfl
  · intro b
    cases b with
    | false => exact htype
    | true => exact htype₁
  · intro b
    cases b with
    | false => simp [hone]
    | true => simp [hone₁]
  · simp [hne, hone]
  · simp [hne.symm, hone₁]

variable {Q : Unit → Kernel → Prop}

lemma wp_filedup (h : k.Working P V held) (hi : 0 < (k.file i).ref)
    (hQ : ∀ k', k'.Working P V (fun j => held j + if j = i then 1 else 0) →
      k'.proc = k.proc → k'.initproc = k.initproc → Q () k') :
    wp (filedup i) Q (fun e _ => F e) k := by
  refine wp_bind.mpr (wp_get.mpr ?_)
  refine wp_bind.mpr (wp_stopIf.mpr ⟨fun hbad => by omega, fun _ => ?_⟩)
  refine wp_modify.mpr (hQ _ (h.setFile rfl rfl rfl rfl rfl h.ledger.owns
    (h.ledger.plumbed.setRef (by omega) (by omega)) ?_) rfl rfl)
  push_cast
  rfl

/-! ### Descriptors -/

/-- Two processes with the same pages. -/
structure Proc.SamePages (x y : Proc) : Prop where
  unused : x.state = .unused ↔ y.state = .unused
  kstack : x.kstack = y.kstack
  pgdir : x.pgdir = y.pgdir
  sz : x.sz = y.sz

lemma Proc.SamePages.refl (x : Proc) : x.SamePages x := ⟨Iff.rfl, rfl, rfl, rfl⟩

lemma Proc.SamePages.cells {x y : Proc} (h : x.SamePages y) (S : Space) :
    x.cells S = y.cells S := by
  have hstack : x.stack = y.stack := by rw [Proc.stack, h.kstack, Proc.stack]
  unfold Proc.cells
  rw [hstack]
  simp only [h.unused]

/-- The rule for changes of the process table that do not touch pages. -/
lemma Kernel.Ledger.reproc (h : k.Ledger P V cs) (hproc : ∀ q, (k'.proc q).SamePages (k.proc q))
    (hmem : k'.mem = k.mem) (hfile : k'.file = k.file) (hkpgdir : k'.kpgdir = k.kpgdir)
    (hevents : k'.events = k.events) : k'.Ledger P V cs where
  owns := by
    rw [hmem, View.cells_congr fun q => (hproc q).cells (V.space q)]
    exact h.owns
  kpgdir := hkpgdir.trans h.kpgdir
  bare := h.bare
  live q hq := by
    rw [(hproc q).kstack, (hproc q).pgdir, (hproc q).sz]
    exact h.live q ((hproc q).unused.not.mp hq)
  plumbed := by
    rw [hfile, hevents]
    exact h.plumbed

lemma Kernel.Working.reproc (h : k.Working P V held)
    (hproc : ∀ q, (k'.proc q).SamePages (k.proc q))
    (hofile : ∀ q, (k'.proc q).ofile = (k.proc q).ofile) (hmem : k'.mem = k.mem)
    (hfile : k'.file = k.file) (hkpgdir : k'.kpgdir = k.kpgdir) (hevents : k'.events = k.events) :
    k'.Working P V held := by
  refine ⟨h.ledger.reproc hproc hmem hfile hkpgdir hevents, fun i => ?_⟩
  have hholds : ∀ q, (k'.proc q).holds i = (k.proc q).holds i := fun q => by
    rw [Proc.holds, hofile q, Proc.holds]
  have hrefs : refs k'.proc i = refs k.proc i := by
    unfold refs tally
    simp only [hholds]
  rw [hfile, hrefs]
  exact h.counted i

lemma Proc.holds_setFd (x : Proc) (fd : Fin NOFILE) (o : Option (Fin NFILE)) (i : Fin NFILE) :
    (x.setFd fd o).holds i + (if x.ofile fd = some i then 1 else 0) =
      x.holds i + if o = some i then 1 else 0 :=
  tally_update (Finset.mem_univ fd)

lemma refs_setFd (proc : Fin NPROC → Proc) (p : Fin NPROC) (fd : Fin NOFILE)
    (o : Option (Fin NFILE)) (i : Fin NFILE) :
    refs (update proc p ((proc p).setFd fd o)) i + (if (proc p).ofile fd = some i then 1 else 0) =
      refs proc i + if o = some i then 1 else 0 := by
  have hrow := tally_update (w := fun x : Proc => x.holds i) (f := proc)
    (x := (proc p).setFd fd o) (Finset.mem_univ p)
  have hfd := (proc p).holds_setFd fd o i
  unfold refs
  omega

variable {fd : Fin NOFILE}

lemma refs_pos {proc : Fin NPROC → Proc} {p : Fin NPROC} {i : Fin NFILE}
    (h : (proc p).ofile fd = some i) : 0 < refs proc i := by
  refine tally_pos_iff.mpr ⟨p, Finset.mem_univ p, tally_pos_iff.mpr ⟨fd, Finset.mem_univ fd, ?_⟩⟩
  simp [h]

lemma Kernel.Working.setFd {p : Fin NPROC} {o : Option (Fin NFILE)}
    (h : k.Working P V held) (hslot : k.Slot p ((k.proc p).setFd fd o) k') (hmem : k'.mem = k.mem) :
    k'.Working P V (fun j => held j + (if (k.proc p).ofile fd = some j then 1 else 0) -
      if o = some j then 1 else 0) := by
  refine ⟨h.ledger.reproc (fun q => ?_) hmem hslot.file hslot.kpgdir hslot.events, fun j => ?_⟩
  · rw [hslot.proc]
    by_cases hqp : q = p
    · subst hqp
      rw [update_self]
      exact ⟨Iff.rfl, rfl, rfl, rfl⟩
    · rw [update_of_ne hqp]
      exact .refl _
  have hrefs := refs_setFd k.proc p fd o j
  have hj := h.counted j
  rw [hslot.proc, hslot.file]
  split_ifs at hrefs ⊢ <;> omega

variable {p : Fin NPROC} {fd : Fin NOFILE}

lemma wp_fdclear (h : k.Working P V held) (hfd : (k.proc p).ofile fd = some i)
    (hQ : ∀ k', k'.Working P V (fun j => held j + if j = i then 1 else 0) →
      k'.proc = update k.proc p ((k.proc p).setFd fd none) →
      k'.initproc = k.initproc → Q () k') : wp (fdclear p fd) Q (fun e _ => F e) k := by
  refine wp_modifySlot (Kernel.Slot.refl) fun k' hslot hmem => ?_
  refine hQ k' ((h.setFd hslot hmem).congr fun j => ?_) hslot.proc hslot.initproc
  rw [hfd]
  simp [eq_comm]

lemma wp_setFd (h : k.Working P V held) (hfd : (k.proc p).ofile fd = none)
    (hQ : ∀ k', k'.Working P V (fun j => held j + if j = i then -1 else 0) →
      k'.proc = update k.proc p ((k.proc p).setFd fd (some i)) →
      k'.file = k.file → Q () k') :
    wp (modifyProc p fun x => x.setFd fd (some i)) Q (fun e _ => F e) k := by
  refine wp_modifySlot (Kernel.Slot.refl) fun k' hslot hmem => ?_
  refine hQ k' ((h.setFd hslot hmem).congr fun j => ?_) hslot.proc hslot.file
  rw [hfd]
  by_cases hj : j = i
  · simp [hj]
    rfl
  · simp [hj, Ne.symm hj]

variable {Q : Option (Fin NOFILE) → Kernel → Prop}

/-- `fdalloc` finds a free descriptor, or none. -/
lemma wp_fdalloc_frame {E : Stop → Kernel → Prop} (hnone : Q none k)
    (hsome : ∀ fd, (k.proc p).ofile fd = none →
      Q (some fd) (k.setProc p ((k.proc p).setFd fd (some i)))) : wp (fdalloc p i) Q E k := by
  rw [fdalloc, wp_bind, getProc, wp_bind, wp_get, wp_pure]
  split
  case h_1 => exact (wp_pure _).mpr hnone
  case h_2 fd hfd =>
    rw [wp_bind, modifyProc, wp_modify]
    exact (wp_pure _).mpr (hsome fd (by simpa using List.find?_some hfd))

lemma wp_fdalloc (h : k.Working P V held) (hnone : Q none k)
    (hsome : ∀ fd k', (k.proc p).ofile fd = none →
      k'.Working P V (fun j => held j + if j = i then -1 else 0) →
      k'.proc = update k.proc p ((k.proc p).setFd fd (some i)) →
      k'.file = k.file → Q (some fd) k') : wp (fdalloc p i) Q (fun e _ => F e) k := by
  exact wp_fdalloc_frame hnone fun fd hfd => wp_setFd (F := F) (Q := fun _ => Q (some fd)) h hfd
    fun k' => hsome fd k' hfd

end Pipes
end Xv6.Vm
