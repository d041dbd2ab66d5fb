import Xv6.Icache.Entries

/-!
# References that a call takes and gives back

The references to the entries of the inode cache, and the pointers of processes and
open files that account for them, are books that a call keeps. The terms say what each
operation writes into the books, whatever its results are. Every call that starts with
balanced books ends with balanced books.
-/

namespace Xv6.Icache
open Fs Lib File Function

/-- The books of a call: the reference counts, the pointers, the working directory of the process
and a file of the table that is not for anything yet. -/
structure Books where
  ref : Ptr → ℕ
  pins : Ptr → ℕ
  cwd : Option Ptr
  fresh : Option (Fin NFILE)

namespace Books

variable (e : Books) (t t' : Ptr)

@[simps -fullyApplied]
def addRef : Books := { e with ref := update e.ref t (e.ref t + 1) }

@[simps -fullyApplied]
def dropRef : Books := { e with ref := update e.ref t (e.ref t - 1) }

@[simps -fullyApplied]
def addPin : Books := { e with pins := update e.pins t (e.pins t + 1) }

@[simps -fullyApplied]
def dropPin : Books := { e with pins := update e.pins t (e.pins t - 1) }

@[simps -fullyApplied]
def setFresh (o : Option (Fin NFILE)) : Books := { e with fresh := o }

/-- A pointer more, if there is one. -/
def addPinOf : Option Ptr → Books
  | some t => e.addPin t
  | none => e

/-- A pointer less. -/
def dropPinOf : Option Ptr → Books
  | some t => e.dropPin t
  | none => e

/-- Another working directory. -/
def setCwd (o : Option Ptr) : Books := { (e.dropPinOf e.cwd).addPinOf o with cwd := o }

/-- A reference more, if something is found. -/
def addRefOf : Option Ptr → Books
  | some t => e.addRef t
  | none => e

/-- Every pointer is a reference. -/
def Covered : Prop := ∀ t, e.pins t ≤ e.ref t

/-- The references are the pointers. -/
def Balanced : Prop := e.ref = e.pins

@[simp]
lemma dropRef_addRef : (e.addRef t).dropRef t = e := by simp [dropRef, addRef]

lemma addRef_comm : (e.addRef t).addRef t' = (e.addRef t').addRef t := by
  by_cases h : t = t'
  · rw [h]
  · simp [addRef, h, Ne.symm h, update_comm h]

lemma addRef_apply (u : Ptr) : (e.addRef t).ref u = e.ref u + if t = u then 1 else 0 := by
  by_cases h : t = u
  · simp [← h]
  · simp [h, Ne.symm h]

lemma dropRef_apply (u : Ptr) : (e.dropRef t).ref u = e.ref u - if t = u then 1 else 0 := by
  by_cases h : t = u
  · simp [← h]
  · simp [h, Ne.symm h]

lemma addPin_apply (u : Ptr) : (e.addPin t).pins u = e.pins u + if t = u then 1 else 0 := by
  by_cases h : t = u
  · simp [← h]
  · simp [h, Ne.symm h]

lemma dropPin_apply (u : Ptr) : (e.dropPin t).pins u = e.pins u - if t = u then 1 else 0 := by
  by_cases h : t = u
  · simp [← h]
  · simp [h, Ne.symm h]

lemma setCwd_apply (o : Option Ptr) (u : Ptr) : (e.setCwd o).pins u =
    e.pins u - (if e.cwd = some u then 1 else 0) + if o = some u then 1 else 0 := by
  have hdrop : (e.dropPinOf e.cwd).pins u = e.pins u - if e.cwd = some u then 1 else 0 := by
    rcases h : e.cwd with _ | t
    · rfl
    simp only [Option.some.injEq]
    exact dropPin_apply e t u
  rw [← hdrop]
  rcases o with _ | t
  · rfl
  simp only [Option.some.injEq]
  exact addPin_apply (e.dropPinOf e.cwd) t u

lemma setCwd_ref (o : Option Ptr) : (e.setCwd o).ref = e.ref := by
  cases h : e.cwd <;> cases o <;> simp [setCwd, dropPinOf, addPinOf, h]

lemma setCwd_fresh (o : Option Ptr) : (e.setCwd o).fresh = e.fresh := by
  cases h : e.cwd <;> cases o <;> simp [setCwd, dropPinOf, addPinOf, h]

variable {e}

lemma Covered.addRef (h : e.Covered) : (e.addRef t).Covered := by
  intro u
  rw [addRef_apply]
  exact (h u).trans (Nat.le_add_right _ _)

namespace Balanced

variable (h : e.Balanced)
include h

lemma covered : e.Covered := fun t => (congrFun h t).ge

lemma setFresh (o : Option (Fin NFILE)) : (e.setFresh o).Balanced := h

lemma addRef_addPin : ((e.addRef t).addPin t).Balanced := by
  ext u
  calc (e.addRef t).ref u = e.ref u + if t = u then 1 else 0 := addRef_apply e t u
    _ = e.pins u + if t = u then 1 else 0 := by rw [h]
    _ = ((e.addRef t).addPin t).pins u := (addPin_apply _ t u).symm

lemma dropPin_dropRef : ((e.dropPin t).dropRef t).Balanced := by
  ext u
  calc ((e.dropPin t).dropRef t).ref u = e.ref u - if t = u then 1 else 0 := dropRef_apply _ t u
    _ = e.pins u - if t = u then 1 else 0 := by rw [h]
    _ = (e.dropPin t).pins u := (dropPin_apply e t u).symm

lemma addRef_dropRef_setCwd (hcwd : e.cwd = some t) (ht : 0 < e.pins t) :
    (((e.addRef t').dropRef t).setCwd (some t')).Balanced := by
  ext u
  have hu := congrFun h u
  rw [setCwd_ref, dropRef_apply, addRef_apply, setCwd_apply]
  simp only [dropRef_cwd, addRef_cwd, dropRef_pins, addRef_pins, hcwd, Option.some.injEq]
  by_cases htu : t = u
  · subst htu
    simp only [if_true]
    omega
  · simp only [htu, if_false]
    omega

lemma addRef_setCwd (hcwd : e.cwd = none) : ((e.addRef t).setCwd (some t)).Balanced := by
  ext u
  rw [setCwd_ref, addRef_apply, setCwd_apply]
  simp [hcwd, congrFun h u]

lemma dropRef_setCwd (hcwd : e.cwd = some t) : ((e.dropRef t).setCwd none).Balanced := by
  ext u
  rw [setCwd_ref, dropRef_apply, setCwd_apply]
  simp [hcwd, congrFun h u]

end Balanced
end Books

/-- What an operation writes into the books. If they are kept strictly, the pointers are in the
books, and a pointer that is copied is a reference. -/
def terms (strict : Prop) : (o : FsOp Ptr) → Books → (o.Res → Books → Prop) → Prop
  | .iget _ _, e, Q => ∀ t : Ptr, Q t (e.addRef t)
  | .idup t, e, Q => (strict → 0 < e.ref t) ∧ Q () (e.addRef t)
  | .decref t, e, Q => 0 < e.ref t ∧ Q () (e.dropRef t)
  | .cwd, e, Q => ∀ t : Ptr, (strict → e.cwd = some t ∧ 0 < e.pins t) → Q t e
  | .setCwd o, e, Q => Q () (e.setCwd o)
  | .filealloc, e, Q => Q none e ∧ ∀ f, Q (some f) (e.setFresh (some f))
  | .setFile f t _, e, Q => e.fresh = some f ∧ Q () ((e.setFresh none).addPin t)
  | .fileDrop f, e, Q => Q none (e.setFresh none) ∧ ∀ x : OpenFile Ptr,
      (strict → x.type = .inode → e.fresh ≠ some f ∧ 0 < e.pins x.ip) →
        Q (some x) (if x.type = .inode then (e.setFresh none).dropPin x.ip else e.setFresh none)
  | _, e, Q => ∀ r, Q r e

/-- The program keeps the books. -/
abbrev Keeps {α : Type} (strict : Prop) (Q : α → Books → Prop) (x : CallOn Ptr α) (e : Books) :
    Prop :=
  x.Obeys (terms strict) Q e

/-- The operations that the books do not mention. -/
def Quiet : FsOp Ptr → Prop
  | .iget _ _ | .idup _ | .decref _ | .cwd | .setCwd _ | .filealloc | .setFile _ _ _
  | .fileDrop _ => False
  | _ => True

section Terms
variable {α β : Type} {strict : Prop} {Q : α → Books → Prop} {e : Books} {o : FsOp Ptr}

lemma terms_mono (o : FsOp Ptr) (e : Books) (R R' : o.Res → Books → Prop)
    (h : ∀ r e, R r e → R' r e) (hR : terms strict o e R) : terms strict o e R' := by
  cases o
  case iget => exact fun t => h _ _ (hR t)
  case idup => exact ⟨hR.1, h _ _ hR.2⟩
  case decref => exact ⟨hR.1, h _ _ hR.2⟩
  case cwd => exact fun t ht => h _ _ (hR t ht)
  case setCwd => exact h _ _ hR
  case filealloc => exact ⟨h _ _ hR.1, fun f => h _ _ (hR.2 f)⟩
  case setFile => exact ⟨hR.1, h _ _ hR.2⟩
  case fileDrop => exact ⟨h _ _ hR.1, fun x hx => h _ _ (hR.2 x hx)⟩
  all_goals exact fun r => h _ _ (hR r)

lemma keeps_bind {x : CallOn Ptr β} {f : β → CallOn Ptr α}
    (h : Keeps strict (fun b => Keeps strict Q (f b)) x e) : Keeps strict Q (x >>= f) e := by
  rw [Keeps, Prog.obeys_bind]
  exact h

variable {f : o.Res → CallOn Ptr α}

lemma keeps_perform (h : terms strict o e fun r => Keeps strict Q (f r)) :
    Keeps strict Q (perform o >>= f) e :=
  h

lemma keeps_quiet (ho : Quiet o)
    (h : ∀ r, Keeps strict Q (f r) e) : Keeps strict Q (perform o >>= f) e := by
  cases o
  case iget | idup | decref | cwd | setCwd | filealloc | setFile | fileDrop => exact ho.elim
  all_goals exact h

lemma keeps_panicWith {err : Panic} : Keeps strict Q (panicWith err) e :=
  keeps_quiet trivial fun r => nomatch r

end Terms

/-! ### Inodes and directories -/

section Inodes
variable {strict : Prop} {Q : Unit → Books → Prop} {e : Books} {t dp : Ptr}

lemma ilock_keeps (h : Q () e) : Keeps strict Q (ilock t) e := by
  refine keeps_quiet trivial fun ref => ?_
  split
  · exact keeps_panicWith
  · exact fun _ _ => h

lemma iunlock_keeps (h : Q () e) : Keeps strict Q (iunlock t) e := by
  refine keeps_quiet trivial fun held => keeps_quiet trivial fun ref => ?_
  split
  · exact keeps_panicWith
  · exact fun _ => h

lemma ifree_keeps (h : Q () e) : Keeps strict Q (ifree t) e := fun _ _ _ _ _ => h

lemma iputLocked_keeps (h : Q () e) : Keeps strict Q (iputLocked t) e := by
  refine keeps_quiet trivial fun valid => keeps_quiet trivial fun m => ?_
  split
  · refine keeps_quiet trivial fun r => ?_
    split
    · exact ifree_keeps h
    · exact h
  · exact h

lemma iput_keeps (ht : 0 < e.ref t) (h : Q () (e.dropRef t)) : Keeps strict Q (iput t) e :=
  keeps_quiet trivial fun _ => keeps_bind (iputLocked_keeps (fun _ => ⟨ht, h⟩))

lemma iput_addRef (h : Q () e) : Keeps strict Q (iput t) (e.addRef t) :=
  iput_keeps (by simp) (by rwa [Books.dropRef_addRef])

lemma iunlockput_addRef (h : Q () e) : Keeps strict Q (iunlockput t) (e.addRef t) :=
  keeps_bind (iunlock_keeps (iput_addRef h))

lemma addLinks_keeps {d : Int16} (h : Q () e) : Keeps strict Q (addLinks t d) e := fun _ _ _ => h

lemma dirlookup_keeps {name : Name} {Q : Option (Ptr × ℕ) → Books → Prop}
    (h : ∀ r, Q r (e.addRefOf (r.map Prod.fst))) : Keeps strict Q (dirlookup dp name) e := by
  refine keeps_quiet trivial fun m => ?_
  split
  · exact keeps_panicWith
  refine keeps_quiet trivial fun found => ?_
  cases found with
  | none => exact h none
  | some x => exact fun dev t => h (some (t, x.2))

lemma dirlink_keeps {name : Name} {inum : Inum} {Q : ℤ → Books → Prop} (h : ∀ r, Q r e) :
    Keeps strict Q (dirlink dp name inum) e := by
  refine keeps_bind (dirlookup_keeps fun found => ?_)
  rcases found with _ | ⟨t, k⟩
  · exact fun _ => h 0
  · exact keeps_bind (iput_addRef (h (-1)))

end Inodes

/-! ### Paths -/

section Paths
variable {strict : Prop} {Q : Option (Ptr × Name) → Books → Prop} {e : Books} {t : Ptr}
variable {parent : Bool} {path : Path}

lemma walk_keeps {path : List Name} (h : ∀ r, Q r (e.addRefOf (r.map Prod.fst))) :
    Keeps strict Q (walk parent path t) (e.addRef t) := by
  induction path generalizing t with
  | nil =>
    rw [File.walk]
    split
    · exact keeps_bind (iput_addRef (h none))
    · exact h (some (t, []))
  | cons name path ih =>
    refine keeps_bind (ilock_keeps (keeps_quiet trivial fun m => ?_))
    split
    · exact keeps_bind (iunlockput_addRef (h none))
    split
    · exact keeps_bind (iunlock_keeps (h (some (t, name))))
    refine keeps_bind (dirlookup_keeps fun found => ?_)
    rcases found with _ | ⟨next, k⟩
    · exact keeps_bind (iunlockput_addRef (h none))
    change Keeps strict Q _ ((e.addRef t).addRef next)
    rw [Books.addRef_comm]
    exact keeps_bind (iunlockput_addRef ih)

section
variable (he : strict → e.Covered)
include he

lemma pathStart_keeps {Q : Ptr → Books → Prop} (h : ∀ t, Q t (e.addRef t)) : Keeps strict Q
    (pathStart path) e := by
  rw [pathStart]
  split
  · exact h
  refine fun t ht => ⟨fun hstrict => ?_, h t⟩
  exact (ht hstrict).2.trans_le (he hstrict t)

/-- One reference more, to the inode that is returned, and none to any other. -/
lemma namex_keeps (h : ∀ r, Q r (e.addRefOf (r.map Prod.fst))) :
    Keeps strict Q (namex path parent) e :=
  keeps_bind (pathStart_keeps he fun _ => walk_keeps h)

lemma searchPath_keeps {dirs : List Path} (h : ∀ r, Q r (e.addRefOf (r.map Prod.fst))) : Keeps
    strict Q (searchPath path dirs) e := by
  induction dirs with
  | nil => exact h none
  | cons dir dirs ih =>
    rw [searchPath]
    split
    · exact keeps_quiet trivial fun r => nomatch r
    refine keeps_bind (namex_keeps he fun found => ?_)
    cases found with
    | none => exact ih
    | some r => exact h (some r)

end
end Paths

/-! ### Links -/

section Links
variable {Q : ℤ → Books → Prop} {e : Books} {ip dp : Ptr} {name : Name}

lemma sysLinkBad_keeps (h : ∀ r, Q r e) : Keeps True Q (sysLinkBad ip) (e.addRef ip) :=
  keeps_bind (ilock_keeps (keeps_bind (addLinks_keeps (keeps_bind (iunlockput_addRef
    (fun _ => h (-1)))))))

lemma linkEntry_keeps (h : ∀ r, Q r e) : Keeps True Q (linkEntry dp name ip) e := by
  refine keeps_quiet trivial fun dev => keeps_quiet trivial fun dev' => ?_
  split
  · exact h (-1)
  · exact keeps_quiet trivial fun inum => dirlink_keeps h

lemma linkInode_keeps {new : Path} (he : e.Covered) (h : ∀ r, Q r e) :
    Keeps True Q (linkInode ip new) (e.addRef ip) := by
  refine keeps_bind (addLinks_keeps (keeps_bind (iunlock_keeps ?_)))
  refine keeps_bind (namex_keeps (fun _ => he.addRef ip) fun found => ?_)
  rcases found with _ | ⟨dp, name⟩
  · exact sysLinkBad_keeps h
  refine keeps_bind (ilock_keeps (keeps_bind (linkEntry_keeps fun r => ?_)))
  split
  · exact keeps_bind (iunlockput_addRef (sysLinkBad_keeps h))
  · exact keeps_bind (iunlockput_addRef (keeps_bind (iput_addRef (fun _ => h 0))))

lemma sysLink_keeps {old new : Option Path} (he : e.Covered) (h : ∀ r, Q r e) :
    Keeps True Q (sysLink old new) e := by
  rcases old with _ | old
  · exact h (-1)
  rcases new with _ | new
  · exact h (-1)
  refine keeps_quiet trivial fun _ => keeps_bind (namex_keeps (fun _ => he) fun found => ?_)
  rcases found with _ | ⟨ip, _⟩
  · exact fun _ => h (-1)
  refine keeps_bind (ilock_keeps (keeps_quiet trivial fun m => ?_))
  split
  · exact keeps_bind (iunlockput_addRef (fun _ => h (-1)))
  · exact linkInode_keeps he h

lemma sysUnlinkBad_keeps (h : ∀ r, Q r e) : Keeps True Q (sysUnlinkBad dp) (e.addRef dp) :=
  keeps_bind (iunlockput_addRef (fun _ => h (-1)))

variable {type : FileType}

lemma unlinkEntry_keeps {k : ℕ} (h : ∀ r, Q r e) :
    Keeps True Q (unlinkEntry dp ip k type) ((e.addRef dp).addRef ip) := by
  refine keeps_quiet trivial fun _ => keeps_bind ?_
  -- the directory is given back first
  have hrest : Keeps True Q (do
      iunlockput dp
      addLinks ip (-1)
      iunlockput ip
      perform .endOp
      pure 0) ((e.addRef dp).addRef ip) := by
    rw [Books.addRef_comm]
    exact keeps_bind (iunlockput_addRef (keeps_bind (addLinks_keeps (keeps_bind
      (iunlockput_addRef (fun _ => h 0))))))
  split
  · exact addLinks_keeps hrest
  · exact hrest

lemma isFullDir_keeps {Q : Bool → Books → Prop} (h : ∀ b, Q b e) :
    Keeps True Q (isFullDir ip type) e := by
  rw [isFullDir]
  split
  · exact fun isEmpty => h _
  · exact h false

lemma unlinkInode_keeps {k : ℕ} (h : ∀ r, Q r e) :
    Keeps True Q (unlinkInode dp ip k) ((e.addRef dp).addRef ip) := by
  refine keeps_bind (ilock_keeps (keeps_quiet trivial fun m => ?_))
  split
  · exact keeps_panicWith
  refine keeps_bind (isFullDir_keeps fun full => ?_)
  split
  · exact keeps_bind (iunlockput_addRef (sysUnlinkBad_keeps h))
  · exact unlinkEntry_keeps h

lemma sysUnlink_keeps {path : Option Path} (he : e.Covered) (h : ∀ r, Q r e) :
    Keeps True Q (sysUnlink path) e := by
  rcases path with _ | path
  · exact h (-1)
  refine keeps_quiet trivial fun _ => keeps_bind (namex_keeps (fun _ => he) fun found => ?_)
  rcases found with _ | ⟨dp, name⟩
  · exact fun _ => h (-1)
  refine keeps_bind (ilock_keeps ?_)
  split
  · exact sysUnlinkBad_keeps h
  refine keeps_bind (dirlookup_keeps fun found => ?_)
  rcases found with _ | ⟨ip, k⟩
  · exact sysUnlinkBad_keeps h
  · exact unlinkInode_keeps h

end Links

/-! ### New inodes -/

section Creating
variable {e : Books} {ip dp : Ptr} {name : Name} {type : FileType} {major minor : Int16}

lemma createDots_keeps {Q : Unit → Books → Prop} (h : Q () e) :
    Keeps True Q (createDots dp ip) e := by
  refine keeps_bind (addLinks_keeps (keeps_quiet trivial fun inum => ?_))
  refine keeps_bind (dirlink_keeps fun r => ?_)
  split
  · exact keeps_panicWith
  refine keeps_quiet trivial fun inum' => keeps_bind (dirlink_keeps fun r' => ?_)
  split
  · exact keeps_panicWith
  · exact h

variable {Q : Ptr → Books → Prop}

lemma newInode_keeps {dev : ℕ} (h : ∀ t, Q t (e.addRef t)) :
    Keeps True Q (newInode dev type major minor) e :=
  keeps_bind (keeps_quiet trivial fun _ t => keeps_bind (ilock_keeps (fun _ _ _ => h t)))

lemma createNew_keeps (h : ∀ t, Q t (e.addRef t)) :
    Keeps True Q (createNew dp name type major minor) (e.addRef dp) := by
  refine keeps_quiet trivial fun dev => keeps_bind (newInode_keeps fun ip => keeps_bind ?_)
  have hrest : Keeps True Q (do
      let inum ← perform (.inum ip)
      let r ← dirlink dp name inum
      if r < 0 then
        panicWith .createDirlink
      else
        iunlockput dp
        pure ip) ((e.addRef dp).addRef ip) := by
    refine keeps_quiet trivial fun inum => keeps_bind (dirlink_keeps fun r => ?_)
    split
    · exact keeps_panicWith
    rw [Books.addRef_comm]
    exact keeps_bind (iunlockput_addRef (h ip))
  split
  · exact createDots_keeps hrest
  · exact hrest

lemma create_keeps {path : Path} {Q : Option Ptr → Books → Prop} (he : e.Covered)
    (h : ∀ r, Q r (e.addRefOf r)) : Keeps True Q (create path type major minor) e := by
  refine keeps_bind (namex_keeps (fun _ => he) fun found => ?_)
  rcases found with _ | ⟨dp, name⟩
  · exact h none
  refine keeps_bind (ilock_keeps (keeps_bind (dirlookup_keeps fun found => ?_)))
  rcases found with _ | ⟨ip, k⟩
  · exact keeps_bind (createNew_keeps fun ip => h (some ip))
  change Keeps True Q _ ((e.addRef dp).addRef ip)
  rw [Books.addRef_comm]
  refine keeps_bind (iunlockput_addRef (keeps_bind (ilock_keeps ?_)))
  refine keeps_quiet trivial fun m => ?_
  split
  · exact h (some ip)
  · exact keeps_bind (iunlockput_addRef (h none))

lemma makeNode_keeps {path : Option Path} {Q : ℤ → Books → Prop} (he : e.Covered)
    (h : ∀ r, Q r e) : Keeps True Q (makeNode path type major minor) e := by
  refine keeps_quiet trivial fun _ => ?_
  rcases path with _ | path
  · exact fun _ => h (-1)
  refine keeps_bind (create_keeps he fun r => ?_)
  cases r with
  | none => exact fun _ => h (-1)
  | some ip => exact keeps_bind (iunlockput_addRef (fun _ => h 0))

end Creating

/-! ### Files and working directories -/

section Files
variable {e : Books} {f : Fin NFILE} {ip : Ptr} {Q : ℤ → Books → Prop}

lemma fileclose_keeps {Q : Unit → Books → Prop} (he : e.Covered) (h : Q () (e.setFresh none))
    (hdrop : ∀ t, e.fresh ≠ some f → Q () (((e.setFresh none).dropPin t).dropRef t)) :
    Keeps True Q (fileclose f) e := by
  refine keeps_perform ⟨h, fun x hx => ?_⟩
  dsimp only
  split
  next htype =>
    obtain ⟨hfresh, hpin⟩ := hx trivial htype
    refine keeps_quiet trivial fun _ => keeps_bind (iput_keeps ?_ fun _ => hdrop _ hfresh)
    exact hpin.trans_le (he x.ip)
  next => exact h

section
variable (he : e.Balanced) (h : ∀ r e', e'.Balanced → Q r e')
include he h

lemma openInode_keeps {omode : UInt32} : Keeps True Q (openInode ip omode) (e.addRef ip) := by
  refine keeps_perform ⟨?_, fun f => keeps_quiet trivial fun found => ?_⟩
  · exact keeps_bind (iunlockput_addRef (fun _ => h _ e he))
  cases found with
  | none =>
    refine keeps_bind (fileclose_keeps (he.covered.addRef ip) ?_ fun t hf => (hf rfl).elim)
    change Keeps True _ _ ((e.setFresh none).addRef ip)
    exact keeps_bind (iunlockput_addRef (fun _ => h _ _ he))
  | some fd =>
    refine keeps_bind (iunlock_keeps (keeps_quiet trivial fun _ => ⟨rfl, h _ _ ?_⟩))
    exact (he.setFresh none).addRef_addPin ip

variable {path : Option Path}

lemma sysOpen_keeps {omode : UInt32} :
    Keeps True Q (sysOpen path omode) e := by
  rcases path with _ | path
  · exact h _ e he
  refine keeps_quiet trivial fun _ => ?_
  have hbad : Keeps True Q (do perform .endOp; pure (-1)) e := fun _ => h _ e he
  split
  · refine keeps_bind (create_keeps he.covered fun found => ?_)
    cases found with
    | none => exact hbad
    | some ip => exact openInode_keeps he h
  refine keeps_bind (namex_keeps (fun _ => he.covered) fun found => ?_)
  rcases found with _ | ⟨ip, _⟩
  · exact hbad
  refine keeps_bind (ilock_keeps (keeps_quiet trivial fun m => ?_))
  split
  · exact keeps_bind (iunlockput_addRef hbad)
  · exact openInode_keeps he h

lemma sysChdir_keeps : Keeps True Q (sysChdir path) e := by
  have hbad : Keeps True Q (do perform .endOp; pure (-1)) e := fun _ => h _ e he
  rcases path with _ | path
  · exact keeps_quiet trivial fun _ => hbad
  refine keeps_quiet trivial fun _ =>
    keeps_bind (namex_keeps (fun _ => he.covered) fun found => ?_)
  rcases found with _ | ⟨ip, _⟩
  · exact hbad
  refine keeps_bind (ilock_keeps (keeps_quiet trivial fun m => ?_))
  split
  · exact keeps_bind (iunlockput_addRef hbad)
  refine keeps_bind (iunlock_keeps (keeps_perform fun old hold => ?_))
  refine keeps_bind (iput_keeps ?_ ?_)
  · exact (hold trivial).2.trans_le (he.covered.addRef ip old)
  refine fun _ => h _ _ ?_
  exact he.addRef_dropRef_setCwd old ip (hold trivial).1 (hold trivial).2

lemma sysClose_keeps {fd : ℤ} : Keeps True Q (sysClose fd) e := by
  refine keeps_quiet trivial fun found => ?_
  rcases found with _ | ⟨fd, f⟩
  · exact h _ e he
  refine keeps_quiet trivial fun _ => keeps_bind (fileclose_keeps he.covered ?_ fun t _ => ?_)
  · exact h _ _ (he.setFresh none)
  · exact h _ _ ((he.setFresh none).dropPin_dropRef t)

end

lemma closeAll_keeps {fds : List (Fin NOFILE)} {Q : Unit → Books → Prop} (he : e.Balanced)
    (h : ∀ e' : Books, e'.Balanced → Q () e') : Keeps True Q (closeAll fds) e := by
  induction fds generalizing e with
  | nil => exact h e he
  | cons fd fds ih =>
    refine keeps_quiet trivial fun found => ?_
    rcases found with _ | f
    · exact ih he
    refine keeps_bind (fileclose_keeps he.covered ?_ fun t _ => ?_)
    · exact keeps_quiet trivial fun _ => ih (he.setFresh none)
    · exact keeps_quiet trivial fun _ => ih ((he.setFresh none).dropPin_dropRef t)

/-- A process that exits has no working directory any more. -/
lemma exit_keeps (he : e.Balanced) (h : ∀ r e', e'.Balanced → e'.cwd = none → Q r e') :
    Keeps True Q File.exit e := by
  refine keeps_quiet trivial fun isInit => ?_
  split
  · exact keeps_panicWith
  refine keeps_bind (closeAll_keeps he fun e' he' => keeps_quiet trivial fun _ => ?_)
  refine keeps_perform fun cwd hcwd => keeps_bind (iput_keeps ?_ ?_)
  · exact (hcwd trivial).2.trans_le (he'.covered cwd)
  · exact fun _ => h _ _ (he'.dropRef_setCwd cwd (hcwd trivial).1) rfl

lemma exec_keeps {dirs : List Path} {path : Path} {loads fits : Bool} (he : e.Covered)
    (h : ∀ r, Q r e) : Keeps True Q (File.exec dirs path loads fits) e := by
  refine keeps_quiet trivial fun _ => keeps_bind (namex_keeps (fun _ => he) fun found => ?_)
  have hbad : Keeps True Q (do perform .endOp; pure (-1)) e := fun _ => h _
  have hload (ip : Ptr) : Keeps True Q (do
      ilock ip
      if loads then
        iunlockput ip
        perform .endOp
        pure (if fits then 0 else -1)
      else
        iunlockput ip
        perform .endOp
        pure (-1)) (e.addRef ip) := by
    refine keeps_bind (ilock_keeps ?_)
    split <;> exact keeps_bind (iunlockput_addRef (fun _ => h _))
  cases found with
  | none =>
    refine keeps_bind (searchPath_keeps (fun _ => he) fun found => ?_)
    cases found with
    | none => exact hbad
    | some r => exact hload r.1
  | some r => exact hload r.1

end Files

/-- The books are balanced again, and the process is through with its working directory if
it exits. -/
lemma Request.code_keeps {e : Books} (r : File.Request) (he : e.Balanced) :
    Keeps True (fun _ e' => e'.Balanced ∧ (r = .exit → e'.cwd = none)) r.code e := by
  cases r with
  | «open» path omode => exact sysOpen_keeps he fun _ _ he' => ⟨he', nofun⟩
  | mkdir path | mknod path major minor => exact makeNode_keeps he.covered fun _ => ⟨he, nofun⟩
  | link old new => exact sysLink_keeps he.covered fun _ => ⟨he, nofun⟩
  | unlink path => exact sysUnlink_keeps he.covered fun _ => ⟨he, nofun⟩
  | chdir path => exact sysChdir_keeps he fun _ _ he' => ⟨he', nofun⟩
  | close fd => exact sysClose_keeps he fun _ _ he' => ⟨he', nofun⟩
  | exit => exact exit_keeps he fun _ _ he' hcwd => ⟨he', fun _ => hcwd⟩

end Xv6.Icache
