import Xv6.Buffer.Coherent
import Xv6.Lib.Prog
import Xv6.Logging.Commit

/-!
# Users of the buffer cache

Programs that call `bread`, change the data of what they hold, call `log_write`,
`bwrite` and `brelse`; `commit` is one of them. A program keeps to the contract of
the cache if it changes, logs and writes only what it holds, and releases a
buffer that it has changed only after it has logged or written it. Whatever
processes run such programs together, the cache is a plain map for them.

## Implementation notes

A process performs its calls one after the other, each in the steps of the
machine. `commit` takes the log as it is when it starts: nobody changes
`log.lh` during a commit but the commit itself.
-/

namespace Xv6.Buffer.Shared
open Fs Lib Logging Function

/-- What a program can call. -/
inductive Call where
  | bread (id : BlockId)
  /-- Look at the data of a buffer. -/
  | data (i : Fin NBUF)
  | modify (i : Fin NBUF) (d : Block)
  | logWrite (i : Fin NBUF)
  | bwrite (i : Fin NBUF)
  | brelse (i : Fin NBUF)

/-- The calls and their results. -/
def Calls : Signature where
  Op := Call
  Res
    | .bread _ => Fin NBUF
    | .data _ => Block
    | _ => Unit

/-- A program that uses the cache. -/
abbrev Client (α : Type) : Type := Prog Calls α

def bread (id : BlockId) : Client (Fin NBUF) := Prog.perform (S := Calls) (.bread id)

def data (i : Fin NBUF) : Client Block := Prog.perform (S := Calls) (.data i)

def modify (i : Fin NBUF) (d : Block) : Client Unit := Prog.perform (S := Calls) (.modify i d)

def logWrite (i : Fin NBUF) : Client Unit := Prog.perform (S := Calls) (.logWrite i)

def bwrite (i : Fin NBUF) : Client Unit := Prog.perform (S := Calls) (.bwrite i)

def brelse (i : Fin NBUF) : Client Unit := Prog.perform (S := Calls) (.brelse i)

/-! ### The commit -/

/-- The part that the loops of `install_trans` and `write_log` share. -/
def copyTo (src dst : Fin NBUF) : Client Unit := do
  let d ← data src
  modify dst d
  bwrite dst
  brelse src
  brelse dst

/-- A turn of the loop in `install_trans`. -/
def installBlock (l : Log) (block : ℕ × ℕ) : Client Unit := do
  let lbuf ← bread ⟨l.dev, l.start + block.2 + 1⟩
  let dbuf ← bread ⟨l.dev, block.1⟩
  copyTo lbuf dbuf

/-- A turn of the loop in `write_log`. -/
def logBlock (l : Log) (block : ℕ × ℕ) : Client Unit := do
  let lbuf ← bread ⟨l.dev, l.start + block.2 + 1⟩
  let hbuf ← bread ⟨l.dev, block.1⟩
  copyTo hbuf lbuf

/-- `write_head`. -/
def writeHead (l : Log) : Client Unit := do
  let buf ← bread ⟨l.dev, l.start⟩
  let d ← data buf
  modify buf (putHead l.lh d)
  bwrite buf
  brelse buf

/-- `commit`, when the log is `l`. -/
def commit (l : Log) : Client Unit := do
  if 0 < l.lh.length then
    l.lh.zipIdx.forM (logBlock l)
    writeHead l
    l.lh.zipIdx.forM (installBlock l)
    writeHead { l with lh := [] }

/-! ### The contract -/

/-- What a process has done with a buffer that it holds. -/
inductive Care where
  | clean
  | logged
  /-- Changed, and neither logged nor written since. -/
  | owed
  deriving DecidableEq, Repr

/-- A buffer that is logged stays in the cache, so that it may be changed further. -/
def Care.change : Care → Care
  | .logged => .logged
  | _ => .owed

/-- The buffers that a process holds. -/
abbrev Hand : Type := Fin NBUF → Option Care

/-- The contract of each call. -/
def contract : (c : Calls.Op) → Hand → (Calls.Res c → Hand → Prop) → Prop
  | Call.bread _, h, Q => ∀ i : Fin NBUF, h i = none → Q i (update h i (some .clean))
  | Call.data _, h, Q => ∀ d : Block, Q d h
  | Call.modify i _, h, Q => ∃ c, h i = some c ∧ Q () (update h i (some c.change))
  | Call.logWrite i, h, Q => (∃ c, h i = some c) ∧ Q () (update h i (some .logged))
  | Call.bwrite i, h, Q => (∃ c, h i = some c) ∧ Q () (update h i (some .clean))
  | Call.brelse i, h, Q => (∃ c, h i = some c ∧ c ≠ .owed) ∧ Q () (update h i none)

/-- The program keeps to the contract. -/
abbrev Honest {α : Type} (Q : α → Hand → Prop) (x : Client α) (h : Hand) : Prop :=
  x.Obeys contract Q h

section
variable {α β : Type} {h : Hand} {Q : α → Hand → Prop} {i j : Fin NBUF} {l : Log} {c : Care}

lemma bread_honest {id : BlockId} {f : Fin NBUF → Client α}
    (hf : ∀ i, h i = none → Honest Q (f i) (update h i (some .clean))) :
    Honest Q (bread id >>= f) h := hf

lemma data_honest {f : Block → Client α} (hf : ∀ d, Honest Q (f d) h) :
    Honest Q (data i >>= f) h := hf

variable {f : Unit → Client α}

section
variable (hi : h i = some c)
include hi

lemma modify_honest {d : Block} (hf : Honest Q (f ()) (update h i (some c.change))) :
    Honest Q (modify i d >>= f) h := ⟨c, hi, hf⟩

lemma logWrite_honest (hf : Honest Q (f ()) (update h i (some .logged))) :
    Honest Q (logWrite i >>= f) h := ⟨⟨c, hi⟩, hf⟩

lemma bwrite_honest (hf : Honest Q (f ()) (update h i (some .clean))) :
    Honest Q (bwrite i >>= f) h := ⟨⟨c, hi⟩, hf⟩

lemma brelse_honest (hc : c ≠ .owed)
    (hf : Honest Q (f ()) (update h i none)) : Honest Q (brelse i >>= f) h := ⟨⟨c, hi, hc⟩, hf⟩

end

lemma bind_honest {x : Client β} {f : β → Client α}
    (hx : Honest (fun b => Honest Q (f b)) x h) : Honest Q (x >>= f) h := by
  rwa [Honest, Prog.obeys_bind]

end

section
variable {h : Hand} {Q : Unit → Hand → Prop} {i j : Fin NBUF}

lemma copyTo_honest (hij : i ≠ j) (hi : h i = some .clean) (hj : h j = some .clean)
    (hQ : Q () (update (update h i none) j none)) : Honest Q (copyTo i j) h := by
  refine data_honest fun d => modify_honest hj (bwrite_honest (update_self ..) ?_)
  refine brelse_honest (c := .clean) (by simp [hij, hi]) (by decide) ?_
  refine brelse_honest (c := .clean) (by simp [hij.symm]) (by decide) ?_
  change Q () _
  simpa [update_comm hij.symm] using hQ

lemma update_back (hi : h i = none) (hj : update h i (some .clean) j = none) :
    i ≠ j ∧ update (update (update
      (update h i (some .clean)) j (some .clean)) i none) j none = h := by
  have hij : i ≠ j := by
    rintro rfl
    simp at hj
  refine ⟨hij, ?_⟩
  rw [update_of_ne hij.symm] at hj
  ext k : 1
  by_cases hkj : k = j
  · subst hkj
    simp [hj]
  by_cases hki : k = i
  · subst hki
    simp [hkj, hi]
  · simp [hkj, hki]

variable (l : Log) (block : ℕ × ℕ)

lemma installBlock_honest (hQ : Q () h) : Honest Q (installBlock l block) h := by
  refine bread_honest fun i hi => bread_honest fun j hj => ?_
  obtain ⟨hij, hback⟩ := update_back hi hj
  exact copyTo_honest hij (by simp [hij]) (by simp) (by rwa [hback])

lemma logBlock_honest (hQ : Q () h) : Honest Q (logBlock l block) h := by
  refine bread_honest fun i hi => bread_honest fun j hj => ?_
  obtain ⟨hij, hback⟩ := update_back hi hj
  rw [update_comm hij] at hback
  exact copyTo_honest hij.symm (by simp) (by simp [hij]) (by rwa [hback])

lemma writeHead_honest (hQ : Q () h) : Honest Q (writeHead l) h := by
  refine bread_honest fun i hi => data_honest fun d => ?_
  refine modify_honest (update_self ..) (bwrite_honest (update_self ..) ?_)
  refine brelse_honest (c := .clean) (by simp) (by decide) ?_
  have hback : update h i none = h := by simp [hi]
  change Q () _
  simpa [hback] using hQ

lemma forM_honest {β : Type} {f : β → Client Unit}
    (hf : ∀ x {Q : Unit → Hand → Prop} {h : Hand}, Q () h → Honest Q (f x) h) (hQ : Q () h)
    (xs : List β) : Honest Q (xs.forM f) h := by
  induction xs with
  | nil => exact hQ
  | cons x xs ih => exact bind_honest (hf x ih)

lemma commit_honest (hQ : Q () h) : Honest Q (commit l) h := by
  unfold commit
  split
  · refine bind_honest (forM_honest (fun x => logBlock_honest l x) ?_ _)
    refine bind_honest (writeHead_honest l ?_)
    refine bind_honest (forM_honest (fun x => installBlock_honest l x) ?_ _)
    exact writeHead_honest _ hQ
  · exact hQ

end

/-! ### Processes that run programs -/

/-- The machine with the rest of the program of each process. -/
structure World (ι : Type) where
  sys : Sys ι
  prog : ι → Client Unit

/-- The step that starts a call. Nothing happens to the cache when a program looks at data. -/
def Call.op : Call → Option Op
  | .bread id => some (.bread id)
  | .data _ => none
  | .modify i d => some (.modify i d)
  | .logWrite i => some (.logWrite i)
  | .bwrite i => some (.bwrite i)
  | .brelse i => some (.brelse i)

/-- The buffer that a process in a call works on. -/
def Pc.buf : Pc → Fin NBUF
  | .idle => 0
  | .acquiring _ i => i
  | .filling _ i => i
  | .flushing i => i
  | .releasing i => i

/-- The result of the call that process `p` ends. -/
def Sys.result {ι : Type} (s : Sys ι) (p : ι) : (c : Calls.Op) → Calls.Res c
  | Call.bread _ => (s.pc p).buf
  | Call.data i => (s.buf i).data
  | Call.modify _ _ => ()
  | Call.logWrite _ => ()
  | Call.bwrite _ => ()
  | Call.brelse _ => ()

namespace World

variable {ι : Type} (w : World ι) (p : ι)

/-- What process `p` does next, in the call `c`. -/
def op (c : Call) : Option Op := if w.sys.pc p = .idle then c.op else some .next

/-- What a step shows of the blocks. -/
def shows : List (Access BlockId Block) :=
  match w.prog p with
  | .ret _ => []
  | .op c _ =>
    match w.op p c with
    | none => []
    | some o => w.sys.shows (p, o)

end World

namespace World

variable {ι : Type} [DecidableEq ι] (w : World ι) (p : ι)

/-- One step of process `p`. It goes on with its program when the call has ended. -/
def step : Option (World ι) :=
  match w.prog p with
  | .ret _ => none
  | .op c k =>
    let rest := update w.prog p (k (w.sys.result p c))
    match w.op p c with
    | none => some ⟨w.sys, rest⟩
    | some o => (w.sys.step (p, o)).map fun s => ⟨s, if s.pc p = .idle then rest else w.prog⟩

end World

/-! ### Programs that keep to the contract -/

section
variable {ι : Type}

/-- What is known of a buffer that a process holds. -/
def Care.Fits (b : Buf ι) : Care → Prop
  | .clean => b.changed = true → b.dirty = true
  | .logged => b.dirty = true
  | .owed => True

/-- Process `p` holds the buffers of `h`. -/
structure Sys.Grips (s : Sys ι) (p : ι) (h : Hand) : Prop where
  holder : ∀ i, (s.buf i).holder = some p ↔ h i ≠ none
  fits : ∀ i c, h i = some c → c.Fits (s.buf i)

/-- Process `p` is about to run `x` or is in its first call, and the rest keeps to the contract. -/
inductive Sys.Follows (s : Sys ι) (p : ι) : Client Unit → Prop
  | idle {x : Client Unit} {h : Hand} (hpc : s.pc p = .idle) (hx : Honest (fun _ _ => True) x h)
      (hg : s.Grips p h) : Follows s p x
  | acquiring {id id' : BlockId} {i : Fin NBUF} {k : Calls.Res (.bread id') → Client Unit}
      {h : Hand} (hpc : s.pc p = .acquiring id i)
      (hk : ∀ j, h j = none → Honest (fun _ _ => True) (k j) (update h j (some .clean)))
      (hg : s.Grips p h) : Follows s p (.op (.bread id') k)
  | filling {id id' : BlockId} {i : Fin NBUF} {k : Calls.Res (.bread id') → Client Unit}
      {h : Hand} (hpc : s.pc p = .filling id i)
      (hk : Honest (fun _ _ => True) (k i) (update h i (some .clean)))
      (hg : s.Grips p (update h i (some .clean))) : Follows s p (.op (.bread id') k)
  | flushing {i : Fin NBUF} {k : Calls.Res (.bwrite i) → Client Unit} {h : Hand}
      (hpc : s.pc p = .flushing i)
      (hk : Honest (fun _ _ => True) (k ()) (update h i (some .clean)))
      (hi : (s.buf i).holder = some p) (hclean : (s.buf i).changed = false) (hg : s.Grips p h) :
      Follows s p (.op (.bwrite i) k)
  | releasing {i : Fin NBUF} {k : Calls.Res (.brelse i) → Client Unit} {h : Hand}
      (hpc : s.pc p = .releasing i) (hk : Honest (fun _ _ => True) (k ()) h) (hg : s.Grips p h) :
      Follows s p (.op (.brelse i) k)

/-- A step leaves process `r` what it has. -/
structure Sys.Leaves (s s' : Sys ι) (r : ι) : Prop where
  holder : ∀ i, (s'.buf i).holder = some r ↔ (s.buf i).holder = some r
  same : ∀ i, (s.buf i).holder = some r →
    (s'.buf i).changed = (s.buf i).changed ∧ (s'.buf i).dirty = (s.buf i).dirty

variable {s s' : Sys ι} {p r : ι} {i : Fin NBUF} {b : Buf ι} {h : Hand} {x : Client Unit}

lemma Sys.Leaves.set (hbuf : s'.buf = update s.buf i b)
    (hholder : b.holder = some r ↔ (s.buf i).holder = some r) (hsame : (s.buf i).holder = some r →
      b.changed = (s.buf i).changed ∧ b.dirty = (s.buf i).dirty) : s.Leaves s' r := by
  constructor
  · intro j
    rw [hbuf]
    by_cases hji : j = i
    · subst hji
      rwa [update_self]
    · rw [update_of_ne hji]
  intro j hj
  rw [hbuf]
  by_cases hji : j = i
  · subst hji
    rw [update_self]
    exact hsame hj
  · rw [update_of_ne hji]
    exact ⟨rfl, rfl⟩

lemma Sys.Grips.leaves (hg : s.Grips r h) (hl : s.Leaves s' r) : s'.Grips r h := by
  refine ⟨fun i => (hl.holder i).trans (hg.holder i), fun i c hc => ?_⟩
  have hi := (hg.holder i).mpr (by simp [hc])
  obtain ⟨hchanged, hdirty⟩ := hl.same i hi
  have hfits := hg.fits i c hc
  cases c with
  | clean => rwa [Care.Fits, hchanged, hdirty]
  | logged => rwa [Care.Fits, hdirty]
  | owed => trivial

lemma Sys.Grips.set {o : Option Care} (hg : s.Grips p h)
    (hbuf : s'.buf = update s.buf i b) (hholder : b.holder = some p ↔ o ≠ none)
    (hfits : ∀ c, o = some c → c.Fits b) : s'.Grips p (update h i o) := by
  constructor
  · intro j
    rw [hbuf]
    by_cases hji : j = i
    · subst hji
      simpa using hholder
    · rw [update_of_ne hji, update_of_ne hji]
      exact hg.holder j
  intro j c hc
  rw [hbuf]
  by_cases hji : j = i
  · subst hji
    rw [update_self] at hc ⊢
    exact hfits c hc
  · rw [update_of_ne hji] at hc ⊢
    exact hg.fits j c hc

lemma Sys.Follows.leaves (hx : s.Follows r x) (hpc : s'.pc r = s.pc r) (hl : s.Leaves s' r) :
    s'.Follows r x := by
  cases hx with
  | idle hp hx hg => exact .idle (hpc.trans hp) hx (hg.leaves hl)
  | acquiring hp hk hg => exact .acquiring (hpc.trans hp) hk (hg.leaves hl)
  | filling hp hk hg => exact .filling (hpc.trans hp) hk (hg.leaves hl)
  | flushing hp hk hi hclean hg =>
    exact .flushing (hpc.trans hp) hk ((hl.holder _).mpr hi) ((hl.same _ hi).1.trans hclean)
      (hg.leaves hl)
  | releasing hp hk hg => exact .releasing (hpc.trans hp) hk (hg.leaves hl)

lemma Sys.Follows.of_idle (hx : s.Follows p x) (hpc : s.pc p = .idle) :
    ∃ h, Honest (fun _ _ => True) x h ∧ s.Grips p h := by
  cases hx with
  | idle _ hx hg => exact ⟨_, hx, hg⟩
  | acquiring hp | filling hp | flushing hp | releasing hp => simp [hpc] at hp

/-- The process goes on with its program when its call has ended. -/
structure Sys.GoesOn (s s' : Sys ι) (p : ι) (c : Call) (k : Calls.Res c → Client Unit) : Prop where
  ended : s'.pc p = .idle → s'.Follows p (k (s.result p c))
  busy : s'.pc p ≠ .idle → s'.Follows p (.op c k)

variable {o : Op}

variable {c : Call}

lemma Sys.Follows.careful {k : Calls.Res c → Client Unit}
    (hx : s.Follows p (.op c k)) (hpc : s.pc p = .idle) (ho : c.op = some o) :
    s.Careful (p, o) := by
  obtain ⟨h, hx, hg⟩ := hx.of_idle hpc
  have hheld : ∀ {i c}, h i = some c → (s.buf i).holder = some p := fun hc =>
    (hg.holder _).mpr (by simp [hc])
  cases c with
  | data i => cases ho
  | bread id | bwrite i =>
    cases ho
    trivial
  | modify i d =>
    cases ho
    obtain ⟨c, hc, -⟩ := hx
    exact hheld hc
  | logWrite i =>
    cases ho
    obtain ⟨⟨c, hc⟩, -⟩ := hx
    exact hheld hc
  | brelse i =>
    cases ho
    obtain ⟨⟨c, hc, howed⟩, -⟩ := hx
    have hfits := hg.fits i c hc
    cases c with
    | clean => exact hfits
    | logged => exact fun _ => hfits
    | owed => exact absurd rfl howed

lemma Sys.Grips.transfer {d : Block} (hg : s.Grips p h)
    (hbuf : s'.buf = update s.buf i ((s.buf i).transfer d))
    (hi : (s.buf i).holder = some p) (hclean : (s.buf i).changed = false) :
    s'.Grips p (update h i (some .clean)) := by
  refine hg.set hbuf (by simp [hi]) fun c hc => ?_
  cases hc
  intro hchanged
  simp [hclean] at hchanged

variable [DecidableEq ι]

lemma Moved.leaves [Fintype ι] (hm : Moved s (p, o) s') (hok : s.Careful (p, o))
    (hs : s.Sound) (hr : r ≠ p) : s.Leaves s' r := by
  -- the buffer that changes is in the hands of `p`
  have hmine : ∀ {i}, (s.buf i).holder = some p → (s.buf i).holder ≠ some r := by
    intro i hi heq
    exact hr (Option.some.inj (heq.symm.trans hi))
  cases hm with
  | hit => exact .set rfl Iff.rfl fun _ => ⟨rfl, rfl⟩
  | recycle hpc hnone hfind =>
    obtain ⟨hholder, -⟩ := hs.recyclable hfind
    exact .set rfl Iff.rfl fun hi => by simp [hholder] at hi
  | lock hpc hfree =>
    refine .set rfl ?_ fun hi => by simp [hfree] at hi
    simp [hfree, Ne.symm hr]
  | transfer hpc =>
    have hi := hmine (hs.placed.holder hpc)
    exact .set (Sys.iderw_buf ..) Iff.rfl fun heq => absurd heq hi
  | unref => exact .set (Sys.unref_buf ..) Iff.rfl fun _ => ⟨rfl, rfl⟩
  | modify | logWrite => exact .set rfl Iff.rfl fun heq => absurd heq (hmine hok)
  | bwrite hpc hi => exact .set rfl Iff.rfl fun heq => absurd heq (hmine hi)
  | brelse hpc hi =>
    refine .set rfl ?_ fun heq => absurd heq (hmine hi)
    simp [hmine hi]

lemma Moved.pc_eq (hm : Moved s (p, o) s') (hr : r ≠ p) : s'.pc r = s.pc r := by
  cases hm with
  | transfer => rw [Sys.setPc_pc, update_of_ne hr, Sys.iderw_pc]
  | unref => rw [Sys.setPc_pc, update_of_ne hr, Sys.unref_pc]
  | modify | logWrite => rfl
  | hit | recycle | lock | bwrite | brelse => exact update_of_ne hr ..

lemma Sys.Follows.call [Fintype ι] {k : Calls.Res c → Client Unit}
    (hx : s.Follows p (.op c k)) (hpc : s.pc p = .idle) (ho : c.op = some o)
    (hm : Moved s (p, o) s') (hs : s.Sound) : s.GoesOn s' p c k := by
  obtain ⟨h, hx, hg⟩ := hx.of_idle hpc
  have hheld : ∀ {i c}, h i = some c → (s.buf i).holder = some p := fun hc =>
    (hg.holder _).mpr (by simp [hc])
  cases c with
  | data i => cases ho
  | bread id =>
    cases ho
    cases hm with
    | hit =>
      refine ⟨fun hidle => by simp at hidle, fun _ => ?_⟩
      refine .acquiring (update_self ..) hx ?_
      exact hg.leaves (.set rfl Iff.rfl fun _ => ⟨rfl, rfl⟩)
    | recycle _ _ hfind =>
      obtain ⟨hholder, -⟩ := hs.recyclable hfind
      refine ⟨fun hidle => by simp at hidle, fun _ => ?_⟩
      refine .acquiring (update_self ..) hx ?_
      exact hg.leaves (.set rfl Iff.rfl fun hi => by simp [hholder] at hi)
  | modify i d =>
    cases ho
    obtain ⟨c, hc, hk⟩ := hx
    cases hm with
    | modify =>
      refine ⟨fun _ => ?_, fun hne => absurd hpc hne⟩
      refine .idle hpc hk (hg.set rfl (by simp [hheld hc]) ?_)
      intro c' hc'
      obtain rfl := Option.some.inj hc'
      have hfits := hg.fits i c hc
      cases c with
      | clean | owed => trivial
      | logged => exact hfits
  | logWrite i =>
    cases ho
    obtain ⟨⟨c, hc⟩, hk⟩ := hx
    cases hm with
    | logWrite =>
      refine ⟨fun _ => ?_, fun hne => absurd hpc hne⟩
      refine .idle hpc hk (hg.set rfl (by simp [hheld hc]) ?_)
      intro c' hc'
      obtain rfl := Option.some.inj hc'
      rfl
  | bwrite i =>
    cases ho
    obtain ⟨⟨c, hc⟩, hk⟩ := hx
    cases hm with
    | bwrite =>
      refine ⟨fun hidle => by simp at hidle, fun _ => ?_⟩
      refine .flushing (h := update h i (some .logged)) (update_self ..) ?_
        ?_ ?_ (hg.set rfl (by simp [hheld hc]) fun c' hc' => ?_)
      · rwa [update_idem]
      · simp [hheld hc]
      · simp
      · obtain rfl := Option.some.inj hc'
        rfl
  | brelse i =>
    cases ho
    obtain ⟨⟨c, hc, howed⟩, hk⟩ := hx
    cases hm with
    | brelse =>
      refine ⟨fun hidle => by simp at hidle, fun _ => ?_⟩
      exact .releasing (update_self ..) hk (hg.set rfl (by simp) (by simp))

lemma Sys.Follows.next {map : BlockId → Block} {k : Calls.Res c → Client Unit}
    (hx : s.Follows p (.op c k)) (hpc : s.pc p ≠ .idle) (hm : Moved s (p, .next) s')
    (hf : s.Filled) (hc : s.Coherent map) : s.GoesOn s' p c k := by
  cases hx with
  | idle hidle => exact absurd hidle hpc
  | @acquiring id id' i k h hp hk hg =>
    cases hm with
    | @lock _ _ j hp' hfree =>
      obtain ⟨rfl, rfl⟩ := Pc.acquiring.inj (hp.symm.trans hp')
      have hnone : h i = none := by
        by_contra hsome
        have hi := (hg.holder i).mpr hsome
        simp [hfree] at hi
      have hg' : ((s.setBuf i ((s.buf i).lock p)).setPc p
          (if (s.buf i).valid then .idle else .filling id i)).Grips p (update h i (some .clean)) :=
        hg.set rfl (by simp) fun c hclean =>
          Option.some.inj hclean ▸ (hc.settled i).free hfree
      refine ⟨fun hidle => ?_, fun hbusy => ?_⟩
      · change Sys.Follows _ p (k (s.pc p).buf)
        rw [hp]
        exact .idle hidle (hk i hnone) hg'
      have hfill : ((s.setBuf i ((s.buf i).lock p)).setPc p
          (if (s.buf i).valid then .idle else .filling id i)).pc p = .filling id i := by
        cases hv : (s.buf i).valid with
        | true => simp [hv] at hbusy
        | false => simp
      exact .filling hfill (hk i hnone) hg'
    | transfer hp' | unref hp' => simp [hp] at hp'
  | @filling id id' i k h hp hk hg =>
    cases hm with
    | lock hp' | unref hp' => simp [hp] at hp'
    | @transfer _ j hp' =>
      obtain rfl : i = j := by simpa [hp] using hp'
      have hinvalid := hf.filling p id i hp
      have hclean : (s.buf i).changed = false := by
        by_contra hchanged
        have hdirty := hg.fits i .clean (update_self ..) (by simpa using hchanged)
        have hvalid := (hc.settled i).dirty hdirty
        simp [hinvalid] at hvalid
      have hi := (hg.holder i).mpr (by simp)
      have hg' := hg.transfer (s.iderw_buf i) hi hclean
      rw [update_idem] at hg'
      refine ⟨fun hidle => ?_, fun hbusy => by simp at hbusy⟩
      change Sys.Follows _ p (k (s.pc p).buf)
      rw [hp]
      exact .idle hidle hk ⟨hg'.holder, hg'.fits⟩
  | @flushing i k h hp hk hi hclean hg =>
    cases hm with
    | lock hp' => simp [hp] at hp'
    | @transfer _ j hp' =>
      obtain rfl : i = j := by simpa [hp] using hp'
      refine ⟨fun hidle => .idle hidle hk ?_, fun hbusy => by simp at hbusy⟩
      exact hg.transfer (s.iderw_buf i) hi hclean
    | unref hp' => simp [hp] at hp'
  | @releasing i k h hp hk hg =>
    cases hm with
    | lock hp' | transfer hp' => simp [hp] at hp'
    | unref hp' =>
      refine ⟨fun hidle => .idle hidle hk (hg.leaves ?_), fun hbusy => by simp at hbusy⟩
      exact .set (Sys.unref_buf ..) Iff.rfl fun _ => ⟨rfl, rfl⟩

end

/-! ### Runs -/

section
variable {ι : Type} {w w' : World ι} {p : ι}

lemma World.op_eq_none {c : Call} (h : w.op p c = none) :
    ∃ i, c = .data i ∧ w.sys.pc p = .idle := by
  unfold World.op at h
  split at h
  · rename_i hpc
    cases c with
    | data i => exact ⟨i, rfl, hpc⟩
    | bread | modify | logWrite | bwrite | brelse => cases h
  · cases h

variable [DecidableEq ι]

lemma World.step_cases (h : w.step p = some w') :
    ∃ (c : Call) (k : Calls.Res c → Client Unit), w.prog p = .op c k ∧
      (w.op p c = none ∧ w.shows p = [] ∧ w' = ⟨w.sys, update w.prog p (k (w.sys.result p c))⟩ ∨
        ∃ o s, w.op p c = some o ∧ w.shows p = w.sys.shows (p, o) ∧ w.sys.step (p, o) = some s ∧
          w' = ⟨s, if s.pc p = .idle then update w.prog p (k (w.sys.result p c)) else w.prog⟩) := by
  unfold World.step at h
  split at h
  · cases h
  rename_i c k hprog
  refine ⟨c, k, hprog, ?_⟩
  simp only [World.shows, hprog]
  rcases hop : w.op p c with _ | o
  · rw [hop] at h
    exact .inl ⟨rfl, rfl, (Option.some.inj h).symm⟩
  rw [hop] at h
  obtain ⟨s, hs, rfl⟩ := Option.map_eq_some_iff.mp h
  exact .inr ⟨o, s, rfl, rfl, hs, rfl⟩

variable [Fintype ι] {d : BlockId → Block} {es : List (Access BlockId Block)}

/-- The cache is a plain map so far, and the processes keep to the contract. -/
structure World.Good (d : BlockId → Block) (es : List (Access BlockId Block)) (w : World ι) :
    Prop where
  refines : w.sys.Refines d es
  follows : ∀ p, w.sys.Follows p (w.prog p)

lemma World.Good.step (h : w.Good d es) (hstep : w.step p = some w') :
    w'.Good d (es ++ w.shows p) := by
  obtain ⟨href, hfollows⟩ := h
  obtain ⟨c, k, hprog, hcase⟩ := World.step_cases hstep
  have hx := hfollows p
  rw [hprog] at hx
  obtain ⟨hop, hshows, rfl⟩ | ⟨o, s, hop, hshows, hs, rfl⟩ := hcase
  · rw [hshows, List.append_nil]
    refine ⟨href, fun r => ?_⟩
    by_cases hr : r = p
    · subst hr
      obtain ⟨i, rfl, hpc⟩ := World.op_eq_none hop
      obtain ⟨h, hk, hg⟩ := hx.of_idle hpc
      have hgoes : w.sys.Follows r (k (w.sys.buf i).data) := .idle hpc (hk _) hg
      simp only [update_self]
      exact hgoes
    · simpa [hr] using hfollows r
  rw [hshows]
  have hm := Moved.of_step hs
  obtain ⟨hcareful, hgo⟩ : w.sys.Careful (p, o) ∧ w.sys.GoesOn s p c k := by
    by_cases hpc : w.sys.pc p = .idle
    · rw [World.op, if_pos hpc] at hop
      exact ⟨hx.careful hpc hop, hx.call hpc hop hm href.sound⟩
    rw [World.op, if_neg hpc] at hop
    cases hop
    exact ⟨trivial, hx.next hpc hm href.filled href.coherent⟩
  refine ⟨href.step hcareful hs, fun r => ?_⟩
  by_cases hr : r = p
  · subst hr
    by_cases hidle : s.pc r = .idle
    · simpa [hidle] using hgo.ended hidle
    · simpa [hidle, hprog] using hgo.busy hidle
  · have hother := (hfollows r).leaves (hm.pc_eq hr) (hm.leaves hcareful href.sound hr)
    split <;> simpa [hr] using hother

lemma World.Good.of_emits {prog : ι → Client Unit}
    (hprog : ∀ p, Honest (fun _ _ => True) (prog p) fun _ => none)
    (h : Emits World.step (fun _ _ => True) World.shows ⟨Sys.init d, prog⟩ es w) : w.Good d es := by
  induction h with
  | refl =>
    refine ⟨Sys.Refines.init d, fun p => .idle rfl (hprog p) ⟨?_, ?_⟩⟩
    · simp [Sys.init]
    · simp
  | tail _ _ hstep ih => exact ih.step hstep

/-- The cache over the disk is a plain map for processes that keep to the contract, among them
those that commit: what `bread` returns is what was last left in the block. -/
theorem cache_refines_disk {prog : ι → Client Unit}
    (hprog : ∀ p, Honest (fun _ _ => True) (prog p) fun _ => none)
    (h : Emits World.step (fun _ _ => True) World.shows ⟨Sys.init d, prog⟩ es w) :
    ReadsLast d es ∧ ∀ (l : Log) (h : Hand), Honest (fun _ h' => h' = h) (commit l) h :=
  ⟨(World.Good.of_emits hprog h).refines.reads, fun l _ => commit_honest l rfl⟩

/-- Fill a block with ones, log it and commit. -/
def fillBlock (l : Log) (id : BlockId) : Client Unit := do
  let i ← bread id
  modify i fun _ => 1
  logWrite i
  brelse i
  commit l

lemma fillBlock_honest (l : Log) (id : BlockId) :
    Honest (fun _ _ => True) (fillBlock l id) fun _ => none := by
  refine bread_honest fun i _ => modify_honest (update_self ..) ?_
  refine logWrite_honest (update_self ..) ?_
  exact brelse_honest (update_self ..) (by decide) (commit_honest l trivial)

/-- A process fills a block and commits, and then another one reads it. -/
theorem fillBlock_refines_disk : ∃ (es : List (Access BlockId Block)) (w : World (Fin 2)),
      (Emits World.step (fun _ _ => True) World.shows
        ⟨Sys.init fun _ _ => 0, fun _ => fillBlock ⟨2, 30, 0, true, 1, [50]⟩ ⟨1, 50⟩⟩ es w ∧
        es.length = 15) ∧
      ReadsLast (fun _ _ => 0) es ∧
        ∀ (l : Log) (h : Hand), Honest (fun _ h' => h' = h) (commit l) h := by
  obtain ⟨es, w, h, hlen⟩ := exists_of_emitAll World.step World.shows
    ⟨Sys.init fun _ _ => 0, fun _ : Fin 2 => fillBlock ⟨2, 30, 0, true, 1, [50]⟩ ⟨1, 50⟩⟩
    (List.replicate 49 0 ++ [1, 1]) (fun es => es.length = 15) (by decide +kernel)
  exact ⟨es, w, ⟨h, hlen⟩, cache_refines_disk (fun _ => fillBlock_honest _ _) h⟩

end
end Xv6.Buffer.Shared
