import Xv6.Syscall.Pointers
import Xv6.Vm.Memory

/-!
# System calls and the memory of their caller

What a system call reads and writes behind a pointer lies between the pointer and the
number of bytes that the call has to do with. `argptr` makes sure that these bytes
belong to the process, and `sys_get_time` asks it for too few of them. The first
argument is looked for at `esp + 4`, which may wrap.
-/

namespace Xv6.Syscall
open Fs Lib Exec List UInt32

/-- No addition wraps, and every byte is one of the process. -/
def Event.Safe (sz : UInt32) : Event → Prop
  | .sum a b => a.toNat + b.toNat < 2 ^ 32
  | .touch a => a < sz

/-- The code has touched nothing but some of the `n` bytes from `a` on. -/
structure Touched (a : UInt32) (n : ℕ) (s s' : State) : Prop where
  sz : s'.sz = s.sz
  esp : s'.esp = s.esp
  trace : ∃ es, s'.trace = s.trace ++ es ∧ ∀ e ∈ es, ∃ i < n, e = .touch (a + UInt32.ofNat i)

section Touched
variable {a : UInt32} {m n : ℕ} {s s₁ s₂ : State}

lemma Touched.refl : Touched a n s s := ⟨rfl, rfl, [], by simp, nofun⟩

lemma Touched.trans (h₁ : Touched a n s s₁) (h₂ : Touched a n s₁ s₂) : Touched a n s s₂ := by
  obtain ⟨es₁, htrace₁, hes₁⟩ := h₁.trace
  obtain ⟨es₂, htrace₂, hes₂⟩ := h₂.trace
  refine ⟨h₂.sz.trans h₁.sz, h₂.esp.trans h₁.esp, es₁ ++ es₂,
    by rw [htrace₂, htrace₁, append_assoc], ?_⟩
  intro e he
  rcases mem_append.mp he with he | he
  · exact hes₁ e he
  · exact hes₂ e he

lemma Touched.shift {k : ℕ} (h : Touched (a + UInt32.ofNat m) k s s₁) (hle : m + k ≤ n) :
    Touched a n s s₁ := by
  obtain ⟨es, htrace, hes⟩ := h.trace
  refine ⟨h.sz, h.esp, es, htrace, fun e he => ?_⟩
  obtain ⟨i, hi, rfl⟩ := hes e he
  refine ⟨m + i, by omega, ?_⟩
  rw [UInt32.ofNat_add, UInt32.add_assoc]

lemma Touched.mono (h : Touched a m s s₁) (hle : m ≤ n) : Touched a n s s₁ := by
  obtain ⟨es, htrace, hes⟩ := h.trace
  refine ⟨h.sz, h.esp, es, htrace, fun e he => ?_⟩
  obtain ⟨i, hi, rfl⟩ := hes e he
  exact ⟨i, by omega, rfl⟩

/-- The code touches nothing but some of the `n` bytes from `a` on. -/
abbrev Touches {α : Type} (x : Code α) (a : UInt32) (n : ℕ) : Prop :=
  ∀ s, wp x (fun _ => Touched a n s) (fun _ => Touched a n s) s

variable {α β : Type} {x : Code α} {f : α → Code β}

lemma touches_pure {b : α} : Touches (pure b) a n := fun _ => Touched.refl

lemma touches_bind (hx : Touches x a n) (hf : ∀ b, Touches (f b) a n) :
    Touches (x >>= f) a n := by
  intro s
  refine wp_seq (hx s) fun b s₁ h₁ => ?_
  exact wp_mono (hf b s₁) (fun _ _ h₂ => h₁.trans h₂) fun _ _ h₂ => h₁.trans h₂

lemma Touches.shift {k : ℕ} (h : Touches x (a + ofNat m) k) (hle : m + k ≤ n) : Touches x a n :=
  fun s => wp_mono (h s) (fun _ _ h => h.shift hle) fun _ _ h => h.shift hle

lemma Touches.mono (h : Touches x a m) (hle : m ≤ n) : Touches x a n :=
  fun s => wp_mono (h s) (fun _ _ h => h.mono hle) fun _ _ h => h.mono hle

lemma load_touches : Touches (load a) a 1 := by
  intro s
  exact ⟨rfl, rfl, [.touch a], rfl, fun e he => ⟨0, Nat.one_pos, by simpa using he⟩⟩

lemma store_touches {b : UInt8} : Touches (store a b) a 1 := by
  intro s
  exact ⟨rfl, rfl, [.touch a], rfl, fun e he => ⟨0, Nat.one_pos, by simpa using he⟩⟩

lemma loadAll_touches (n : ℕ) : Touches (loadAll n a) a n := by
  induction n generalizing a with
  | zero => exact touches_pure
  | succ n ih =>
    refine touches_bind (load_touches.mono (by omega)) fun b => ?_
    exact touches_bind (ih.shift (m := 1) (by omega)) fun _ => touches_pure

lemma storeAll_touches (bs : List UInt8) : Touches (storeAll bs a) a bs.length := by
  induction bs generalizing a with
  | nil => exact touches_pure
  | cons b bs ih =>
    refine touches_bind (store_touches.mono (by simp)) fun _ => ?_
    exact ih.shift (by simp [Nat.add_comm])

end Touched

/-! ### Reading and writing -/

section Files
variable {a : UInt32} {n : Int32}

lemma piperead_touches {p : Pipe} : Touches (piperead p a n) a n.toNatClampNeg := by
  rw [piperead]
  rcases p.bytes with _ | bytes
  · exact touches_pure
  refine touches_bind ((storeAll_touches _).mono ?_) fun _ => touches_pure
  exact length_take_le _ _

lemma pipewrite_touches {p : Pipe} : Touches (pipewrite p a n) a n.toNatClampNeg := by
  refine touches_bind ((loadAll_touches _).mono (Nat.min_le_right _ _)) fun _ => ?_
  split <;> exact touches_pure

lemma consolereadLoop_touches (cs : List UInt8) (left : ℕ) :
    Touches (consolereadLoop cs left a) a left := by
  induction cs generalizing a left with
  | nil => cases left <;> exact touches_pure
  | cons c cs ih =>
    rcases left with _ | left
    · exact touches_pure
    rw [consolereadLoop]
    split
    · exact touches_pure
    refine touches_bind (store_touches.mono (by omega)) fun _ => ?_
    split
    · exact touches_pure
    · exact (ih left).shift (m := 1) (by omega)

variable {ip : Inode} {off w : UInt32}

lemma consoleread_touches : Touches (consoleread ip a n) a n.toNatClampNeg := by
  refine touches_bind (consolereadLoop_touches _ _) fun left => ?_
  cases left <;> exact touches_pure

lemma consolewrite_touches : Touches (consolewrite a n) a n.toNatClampNeg :=
  touches_bind (loadAll_touches _) fun _ => touches_pure

lemma readiLoop_touches (ip : Inode) (left off : ℕ) :
    Touches (readiLoop ip left off a) a left := by
  induction left, off, a using readiLoop.induct with
  | case1 off a =>
    rw [readiLoop, if_pos rfl]
    exact touches_pure
  | case2 left off a hleft m ih =>
    rw [readiLoop, if_neg hleft]
    have hm : m ≤ left := Nat.min_le_left _ _
    refine touches_bind ((storeAll_touches _).mono (by rwa [length_map, length_range])) fun _ => ?_
    exact ih.shift (by omega)

lemma writeiLoop_touches (left off : ℕ) : Touches (writeiLoop left off a) a left := by
  induction left, off, a using writeiLoop.induct with
  | case1 off a =>
    rw [writeiLoop, if_pos rfl]
    exact touches_pure
  | case2 left off a hleft m ih =>
    rw [writeiLoop, if_neg hleft]
    have hm : m ≤ left := Nat.min_le_left _ _
    refine touches_bind ((loadAll_touches _).mono hm) fun _ => ?_
    exact ih.shift (by omega)

lemma toNatClampNeg_toInt32_le (w : UInt32) : w.toInt32.toNatClampNeg ≤ w.toNat := by
  have hint : w.toInt32.toInt = w.toBitVec.toInt := rfl
  have hnat : w.toBitVec.toNat = w.toNat := rfl
  have hlt := w.toNat_lt
  rw [Int32.toNatClampNeg, hint, BitVec.toInt_eq_toNat_cond]
  split <;> omega

lemma toNat_toUInt32 (hn : 0 ≤ n) : n.toUInt32.toNat = n.toNatClampNeg := by
  have hpos : 0 ≤ n.toInt := by simpa using Int32.le_iff_toInt_le.mp hn
  have hint : n.toInt = n.toUInt32.toBitVec.toInt := rfl
  have hnat : n.toUInt32.toBitVec.toNat = n.toUInt32.toNat := rfl
  have hlt := n.toUInt32.toNat_lt
  rw [Int32.toNatClampNeg, hint]
  rw [hint] at hpos
  rw [BitVec.toInt_eq_toNat_cond] at hpos ⊢
  split at hpos <;> omega

lemma readi_touches : Touches (readi ip a off w) a w.toNat := by
  rw [readi]
  split
  · split
    · exact consoleread_touches.mono (toNatClampNeg_toInt32_le w)
    · exact touches_pure
  split
  · exact touches_pure
  next hin =>
    refine touches_bind ((readiLoop_touches _ _ _).mono ?_) fun _ => touches_pure
    split
    next hshort =>
      have hle : off ≤ ip.size := UInt32.not_lt.mp (not_or.mp hin).1
      have hlt := lt_iff_toNat_lt.mp hshort
      rw [UInt32.toNat_add] at hlt
      rw [UInt32.toNat_sub_of_le _ _ hle]
      omega
    next => exact Nat.le_refl _

lemma writei_touches : Touches (writei ip a off w) a w.toNat := by
  rw [writei]
  split
  · split
    · exact consolewrite_touches.mono (toNatClampNeg_toInt32_le w)
    · exact touches_pure
  split
  · exact touches_pure
  split
  · exact touches_pure
  · exact touches_bind (writeiLoop_touches _ _) fun _ => touches_pure

lemma touches_stop {α : Type} {e : Panic} {k : ℕ} : Touches (Exec.stop e : Code α) a k :=
  fun _ => Touched.refl

variable {f : OpenFile}

lemma fileread_touches (hn : 0 ≤ n) : Touches (fileread f a n) a n.toNatClampNeg := by
  rw [fileread]
  split
  · exact touches_pure
  cases f.object with
  | none => exact touches_stop
  | pipe p => exact piperead_touches
  | inode ip =>
    have hread : Touches (readi ip a f.off n.toUInt32) a n.toUInt32.toNat := readi_touches
    rwa [toNat_toUInt32 hn] at hread

lemma filewriteLoop_touches (ip : Inode) (left : ℕ) (off : UInt32) :
    Touches (filewriteLoop ip left a off) a left := by
  induction ip, left, a, off using filewriteLoop.induct with
  | case1 ip a off =>
    rw [filewriteLoop, if_pos rfl]
    exact touches_pure
  | case2 ip left a off hleft n1 ih =>
    rw [filewriteLoop, if_neg hleft]
    have hmax : n1 ≤ maxWrite := Nat.min_le_right _ _
    have hword := toNat_ofNat_of_lt' (Nat.lt_of_le_of_lt hmax (by decide))
    have hle : n1 ≤ left := Nat.min_le_left _ _
    refine touches_bind (writei_touches.mono (by rw [hword]; exact hle)) fun r => ?_
    split
    · exact touches_pure
    split
    · exact touches_stop
    · exact ih.shift (by omega)

lemma filewrite_touches : Touches (filewrite f a n) a n.toNatClampNeg := by
  rw [filewrite]
  split
  · exact touches_pure
  cases f.object with
  | none => exact touches_stop
  | pipe p => exact pipewrite_touches
  | inode ip => exact touches_bind (filewriteLoop_touches _ _ _) fun _ => touches_pure

lemma filestat_touches : Touches (filestat f a) a 20 := by
  have hfield (bs : List UInt8) (m : ℕ) (hm : m + bs.length ≤ 20) :
      Touches (storeAll bs (a + ofNat m)) a 20 := (storeAll_touches bs).shift hm
  rw [filestat]
  cases f.object with
  | none | pipe => exact touches_pure
  | inode ip =>
    refine touches_bind ?_ fun _ => touches_pure
    refine touches_bind (hfield _ 4 (by simp [bytesOf])) fun _ => ?_
    refine touches_bind (hfield _ 8 (by simp [bytesOf])) fun _ => ?_
    refine touches_bind ((storeAll_touches _).mono (by simp [shortBytes, bytesOf])) fun _ => ?_
    refine touches_bind (hfield _ 12 (by simp [shortBytes, bytesOf])) fun _ => ?_
    exact hfield _ 16 (by simp [bytesOf])

lemma cmostime_touches {t1 : Rtcdate} : Touches (cmostime t1 a) a 24 := by
  refine touches_bind ((storeAll_touches _).mono (by simp [bytesOf])) fun _ => ?_
  refine touches_bind ((loadAll_touches (a := a + ofNat 20) 4).shift (by omega)) fun year => ?_
  exact (storeAll_touches _).shift (by simp [bytesOf])

end Files

/-! ### Arguments -/

/-- Whatever is in the trace is safe. -/
def State.Good (s : State) : Prop := ∀ e ∈ s.trace, e.Safe s.sz

section Arguments
variable {s s' : State} {a : UInt32} {n : ℕ}

lemma State.Good.touched (hs : s.Good) (h : Touched a n s s') (hle : a.toNat + n ≤ s.sz.toNat) :
    s'.Good := by
  obtain ⟨es, htrace, hes⟩ := h.trace
  intro e he
  rw [h.sz]
  rw [htrace] at he
  rcases mem_append.mp he with he | he
  · exact hs e he
  obtain ⟨i, hi, rfl⟩ := hes e he
  have hsz := s.sz.toNat_lt
  have hword : i < UInt32.size := by
    have hsize : UInt32.size = 2 ^ 32 := rfl
    omega
  have haddr : (a + UInt32.ofNat i).toNat = a.toNat + i := by
    rw [UInt32.toNat_add, UInt32.toNat_ofNat_of_lt' hword]
    omega
  exact lt_iff_toNat_lt.mpr (by omega)

lemma State.Good.note {e : Event} (hs : s.Good) (he : e.Safe s.sz) :
    ({ s with trace := s.trace ++ [e] } : State).Good := by
  intro e' he'
  rcases mem_append.mp he' with he' | he'
  · exact hs e' he'
  · rwa [mem_singleton.mp he']

/-- Fetching arguments is safe so far; the process is the same. -/
structure Fetched (s s' : State) : Prop where
  good : s'.Good
  sz : s'.sz = s.sz
  esp : s'.esp = s.esp

lemma wp_plus {b : UInt32} {Q : UInt32 → State → Prop} {S : Panic → State → Prop}
    (hQ : Q (a + b) { s with trace := s.trace ++ [.sum a b] }) : wp (plus a b) Q S s := hQ

section
variable (h : Fetched s s')
include h

lemma Fetched.touched {s'' : State} (ht : Touched a n s' s'')
    (hle : a.toNat + n ≤ s.sz.toNat) : Fetched s s'' where
  good := h.good.touched ht (by rwa [h.sz])
  sz := ht.sz.trans h.sz
  esp := ht.esp.trans h.esp

lemma Fetched.note {e : Event} (he : e.Safe s.sz) :
    Fetched s { s' with trace := s'.trace ++ [e] } :=
  ⟨h.good.note (by rwa [h.sz]), h.sz, h.esp⟩

section
variable (hsz : s.sz.toNat < Vm.KERNBASE)
include hsz

/-- An integer is fetched from the memory of the process, or not at all. -/
lemma wp_fetchint :
    wp (fetchint a) (fun r s'' => Fetched s s'' ∧ (r ≠ none → a.toNat + 4 ≤ s.sz.toNat))
      (fun _ => Fetched s) s' := by
  have hbase : Vm.KERNBASE = 2 ^ 31 := rfl
  rw [fetchint, wp_bind, wp_get, h.sz]
  split
  · exact ⟨h, nofun⟩
  next hin =>
    have hlt : a.toNat < s.sz.toNat := UInt32.lt_iff_toNat_lt.mp (UInt32.not_le.mp hin)
    have hfour : (4 : UInt32).toNat = 4 := rfl
    have hsum : (a + 4).toNat = a.toNat + 4 := by
      rw [UInt32.toNat_add, hfour]
      omega
    rw [wp_bind]
    refine wp_plus ?_
    have hplus := h.note (e := .sum a 4) (show _ < _ by omega)
    split
    · exact ⟨hplus, nofun⟩
    next hlast =>
      have hle : a.toNat + 4 ≤ s.sz.toNat := by
        rw [← hsum]
        exact UInt32.le_iff_toNat_le.mp (UInt32.not_lt.mp hlast)
      rw [wp_bind]
      refine wp_mono (loadAll_touches 4 _) (fun bs s'' ht => ?_) fun _ s'' ht => ?_
      · exact ⟨hplus.touched ht hle, fun _ => hle⟩
      · exact hplus.touched ht hle

variable {w : UInt32}

/-- Argument `n`, if neither addition wraps. -/
lemma wp_argint (hw : s.esp.toNat + 4 + (4 * w).toNat < 2 ^ 32) : wp (argint w)
      (fun r s'' => Fetched s s'' ∧ (r ≠ none → s.esp.toNat + 4 + (4 * w).toNat < s.sz.toNat))
      (fun _ => Fetched s) s' := by
  have hfour : (4 : UInt32).toNat = 4 := rfl
  have hfirst : (s.esp + 4).toNat = s.esp.toNat + 4 := by
    rw [UInt32.toNat_add, hfour]
    omega
  have haddr : (s.esp + 4 + 4 * w).toNat = s.esp.toNat + 4 + (4 * w).toNat := by
    rw [UInt32.toNat_add, hfirst]
    omega
  rw [argint, wp_bind, wp_get, h.esp, wp_bind]
  refine wp_plus ?_
  rw [wp_bind]
  refine wp_plus ?_
  have hsums := (h.note (e := .sum s.esp 4) (show _ < _ by omega)).note
    (e := .sum (s.esp + 4) (4 * w)) (show _ < _ by omega)
  refine wp_post (wp_fetchint hsums hsz) fun r s'' hr => ⟨hr.1, fun hne => ?_⟩
  have hle := hr.2 hne
  omega

lemma wp_argptr {size : Int32} (hw : s.esp.toNat + 4 + (4 * w).toNat < 2 ^ 32) :
    wp (argptr w size) (fun r s'' => Fetched s s'' ∧ ∀ p, r = some p →
      0 ≤ size ∧ p.toNat + size.toNatClampNeg ≤ s.sz.toNat) (fun _ => Fetched s) s' := by
  have hbase : Vm.KERNBASE = 2 ^ 31 := rfl
  rw [argptr]
  refine wp_seq (wp_argint h hsz hw) fun r s₁ h₁ => ?_
  rcases r with _ | i
  · exact ⟨h₁.1, nofun⟩
  change wp (Exec.get >>= _) _ _ _
  rw [wp_bind, wp_get, h₁.1.sz]
  split
  · exact ⟨h₁.1, nofun⟩
  next hin =>
    obtain ⟨hsize, hi⟩ := not_or.mp hin
    have hsize : 0 ≤ size := Int32.not_lt.mp hsize
    have hlt : i.toNat < s.sz.toNat := UInt32.lt_iff_toNat_lt.mp (UInt32.not_le.mp hi)
    have hword := toNat_toUInt32 hsize
    have hsmall : size.toNatClampNeg < 2 ^ 31 := by
      have hlt := size.toInt_lt
      rw [Int32.toNatClampNeg]
      omega
    have hsum : (i + size.toUInt32).toNat = i.toNat + size.toNatClampNeg := by
      rw [UInt32.toNat_add, hword]
      omega
    rw [wp_bind]
    refine wp_plus ?_
    have hplus := h₁.1.note (e := .sum i size.toUInt32) (show _ < _ by omega)
    split
    · exact ⟨hplus, nofun⟩
    next hlast =>
      refine ⟨hplus, fun p hp => ⟨hsize, ?_⟩⟩
      cases hp
      rw [← hsum]
      exact UInt32.le_iff_toNat_le.mp (UInt32.not_lt.mp hlast)

lemma wp_argfd (hw : s.esp.toNat + 4 + (4 * w).toNat < 2 ^ 32) : wp (argfd w)
      (fun r s'' => Fetched s s'' ∧ (r ≠ none → s.esp.toNat + 4 + (4 * w).toNat < s.sz.toNat))
      (fun _ => Fetched s) s' := by
  rw [argfd]
  refine wp_seq (wp_argint h hsz hw) fun r s₁ h₁ => ?_
  rcases r with _ | fd
  · exact ⟨h₁.1, nofun⟩
  change wp (Exec.get >>= _) _ _ _
  rw [wp_bind, wp_get]
  split
  · exact ⟨h₁.1, fun _ => h₁.2 nofun⟩
  · exact ⟨h₁.1, nofun⟩

end
end

end Arguments

/-! ### Calls -/

section Calls
variable {s : State}

/-- The code leaves only what is safe in the trace. -/
abbrev Stays {α : Type} (s : State) (x : Code α) (s' : State) : Prop :=
  wp x (fun _ => Fetched s) (fun _ => Fetched s) s'

variable {a : UInt32}

lemma Touches.stays {α : Type} {x : Code α} {s' : State} {n : ℕ}
    (hx : Touches x a n) (h : Fetched s s') (hle : a.toNat + n ≤ s.sz.toNat) : Stays s x s' :=
  wp_mono (hx s') (fun _ _ ht => h.touched ht hle) fun _ _ ht => h.touched ht hle

/-- The arguments behind the first lie below the end of memory, since the first does. -/
lemma sum_lt_of_first (hsz : s.sz.toNat < Vm.KERNBASE)
    (hfirst : s.esp.toNat + 4 + (4 * (0 : UInt32)).toNat < s.sz.toNat) {w : UInt32} (hw : w ≤ 2) :
    s.esp.toNat + 4 + (4 * w).toNat < 2 ^ 32 := by
  have hbase : Vm.KERNBASE = 2 ^ 31 := rfl
  have hfour : (4 : UInt32).toNat = 4 := rfl
  have htwo : w.toNat ≤ 2 := le_iff_toNat_le.mp hw
  have hmul : (4 * w).toNat ≤ 8 := by
    rw [UInt32.toNat_mul, hfour]
    omega
  omega

section
variable (hs : s.Good) (hsz : s.sz.toNat < Vm.KERNBASE) (hesp : s.esp.toNat + 4 < 2 ^ 32)
include hs hsz hesp

lemma stays_transfer {transfer : OpenFile → UInt32 → Int32 → Code Int32}
    (htransfer : ∀ f a n, 0 ≤ n → Touches (transfer f a n) a n.toNatClampNeg) : Stays s (do
      match ← argfd 0 with
      | none => pure (-1)
      | some f => do
        match ← argint 2 with
        | none => pure (-1)
        | some n => do
          match ← argptr 1 n.toInt32 with
          | none => pure (-1)
          | some p => transfer f p n.toInt32) s := by
  rw [Stays]
  refine wp_seq (wp_argfd ⟨hs, rfl, rfl⟩ hsz hesp) fun f s₁ h₁ => ?_
  rcases f with _ | f
  · exact h₁.1
  have hlt {w : UInt32} := sum_lt_of_first hsz (h₁.2 nofun) (w := w)
  refine wp_seq (wp_argint h₁.1 hsz (hlt (by decide))) fun n s₂ h₂ => ?_
  rcases n with _ | n
  · exact h₂.1
  refine wp_seq (wp_argptr h₂.1 hsz (hlt (by decide))) fun p s₃ h₃ => ?_
  rcases p with _ | p
  · exact h₃.1
  obtain ⟨hn, hle⟩ := h₃.2 p rfl
  exact (htransfer f p _ hn).stays h₃.1 hle

lemma stays_sysFstat : Stays s sysFstat s := by
  rw [Stays, sysFstat]
  refine wp_seq (wp_argfd ⟨hs, rfl, rfl⟩ hsz hesp) fun f s₁ h₁ => ?_
  rcases f with _ | f
  · exact h₁.1
  have hlt := sum_lt_of_first hsz (h₁.2 nofun) (w := 1) (by decide)
  refine wp_seq (wp_argptr h₁.1 hsz hlt) fun p s₂ h₂ => ?_
  cases p with
  | none => exact h₂.1
  | some p => exact filestat_touches.stays h₂.1 (h₂.2 p rfl).2

end

lemma fdalloc_touches {f : OpenFile} : Touches (fdalloc f) a 0 := by
  intro s
  rw [fdalloc, wp_bind, wp_get]
  split
  · exact Touched.refl
  · exact ⟨rfl, rfl, [], by simp, nofun⟩

variable {files : Option (OpenFile × OpenFile)} {now : Rtcdate}

lemma pipe_touches : Touches (do
    match files with
    | none => pure (-1)
    | some (rf, wf) => do
      match ← fdalloc rf with
      | none => pure (-1)
      | some fd0 => do
        match ← fdalloc wf with
        | none => do
          Exec.modify fun s => { s with ofile := Function.update s.ofile fd0 none }
          pure (-1)
        | some fd1 => do
          storeAll (bytesOf (ofNat fd0)) a
          storeAll (bytesOf (ofNat fd1)) (a + 4)
          pure (0 : Int32)) a 8 := by
  rcases files with _ | ⟨rf, wf⟩
  · exact touches_pure
  refine touches_bind (fdalloc_touches.mono (Nat.zero_le _)) fun fd0 => ?_
  rcases fd0 with _ | fd0
  · exact touches_pure
  refine touches_bind (fdalloc_touches.mono (Nat.zero_le _)) fun fd1 => ?_
  rcases fd1 with _ | fd1
  · refine touches_bind ?_ fun _ => touches_pure
    exact fun s => ⟨rfl, rfl, [], by simp, nofun⟩
  refine touches_bind ((storeAll_touches _).mono (by simp [bytesOf])) fun _ => ?_
  exact touches_bind ((storeAll_touches _).shift (by simp [bytesOf])) fun _ => touches_pure

lemma stays_sysPipe (hs : s.Good) (hsz : s.sz.toNat < Vm.KERNBASE)
    (hesp : s.esp.toNat + 4 < 2 ^ 32) : Stays s (sysPipe files) s := by
  rw [Stays, sysPipe]
  refine wp_seq (wp_argptr ⟨hs, rfl, rfl⟩ hsz hesp) fun p s₁ h₁ => ?_
  cases p with
  | none => exact h₁.1
  | some p => exact pipe_touches.stays h₁.1 (h₁.2 p rfl).2

lemma getTime_touches : Touches (do
    cmostime now a
    let second ← loadAll 4 a
    let minute ← loadAll 4 (a + 4)
    let hour ← loadAll 4 (a + 8)
    pure (wordOf second + wordOf minute * 60 + wordOf hour * 3600).toInt32) a 24 := by
  refine touches_bind cmostime_touches fun _ => ?_
  refine touches_bind ((loadAll_touches 4).mono (by omega)) fun second => ?_
  refine touches_bind ((loadAll_touches (a := a + ofNat 4) 4).shift (by omega)) fun minute => ?_
  exact touches_bind ((loadAll_touches (a := a + ofNat 8) 4).shift (by omega))
    fun hour => touches_pure

lemma stays_sysGetTime (hs : s.Good) (hsz : s.sz.toNat < Vm.KERNBASE)
    (hesp : s.esp.toNat + 4 < 2 ^ 32)
    (hroom : ∀ t s', argptr 0 4 s = .ok (some t) s' → t.toNat + 24 ≤ s.sz.toNat) :
    Stays s (sysGetTime now) s := by
  have harg : wp (argptr 0 4) (fun r s'' => Fetched s s'' ∧ ∀ p, r = some p →
      0 ≤ (4 : Int32) ∧ p.toNat + (4 : Int32).toNatClampNeg ≤ s.sz.toNat)
      (fun _ => Fetched s) s :=
    wp_argptr ⟨hs, rfl, rfl⟩ hsz hesp
  rw [Stays, sysGetTime, wp_bind]
  cases hrun : argptr 0 4 s with
  | stop e s₁ =>
    rw [wp, hrun] at harg ⊢
    exact harg
  | ok p s₁ =>
    obtain ⟨h₁, -⟩ := wp_ok harg hrun
    refine wp_of_ok hrun ?_
    cases p with
    | none => exact h₁
    | some t => exact getTime_touches.stays h₁ (hroom t s₁ hrun)

end Calls

/-! ### What stays in the trace -/

/-- The code takes nothing out of the trace. -/
abbrev Grows {α : Type} (x : Code α) : Prop :=
  ∀ s e, e ∈ s.trace → wp x (fun _ s' => e ∈ s'.trace) (fun _ s' => e ∈ s'.trace) s

section Grows
variable {α β : Type} {x : Code α} {f : α → Code β} {a : UInt32} {n : ℕ}

lemma grows_pure {b : α} : Grows (pure b) := fun _ _ he => he

lemma grows_get : Grows Exec.get := fun _ _ he => he

lemma grows_bind (hx : Grows x) (hf : ∀ b, Grows (f b)) : Grows (x >>= f) := by
  intro s e he
  exact wp_seq (hx s e he) fun b s₁ he₁ => hf b s₁ e he₁

lemma Touches.grows (h : Touches x a n) : Grows x := by
  intro s e he
  have hmem {s' : State} (ht : Touched a n s s') : e ∈ s'.trace := by
    obtain ⟨es, htrace, -⟩ := ht.trace
    rw [htrace]
    exact mem_append_left es he
  exact wp_mono (h s) (fun _ _ => hmem) fun _ _ => hmem

lemma plus_grows {b : UInt32} : Grows (plus a b) := fun _ _ he => mem_append_left _ he

lemma fetchint_grows : Grows (fetchint a) := by
  refine grows_bind grows_get fun s => ?_
  split
  · exact grows_pure
  refine grows_bind plus_grows fun last => ?_
  split
  · exact grows_pure
  · exact grows_bind (loadAll_touches 4).grows fun _ => grows_pure

variable {w : UInt32}

lemma argint_grows : Grows (argint w) :=
  grows_bind grows_get fun _ => grows_bind plus_grows fun _ => grows_bind plus_grows fun _ =>
    fetchint_grows

lemma fileread_grows {g : OpenFile} {k : Int32} : Grows (fileread g a k) := by
  rw [fileread]
  split
  · exact grows_pure
  cases g.object with
  | none => exact touches_stop.grows (a := a) (n := 0)
  | pipe p => exact piperead_touches.grows
  | inode ip => exact readi_touches.grows

/-- The sum that the first argument is fetched from is in the trace. -/
abbrev Starts {α : Type} (x : Code α) : Prop :=
  ∀ s, wp x (fun _ s' => .sum s.esp 4 ∈ s'.trace) (fun _ s' => .sum s.esp 4 ∈ s'.trace) s

lemma starts_bind (hx : Starts x) (hf : ∀ b, Grows (f b)) : Starts (x >>= f) := by
  intro s
  exact wp_seq (hx s) fun b s₁ he => hf b s₁ _ he

lemma argint_starts : Starts (argint w) := by
  intro s
  rw [argint, wp_bind, wp_get, wp_bind]
  refine wp_plus ?_
  refine grows_bind plus_grows (fun _ => fetchint_grows) _ _ ?_
  exact mem_append_right _ (mem_singleton_self _)

lemma argptr_traces {size : Int32} : Grows (argptr w size) ∧ Starts (argptr w size) := by
  refine ⟨grows_bind argint_grows ?rest, starts_bind argint_starts ?rest⟩
  intro i
  rcases i with _ | i
  · exact grows_pure
  refine grows_bind grows_get fun s => ?_
  split
  · exact grows_pure
  refine grows_bind plus_grows fun last => ?_
  split <;> exact grows_pure

lemma argfd_starts : Starts (argfd w) := by
  refine starts_bind argint_starts fun fd => ?_
  rcases fd with _ | fd
  · exact grows_pure
  refine grows_bind grows_get fun s => ?_
  split <;> exact grows_pure

lemma transfer_starts {transfer : OpenFile → UInt32 → Int32 → Code Int32}
    (htransfer : ∀ f a n, Grows (transfer f a n)) : Starts (do
      match ← argfd 0 with
      | none => pure (-1)
      | some f => do
        match ← argint 2 with
        | none => pure (-1)
        | some n => do
          match ← argptr 1 n.toInt32 with
          | none => pure (-1)
          | some p => transfer f p n.toInt32) := by
  refine starts_bind argfd_starts fun f => ?_
  rcases f with _ | f
  · exact grows_pure
  refine grows_bind argint_grows fun n => ?_
  rcases n with _ | n
  · exact grows_pure
  refine grows_bind argptr_traces.1 fun p => ?_
  cases p with
  | none => exact grows_pure
  | some p => exact htransfer f p _

lemma code_starts (c : Call) : Starts c.code := by
  cases c with
  | read => exact transfer_starts fun f a n => fileread_grows
  | write => exact transfer_starts fun f a n => filewrite_touches.grows
  | fstat =>
    refine starts_bind argfd_starts fun f => ?_
    rcases f with _ | f
    · exact grows_pure
    refine grows_bind argptr_traces.1 fun p => ?_
    cases p with
    | none => exact grows_pure
    | some p => exact filestat_touches.grows
  | pipe files =>
    refine starts_bind argptr_traces.2 fun p => ?_
    cases p with
    | none => exact grows_pure
    | some p => exact pipe_touches.grows
  | getTime now =>
    refine starts_bind argptr_traces.2 fun p => ?_
    cases p with
    | none => exact grows_pure
    | some p => exact getTime_touches.grows

end Grows

/-- Every byte that is written is in the trace. -/
lemma storeAll_reaches (bs : List UInt8) {a : UInt32} {s : State} {i : ℕ} (hi : i < bs.length) :
    wp (storeAll bs a) (fun _ s' => .touch (a + UInt32.ofNat i) ∈ s'.trace)
      (fun _ s' => .touch (a + UInt32.ofNat i) ∈ s'.trace) s := by
  induction bs generalizing a s i with
  | nil => exact absurd hi (Nat.not_lt_zero i)
  | cons b bs ih =>
    refine wp_bind.mpr ?_
    rcases i with _ | i
    · refine (storeAll_touches bs).grows _ _ ?_
      refine mem_append_right _ (mem_singleton.mpr ?_)
      exact congrArg Event.touch (UInt32.add_zero a)
    have hnext : a + UInt32.ofNat (i + 1) = a + 1 + UInt32.ofNat i := by
      rw [Nat.add_comm, UInt32.ofNat_add, UInt32.add_assoc]
      rfl
    rw [hnext]
    exact ih (Nat.lt_of_succ_lt_succ hi)

/-- `cmostime` writes all 24 bytes. -/
lemma cmostime_reaches {now : Rtcdate} {t : UInt32} {s : State} :
    wp (cmostime now t) (fun _ s' => .touch (t + 23) ∈ s'.trace)
      (fun _ s' => .touch (t + 23) ∈ s'.trace) s := by
  rw [cmostime]
  refine wp_seq (storeAll_reaches _ (by simp [bytesOf])) fun _ s₁ he => ?_
  exact grows_bind (loadAll_touches 4).grows (fun _ => (storeAll_touches _).grows) s₁ _ he

lemma getTime_reaches {now : Rtcdate} {t : UInt32} {s s' : State}
    (h : argptr 0 4 s = .ok (some t) s') : .touch (t + 23) ∈ (sysGetTime now s).state.trace := by
  apply wp_state (I := fun s' : State => Event.touch (t + 23) ∈ s'.trace)
  rw [sysGetTime, wp_bind]
  refine wp_of_ok h (wp_bind.mpr ?_)
  refine wp_post cmostime_reaches fun _ s₁ he => ?_
  have hload (a : UInt32) : Grows (loadAll 4 a) := (loadAll_touches 4).grows
  exact grows_bind (hload _) (fun _ => grows_bind (hload _) fun _ => grows_bind (hload _)
    fun _ => grows_pure) s₁ _ he

/-- A call is safe if and only if `esp + 4` does not wrap and, when it is `sys_get_time` and the
pointer is accepted, the process has room for a whole `struct rtcdate` there. -/
theorem call_safe_iff {s : State} (hsz : s.sz.toNat < Vm.KERNBASE) (hs : s.trace = []) (c : Call) :
    (∀ e ∈ (c.code s).state.trace, e.Safe s.sz) ↔ s.esp.toNat + 4 < 2 ^ 32 ∧
        ∀ now t s', c = .getTime now → argptr 0 4 s = .ok (some t) s' →
          t.toNat + 24 ≤ s.sz.toNat := by
  have hbase : Vm.KERNBASE = 2 ^ 31 := rfl
  have hgood : s.Good := by
    rw [State.Good, hs]
    exact nofun
  constructor
  · intro hsafe
    have hesp := hsafe (.sum s.esp 4) (wp_state (code_starts c s))
    refine ⟨hesp, ?_⟩
    rintro now t s' rfl hrun
    have hlt := ((wp_ok (wp_argptr (w := 0) ⟨hgood, rfl, rfl⟩ hsz hesp) hrun).2 t rfl).2
    have htouch : t + 23 < s.sz := hsafe _ (getTime_reaches hrun)
    have hlast : (t + 23).toNat = t.toNat + 23 := by
      have hword : (23 : UInt32).toNat = 23 := rfl
      rw [UInt32.toNat_add, hword]
      omega
    have hend := lt_iff_toNat_lt.mp htouch
    omega
  rintro ⟨hesp, hroom⟩
  have hstays : Stays s c.code s := by
    cases c with
    | read => exact stays_transfer hgood hsz hesp fun f a n => fileread_touches
    | write => exact stays_transfer hgood hsz hesp fun f a n _ => filewrite_touches
    | fstat => exact stays_sysFstat hgood hsz hesp
    | pipe files => exact stays_sysPipe hgood hsz hesp
    | getTime now =>
      exact stays_sysGetTime hgood hsz hesp fun t s' => hroom now t s' rfl
  have hfetched := wp_state hstays
  rw [← hfetched.sz]
  exact hfetched.good

/-- A process of one page whose stack pointer and first argument are as given. -/
def onePage (esp ptr : UInt32) : State where
  sz := 4096
  esp := esp
  mem a := ((bytesOf ptr)[(a - esp - 4).toNat]?).getD 0
  ofile _ := none
  trace := []

theorem pipe_in_page_safe : 4096 < Vm.KERNBASE ∧
    ∀ e ∈ (Call.code (.pipe (some (⟨.none, true, false, 0⟩, ⟨.none, false, true, 0⟩)))
      (onePage 4000 512)).state.trace, e.Safe 4096 :=
  ⟨by decide, (call_safe_iff (by decide) rfl _).mpr ⟨by decide, nofun⟩⟩

/-- A pointer to the last four bytes of the process is accepted, and the date is written behind
them. -/
theorem getTime_at_end_unsafe :
    ¬ ∀ e ∈ (Call.code (.getTime ⟨0, 0, 0, 1, 1, 26⟩) (onePage 4000 4092)).state.trace,
      e.Safe 4096 := by
  intro h
  have hbehind : Event.touch 4096 ∈
      (Call.code (.getTime ⟨0, 0, 0, 1, 1, 26⟩) (onePage 4000 4092)).state.trace := by
    decide +kernel
  exact UInt32.lt_irrefl 4096 (h _ hbehind)

end Xv6.Syscall
