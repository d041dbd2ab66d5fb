import Xv6.Piping.Machine

/-!
# A pipe is a queue of bytes

The array with its two wrapping counters holds a queue. The bytes that have been
read, followed by the queue, are the bytes that have been stored.
-/

namespace Xv6.Piping
open Lib Function List

/-- The pipe holds the queue `q`. -/
def Pipe.Holds (p : Pipe) (q : List UInt8) : Prop :=
  RingHolds (2 ^ 32) p.data p.nread.toNat p.nwrite.toNat q

namespace Pipe.Holds

variable {p : Pipe} {q : List UInt8}

section
variable (h : p.Holds q)
include h

lemma length_le : q.length ≤ PIPESIZE := RingHolds.length_le h

lemma full_iff : p.Full ↔ q.length = PIPESIZE := by
  rw [← RingHolds.full_iff h (by decide), Full, ← UInt32.toNat_inj, UInt32.toNat_add]
  rfl

lemma empty_iff : p.Empty ↔ q = [] := by
  rw [← RingHolds.empty_iff h (by decide), Empty, UInt32.toNat_inj]

lemma distance : (p.nwrite - p.nread).toNat = q.length := by
  rw [← RingHolds.distance h (by decide), UInt32.toNat_sub, Nat.add_comm]

lemma put (hfull : ¬ p.Full) (b : UInt8) : (p.put b).Holds (q ++ [b]) := by
  have hroom : q.length < PIPESIZE := lt_of_le_of_ne h.length_le (mt h.full_iff.mpr hfull)
  have hring := RingHolds.push h (by decide) hroom b
  rwa [← show (p.nwrite + 1).toNat = (p.nwrite.toNat + 1) % 2 ^ 32 from UInt32.toNat_add _ _]
    at hring

end

lemma drop {b : UInt8} (h : p.Holds (b :: q)) : p.front = b ∧ p.drop.Holds q := by
  obtain ⟨hfront, hring⟩ := RingHolds.pop h
  rw [← show (p.nread + 1).toNat = (p.nread.toNat + 1) % 2 ^ 32 from UInt32.toNat_add _ _] at hring
  exact ⟨hfront, hring⟩

end Pipe.Holds

/-- What a section of `pipewrite` has done to a pipe that held `q`. -/
structure WriteSpec (killed : Bool) (p : Pipe) (q rest : List UInt8)
    (r : Pipe × List UInt8 × WriteEnd) : Prop where
  holds : r.1.Holds (q ++ r.2.1)
  readopen : r.1.readopen = p.readopen
  writeopen : r.1.writeopen = p.writeopen
  /-- The bytes that are stored and those that are left are the bytes that were left before. -/
  outcome : match r.2.2 with
    | .done => r.2.1 = rest
    | .broken rest' => r.2.1 ++ rest' = rest ∧ rest' ≠ [] ∧ r.1.Full ∧
        (p.readopen = false ∨ killed = true)
    | .asleep rest' => r.2.1 ++ rest' = rest ∧ r.1.Full ∧ p.readopen = true ∧ killed = false

lemma pipewrite_spec (killed : Bool) {p : Pipe} {q : List UInt8} (rest : List UInt8)
    (h : p.Holds q) : WriteSpec killed p q rest (pipewrite killed p rest) := by
  induction rest generalizing p q with
  | nil => exact ⟨by simpa [pipewrite] using h, rfl, rfl, rfl⟩
  | cons b rest ih =>
    unfold pipewrite
    by_cases hfull : p.Full
    · rw [if_pos hfull]
      by_cases hbroken : p.readopen = false ∨ killed = true
      · rw [if_pos hbroken]
        exact ⟨by simpa using h, rfl, rfl, rfl, by simp, hfull, hbroken⟩
      rw [if_neg hbroken]
      obtain ⟨hopen, hkilled⟩ := not_or.mp hbroken
      exact ⟨by simpa using h, rfl, rfl, rfl, hfull, by simpa using hopen, by simpa using hkilled⟩
    rw [if_neg hfull]
    obtain ⟨hholds, hread, hwrite, hout⟩ := ih (h.put hfull b)
    refine ⟨by simpa using hholds, hread, hwrite, ?_⟩
    -- the first byte is stored in front of what the rest of the loop has stored
    generalize pipewrite killed (p.put b) rest = r at hout
    obtain ⟨p', stored, how⟩ := r
    cases how with
    | done => exact congrArg (b :: ·) hout
    | broken rest' | asleep rest' => exact ⟨congrArg (b :: ·) hout.1, hout.2⟩

lemma copyOut_spec {p : Pipe} {q : List UInt8} (n : ℕ) (h : p.Holds q) :
    (copyOut p n).2 = q.take n ∧ (copyOut p n).1.Holds (q.drop n) ∧
      (copyOut p n).1.readopen = p.readopen ∧ (copyOut p n).1.writeopen = p.writeopen := by
  induction n generalizing p q with
  | zero => exact ⟨rfl, h, rfl, rfl⟩
  | succ n ih =>
    unfold copyOut
    by_cases hempty : p.Empty
    · rw [if_pos hempty]
      obtain rfl := h.empty_iff.mp hempty
      exact ⟨by simp, by simpa using h, rfl, rfl⟩
    rw [if_neg hempty]
    rcases q with _ | ⟨b, q⟩
    · exact absurd (h.empty_iff.mpr rfl) hempty
    obtain ⟨hfront, hdrop⟩ := h.drop
    obtain ⟨htake, hholds, hread, hwrite⟩ := ih hdrop
    exact ⟨by simp [hfront, htake], hholds, hread, hwrite⟩

/-- The call of `pipewrite` that a process is in, with the bytes that are left. -/
def Place.call : Place → Option (ℕ × List UInt8)
  | .writing call rest => some (call, rest)
  | .writeAsleep call rest => some (call, rest)
  | _ => none

@[simp] lemma Place.call_wakeReader (a : Place) : a.wakeReader.call = a.call := by
  cases a <;> rfl

@[simp] lemma Place.call_wakeWriter (a : Place) : a.wakeWriter.call = a.call := by
  cases a <;> rfl

@[simp] lemma Place.call_wake (a : Place) : a.wake.call = a.call := by
  simp [Place.wake]

variable {ι : Type}

/-- The bytes that a call of `pipewrite` has stored. -/
def Sys.bytesOf (s : Sys ι) (call : ℕ) : List UInt8 :=
  (s.stored.filter fun e => e.1 = call).map Prod.snd

/-- The stored bytes are the ones that have been read and then the queue. -/
def Sys.Streams (s : Sys ι) : Prop := ∃ q, s.pipe.Holds q ∧ s.stored.map Prod.snd = s.taken ++ q

/-- The calls of `pipewrite` and what they have stored. -/
structure Sys.Calls (s : Sys ι) : Prop where
  current : ∀ i c rest, (s.place i).call = some (c, rest) →
    s.buffers[c]? = some (s.bytesOf c ++ rest)
  distinct : ∀ i j c rest rest', (s.place i).call = some (c, rest) →
    (s.place j).call = some (c, rest') → i = j
  returned : ∀ c n, (c, n) ∈ s.wrote → c < s.buffers.length ∧
    (∀ i rest, (s.place i).call ≠ some (c, rest)) ∧
    (n = s.size c → s.buffers[c]? = some (s.bytesOf c))
  initial : ∀ c buffer, s.buffers[c]? = some buffer → s.bytesOf c <+: buffer
  fresh : ∀ c, s.buffers.length ≤ c → s.bytesOf c = []

lemma Sys.bytesOf_store (s : Sys ι) (c c' : ℕ) (bytes : List UInt8) :
    (s.store c bytes).bytesOf c' = s.bytesOf c' ++ if c = c' then bytes else [] := by
  unfold Sys.bytesOf
  rw [Sys.store_stored, filter_append, map_append]
  congr 1
  split
  · rename_i h
    subst h
    simp [filter_map, Function.comp_def]
  · rename_i h
    simp [filter_map, Function.comp_def, h]

namespace Sys.Calls

variable {s s' : Sys ι}

/-- A step that stores nothing and that begins and ends no call. -/
lemma congr (h : s.Calls) (hcall : ∀ i, (s'.place i).call = (s.place i).call)
    (hbuffers : s'.buffers = s.buffers) (hstored : s'.stored = s.stored)
    (hwrote : s'.wrote = s.wrote) : s'.Calls := by
  have hbytes : ∀ c, s'.bytesOf c = s.bytesOf c := fun c => by rw [bytesOf, hstored, bytesOf]
  have hsize : ∀ c, s'.size c = s.size c := fun c => by rw [size, hbuffers, size]
  constructor
  · intro i c rest hi
    rw [hbuffers, hbytes]
    exact h.current i c rest ((hcall i).symm.trans hi)
  · intro i j c rest rest' hi hj
    exact h.distinct i j c rest rest' ((hcall i).symm.trans hi) ((hcall j).symm.trans hj)
  · intro c n hn
    rw [hwrote] at hn
    obtain ⟨hlt, hnone, hall⟩ := h.returned c n hn
    rw [hbuffers, hbytes, hsize]
    exact ⟨hlt, fun i rest hi => hnone i rest ((hcall i).symm.trans hi), hall⟩
  · intro c buffer hc
    rw [hbuffers] at hc
    rw [hbytes]
    exact h.initial c buffer hc
  intro c hc
  rw [hbuffers] at hc
  rw [hbytes]
  exact h.fresh c hc

variable {c : ℕ}

lemma returnWrite (h : s.Calls) {n : ℤ} (hlt : c < s.buffers.length)
    (hnone : ∀ i rest, (s.place i).call ≠ some (c, rest))
    (hall : n = s.size c → s.buffers[c]? = some (s.bytesOf c)) : (s.returnWrite c n).Calls := by
  refine ⟨h.current, h.distinct, fun c' n' hn => ?_, h.initial, h.fresh⟩
  obtain hn | hn := mem_append.mp hn
  · exact h.returned c' n' hn
  obtain ⟨rfl, rfl⟩ := Prod.mk.inj (mem_singleton.mp hn)
  exact ⟨hlt, hnone, hall⟩

variable [DecidableEq ι]

variable {i : ι}

lemma write (h : s.Calls) (hi : (s.place i).call = none) (buffer : List UInt8) :
    ((s.setPlace i (.writing s.buffers.length buffer)).newBuffer buffer).Calls := by
  -- the number of the new call is not in use
  have hlt : ∀ {c b}, s.buffers[c]? = some b → c < s.buffers.length := fun hc =>
    (List.getElem?_eq_some_iff.mp hc).1
  have hold : ∀ {c b}, s.buffers[c]? = some b → (s.buffers ++ [buffer])[c]? = some b := fun hc => by
    rw [getElem?_append_left (hlt hc), hc]
  have hcall : ∀ j, (update s.place i (.writing s.buffers.length buffer) j).call =
      if j = i then some (s.buffers.length, buffer) else (s.place j).call := by
    intro j
    by_cases hj : j = i
    · subst hj
      simp [Place.call]
    · simp [hj]
  constructor
  · intro j c rest hj
    rw [newBuffer_place, setPlace_place, hcall] at hj
    split at hj
    · obtain ⟨rfl, rfl⟩ := Prod.mk.inj (Option.some.inj hj)
      have hfresh := h.fresh _ le_rfl
      change (s.buffers ++ [buffer])[s.buffers.length]? =
        some (s.bytesOf s.buffers.length ++ buffer)
      simp [hfresh]
    · exact hold (h.current j c rest hj)
  · intro j k c rest rest' hj hk
    rw [newBuffer_place, setPlace_place, hcall] at hj hk
    split at hj
    · rename_i hji
      obtain ⟨rfl, rfl⟩ := Prod.mk.inj (Option.some.inj hj)
      split at hk
      · rename_i hki
        rw [hji, hki]
      · exact absurd (hlt (h.current k _ rest' hk)) (lt_irrefl _)
    split at hk
    · obtain ⟨rfl, rfl⟩ := Prod.mk.inj (Option.some.inj hk)
      exact absurd (hlt (h.current j _ rest hj)) (lt_irrefl _)
    · exact h.distinct j k c rest rest' hj hk
  · intro c n hn
    obtain ⟨hc, hnone, hall⟩ := h.returned c n hn
    refine ⟨?_, fun j rest hj => ?_, fun hn => ?_⟩
    · rw [newBuffer_buffers, length_append]
      exact Nat.lt_add_right _ hc
    · rw [newBuffer_place, setPlace_place, hcall] at hj
      split at hj
      · obtain ⟨rfl, -⟩ := Prod.mk.inj (Option.some.inj hj)
        exact lt_irrefl _ hc
      · exact hnone j rest hj
    refine hold (hall (hn.trans ?_))
    change (((s.buffers ++ [buffer]).getD c []).length : ℤ) = (s.buffers.getD c []).length
    rw [getD_eq_getElem?_getD, getElem?_append_left hc, ← getD_eq_getElem?_getD]
  · intro c b hc
    have hc : (s.buffers ++ [buffer])[c]? = some b := hc
    obtain hlt' | hge := lt_or_ge c s.buffers.length
    · rw [getElem?_append_left hlt'] at hc
      exact h.initial c b hc
    have hnil : s.bytesOf c = [] := h.fresh c hge
    change s.bytesOf c <+: b
    rw [hnil]
    exact nil_prefix
  intro c hc
  apply h.fresh c
  have hle : (s.buffers ++ [buffer]).length ≤ c := hc
  rw [length_append] at hle
  omega

variable {rest bytes rest' : List UInt8}

lemma store (h : s.Calls) {a : Place}
    (hi : (s.place i).call = some (c, rest)) (hbytes : bytes ++ rest' = rest)
    (ha : a.call = none ∨ a.call = some (c, rest')) : ((s.store c bytes).setPlace i a).Calls := by
  have hcur : s.buffers[c]? = some (s.bytesOf c ++ bytes ++ rest') := by
    rw [h.current i c rest hi, ← hbytes, append_assoc]
  have hself : ((s.store c bytes).setPlace i a).bytesOf c = s.bytesOf c ++ bytes := by
    change (s.store c bytes).bytesOf c = _
    rw [bytesOf_store, if_pos rfl]
  have hother : ∀ {c'}, c' ≠ c → ((s.store c bytes).setPlace i a).bytesOf c' = s.bytesOf c' := by
    intro c' hc
    change (s.store c bytes).bytesOf c' = _
    rw [bytesOf_store, if_neg (Ne.symm hc), append_nil]
  have hcall : ∀ {j c' r}, (((s.store c bytes).setPlace i a).place j).call = some (c', r) →
      j = i ∧ c' = c ∧ r = rest' ∨ j ≠ i ∧ c' ≠ c ∧ (s.place j).call = some (c', r) := by
    intro j c' r hj
    by_cases hji : j = i
    · subst hji
      rw [setPlace_place, update_self] at hj
      obtain hnone | hsome := ha
      · rw [hnone] at hj
        cases hj
      rw [hsome] at hj
      obtain ⟨rfl, rfl⟩ := Prod.mk.inj (Option.some.inj hj)
      exact .inl ⟨rfl, rfl, rfl⟩
    rw [setPlace_place, update_of_ne hji] at hj
    refine .inr ⟨hji, ?_, hj⟩
    rintro rfl
    exact hji (h.distinct j i c' r rest hj hi)
  constructor
  · intro j c' r hj
    obtain ⟨-, rfl, rfl⟩ | ⟨-, hc, hj⟩ := hcall hj
    · rwa [hself]
    · rw [hother hc]
      exact h.current j c' r hj
  · intro j k c' r r' hj hk
    obtain ⟨rfl, rfl, -⟩ | ⟨-, hc, hj⟩ := hcall hj
    · obtain ⟨rfl, -, -⟩ | ⟨-, hc, -⟩ := hcall hk
      · rfl
      · exact absurd rfl hc
    obtain ⟨-, rfl, -⟩ | ⟨-, -, hk⟩ := hcall hk
    · exact absurd rfl hc
    · exact h.distinct j k c' r r' hj hk
  · intro c' n hn
    obtain ⟨hlt, hnone, hall⟩ := h.returned c' n hn
    have hc : c' ≠ c := by
      rintro rfl
      exact hnone i rest hi
    refine ⟨hlt, fun j r hj => ?_, ?_⟩
    · obtain ⟨-, rfl, -⟩ | ⟨-, -, hj⟩ := hcall hj
      · exact hc rfl
      · exact hnone j r hj
    · rwa [hother hc]
  · intro c' buffer hc'
    by_cases hc : c' = c
    · subst hc
      have hb := hcur.symm.trans hc'
      rw [hself, ← Option.some.inj hb]
      exact prefix_append _ _
    · rw [hother hc]
      exact h.initial c' buffer hc'
  intro c' hc'
  have hc : c' ≠ c := by
    rintro rfl
    exact absurd (List.getElem?_eq_some_iff.mp hcur).1 (not_lt.mpr hc')
  rw [hother hc]
  exact h.fresh c' hc'

lemma finish (h : s.Calls) {n : ℤ}
    (hi : (s.place i).call = some (c, rest)) (hbytes : bytes ++ rest' = rest)
    (hn : n = s.size c → rest' = []) :
    (((s.store c bytes).setPlace i .idle).returnWrite c n).Calls := by
  have hcur := h.current i c rest hi
  refine (h.store hi hbytes (.inl rfl)).returnWrite (List.getElem?_eq_some_iff.mp hcur).1 ?_ ?_
  · intro j r hj
    by_cases hji : j = i
    · subst hji
      simp [Place.call] at hj
    · rw [setPlace_place, update_of_ne hji] at hj
      exact hji (h.distinct j i c r rest hj hi)
  intro hsize
  obtain rfl := hn hsize
  rw [append_nil] at hbytes
  change s.buffers[c]? = some ((s.store c bytes).bytesOf c)
  rw [bytesOf_store, if_pos rfl, hbytes, hcur]

end Sys.Calls

variable [DecidableEq ι]

/-- Every move keeps the order of the bytes. -/
lemma Moved.streams {s s' : Sys ι} {m : Move ι} (hm : Moved s m s') (h : s.Streams) :
    s'.Streams := by
  obtain ⟨q, hholds, hstored⟩ := h
  cases hm with
  | write hplace | read hplace | kill => exact ⟨q, hholds, hstored⟩
  | @runWrite i late c rest hplace =>
    have hspec := pipewrite_spec (s.killed i) rest hholds
    have hnew : (s.stored ++ (pipewrite (s.killed i) s.pipe rest).2.1.map (c, ·)).map Prod.snd =
        s.taken ++ (q ++ (pipewrite (s.killed i) s.pipe rest).2.1) := by
      rw [map_append, hstored, map_map, append_assoc]
      congr 2
      exact map_id _
    refine ⟨q ++ (pipewrite (s.killed i) s.pipe rest).2.1, ?_⟩
    unfold Sys.runWrite
    dsimp only
    split
    · exact ⟨hspec.holds, hnew⟩
    · exact ⟨hspec.holds, hnew⟩
    · exact ⟨hspec.holds, hnew⟩
  | @runRead i late n hplace =>
    unfold Sys.runRead piperead
    split
    · cases s.killed i with
      | true | false => exact ⟨q, hholds, hstored⟩
    obtain ⟨htake, hdrop, -, -⟩ := copyOut_spec n hholds
    refine ⟨q.drop n, hdrop, ?_⟩
    change s.stored.map Prod.snd = s.taken ++ (copyOut s.pipe n).2 ++ q.drop n
    rw [htake, append_assoc, take_append_drop, hstored]
  | @pipeclose writable =>
    unfold Sys.pipeclose
    cases writable with
    | true | false => exact ⟨q, hholds, hstored⟩

/-- Every move keeps what the calls of `pipewrite` have stored. -/
lemma Moved.calls {s s' : Sys ι} {m : Move ι} (hm : Moved s m s') (hs : s.Streams)
    (h : s.Calls) : s'.Calls := by
  obtain ⟨q, hholds, -⟩ := hs
  cases hm with
  | @write i buffer hplace => exact h.write (by rw [hplace]; rfl) buffer
  | @read i n hplace =>
    refine h.congr (fun j => ?_) rfl rfl rfl
    by_cases hj : j = i
    · subst hj
      simp [hplace, Place.call]
    · simp [hj]
  | @runWrite i late c rest hplace =>
    have hi : (s.place i).call = some (c, rest) := by
      rw [hplace]
      rfl
    have hout := (pipewrite_spec (s.killed i) rest hholds).outcome
    unfold Sys.runWrite
    dsimp only
    split
    · rename_i hdone
      rw [hdone] at hout
      have hfinish := h.finish (n := s.size c) hi ((append_nil _).trans hout) fun _ => rfl
      refine hfinish.congr (fun j => ?_) rfl rfl rfl
      by_cases hj : j = i <;> simp [hj]
    · rename_i rest' hbroken
      rw [hbroken] at hout
      exact (h.finish hi hout.1 fun hn => by simp [Sys.size] at hn).congr (fun _ => rfl) rfl rfl rfl
    rename_i rest' hasleep
    rw [hasleep] at hout
    have hstore := h.store (a := .writeAsleep c rest') hi hout.1 (.inr rfl)
    refine hstore.congr (fun j => ?_) rfl rfl rfl
    by_cases hj : j = i <;> simp [hj]
  | @runRead i late n hplace =>
    have hplaces : ∀ (a : Place), a.call = none →
        ∀ j, (update s.place i a j).call = (s.place j).call := by
      intro a ha j
      by_cases hj : j = i
      · subst hj
        rw [update_self, ha, hplace]
        rfl
      · rw [update_of_ne hj]
    unfold Sys.runRead
    dsimp only
    split
    · refine h.congr (fun j => ?_) rfl rfl rfl
      by_cases hj : j = i
      · simp [hj, hplace, Place.call]
      · simp [hj]
    · exact h.congr (hplaces _ rfl) rfl rfl rfl
    · exact h.congr (hplaces _ rfl) rfl rfl rfl
  | @pipeclose writable =>
    unfold Sys.pipeclose
    cases writable with
    | true => exact h.congr (fun j => Place.call_wakeReader _) rfl rfl rfl
    | false => exact h.congr (fun j => Place.call_wakeWriter _) rfl rfl rfl
  | @kill i =>
    refine h.congr (fun j => ?_) rfl rfl rfl
    by_cases hj : j = i <;> simp [hj]

/-- A pipe is a queue of bytes in every run, whatever the processes do. -/
theorem pipe_is_fifo (s : Sys ι) (h : Sys.Reached (fun _ _ => True) s) :
    s.taken <+: s.stored.map Prod.snd ∧
    (∀ c buffer, s.buffers[c]? = some buffer → s.bytesOf c <+: buffer ∧
      ((c, (buffer.length : ℤ)) ∈ s.wrote → s.bytesOf c = buffer)) ∧
    (s.pipe.nwrite - s.pipe.nread).toNat ≤ PIPESIZE ∧
    ∀ killed n, 0 < n → (piperead killed s.pipe n).2 = .done [] →
      s.pipe.Empty ∧ s.pipe.writeopen = false := by
  obtain ⟨data, killed, hreach⟩ := h
  have hinv : s.Streams ∧ s.Calls := by
    refine hreach.invariant (I := fun s => s.Streams ∧ s.Calls) ?_ ⟨?_, ?_⟩
    · intro s s' m hs _ hstep
      have hm := Moved.of_step hstep
      exact ⟨hm.streams hs.1, hm.calls hs.1 hs.2⟩
    · exact ⟨[], RingHolds.nil (UInt32.toNat_lt _), rfl⟩
    · constructor <;> simp [Sys.init, Sys.bytesOf, Place.call]
  obtain ⟨⟨q, hholds, hstored⟩, hcalls⟩ := hinv
  refine ⟨?_, ?_, ?_, ?_⟩
  · rw [hstored]
    exact prefix_append _ _
  · intro c buffer hc
    refine ⟨hcalls.initial c buffer hc, fun hwrote => ?_⟩
    have hsize : (buffer.length : ℤ) = s.size c := by
      rw [Sys.size, getD_eq_getElem?_getD, hc]
      rfl
    exact Option.some.inj (((hcalls.returned c _ hwrote).2.2 hsize).symm.trans hc)
  · rw [hholds.distance]
    exact hholds.length_le
  intro killed n hn hread
  unfold piperead at hread
  split at hread
  · cases killed <;> cases hread
  rename_i hblock
  have htake : q.take n = [] := by
    rw [← (copyOut_spec n hholds).1]
    exact ReadEnd.done.inj hread
  have hq : q = [] := (take_eq_nil_iff.mp htake).resolve_left (by omega)
  have hempty := hholds.empty_iff.mpr hq
  exact ⟨hempty, by simpa [hempty] using hblock⟩

/-- One process writes two bytes and another reads one of them. -/
theorem two_bytes_fifo : ∃ s : Sys Bool, Sys.Reached (fun _ _ => True) s ∧
    (s.stored = [(0, 5), (0, 6)] ∧ s.taken = [5] ∧ s.wrote = [(0, 2)]) ∧
    s.taken <+: s.stored.map Prod.snd ∧
    (∀ c buffer, s.buffers[c]? = some buffer → s.bytesOf c <+: buffer ∧
      ((c, (buffer.length : ℤ)) ∈ s.wrote → s.bytesOf c = buffer)) ∧
    (s.pipe.nwrite - s.pipe.nread).toNat ≤ PIPESIZE ∧
    ∀ killed n, 0 < n → (piperead killed s.pipe n).2 = .done [] →
      s.pipe.Empty ∧ s.pipe.writeopen = false := by
  obtain ⟨s, hreach, hs⟩ := Sys.exists_reached (fun _ _ => True) (fun _ => 0)
    (fun _ : Bool => false)
    [.write false [5, 6], .run false false, .read true 1, .run true false]
    (fun s => s.stored = [(0, 5), (0, 6)] ∧ s.taken = [5] ∧ s.wrote = [(0, 2)])
    (by decide +kernel)
  exact ⟨s, hreach, hs, pipe_is_fifo s hreach⟩

end Xv6.Piping
