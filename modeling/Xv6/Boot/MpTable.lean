import Mathlib.Order.Basic

/-!
# The MP table

`mpinit` of `mp.c` goes over the entries of the configuration table. The `break` on an entry of an
unknown type leaves the `switch`, not the loop.

## Implementation notes

A table is the bytes from `conf` on; an offset from `conf` stands for a pointer. The search for
the floating pointer structure, `lapic` and the mode register are left out. The result is `none`
when the fuel runs out.
-/

namespace Xv6.Boot

/-- The sum of the first bytes. -/
def sum (addr : ℕ → UInt8) : ℕ → UInt8
  | 0 => 0
  | len + 1 => sum addr len + addr len

/-- The field `length`. -/
def length (conf : ℕ → UInt8) : ℕ := (conf 4).toNat + 256 * (conf 5).toNat

/-- What `mpconfig` asks of a table: `PCMP`, version 1 or 4, and the checksum. -/
def mpconfig (conf : ℕ → UInt8) : Bool :=
  [conf 0, conf 1, conf 2, conf 3] == [80, 67, 77, 80] && (conf 6 == 1 || conf 6 == 4) &&
    sum conf (length conf) == 0

/-- The variables of the loop; `apicids` are those of the first `ncpu` processors. -/
structure Scan where
  p : ℕ := 44
  apicids : List UInt8 := []
  ioapicid : UInt8 := 0
  ismp : Bool := true

/-- The `switch`; `NCPU` is 1. -/
def entry (conf : ℕ → UInt8) (s : Scan) : Scan :=
  match (conf s.p).toNat with
  | 0 => { s with
    p := s.p + 20
    apicids := if s.apicids.length < 1 then s.apicids ++ [conf (s.p + 1)] else s.apicids }
  | 2 => { s with p := s.p + 8, ioapicid := conf (s.p + 1) }
  | 1 | 3 | 4 => { s with p := s.p + 8 }
  | _ => { s with ismp := false }

/-- The loop. -/
def scan (conf : ℕ → UInt8) : ℕ → Scan → Option Scan
  | 0, _ => none
  | fuel + 1, s => if s.p < length conf then scan conf fuel (entry conf s) else some s

inductive Outcome where
  | panic (msg : String)
  | found (s : Scan)

def mpinit (conf : ℕ → UInt8) (fuel : ℕ) : Option Outcome :=
  if mpconfig conf then (scan conf fuel {}).map fun s =>
    if s.ismp then .found s else .panic "Didn't find a suitable machine"
  else some (.panic "Expect to run on an SMP")

/-- The entries from an offset on have known types; one of a processor takes 20 bytes, another
one 8. -/
inductive Known (conf : ℕ → UInt8) : ℕ → Prop
  | done {p : ℕ} (hp : length conf ≤ p) : Known conf p
  | entry {p : ℕ} (hp : (conf p).toNat < 5) (hrest : Known conf (p + if conf p = 0 then 20 else 8)) :
    Known conf p

variable {conf : ℕ → UInt8} {s : Scan}

lemma entry_of_known (h : (conf s.p).toNat < 5) :
    (entry conf s).p = s.p + (if conf s.p = 0 then 20 else 8) ∧ (entry conf s).ismp = s.ismp := by
  have hzero : conf s.p = 0 ↔ (conf s.p).toNat = 0 := UInt8.toNat_inj.symm
  unfold entry
  split <;> simp_all
  omega

lemma entry_of_unknown (h : ¬ (conf s.p).toNat < 5) :
    entry conf s = { s with ismp := false } := by
  unfold entry
  split <;> first | omega | rfl

lemma scan_of_unknown (hp : s.p < length conf) (h : ¬ (conf s.p).toNat < 5) (fuel : ℕ) :
    scan conf fuel s = none := by
  induction fuel generalizing s with
  | zero => rfl
  | succ fuel ih =>
    rw [scan, if_pos hp, entry_of_unknown h]
    exact ih hp h

lemma known_of_scan {fuel : ℕ} (h : (scan conf fuel s).isSome) : Known conf s.p := by
  induction fuel generalizing s with
  | zero => cases h
  | succ fuel ih =>
    by_cases hp : s.p < length conf
    · by_cases hs : (conf s.p).toNat < 5
      · rw [scan, if_pos hp] at h
        exact .entry hs ((entry_of_known hs).1 ▸ ih h)
      · rw [scan_of_unknown hp hs] at h
        cases h
    · exact .done (Nat.le_of_not_lt hp)

lemma Known.scan {p : ℕ} (h : Known conf p) (hp : s.p = p) :
    ∃ fuel, (scan conf fuel s).isSome := by
  induction h generalizing s with
  | done hdone =>
    refine ⟨1, ?_⟩
    rw [Boot.scan, if_neg (by omega)]
    rfl
  | entry hs _ ih =>
    subst hp
    obtain ⟨fuel, hfuel⟩ := ih (entry_of_known hs).1
    by_cases hp : s.p < length conf
    · refine ⟨fuel + 1, ?_⟩
      rwa [Boot.scan, if_pos hp]
    · refine ⟨1, ?_⟩
      rw [Boot.scan, if_neg hp]
      rfl

/-- A scan that ends has not met an entry of an unknown type. -/
lemma ismp_of_scan {fuel : ℕ} {t : Scan} (hs : s.ismp) (hscan : scan conf fuel s = some t) :
    t.ismp := by
  induction fuel generalizing s with
  | zero => cases hscan
  | succ fuel ih =>
    by_cases hp : s.p < length conf
    · by_cases h : (conf s.p).toNat < 5
      · rw [scan, if_pos hp] at hscan
        exact ih ((entry_of_known h).2.trans hs) hscan
      · cases (scan_of_unknown hp h _).symm.trans hscan
    rw [scan, if_neg hp] at hscan
    cases hscan
    exact hs

/-- `mpinit` ends exactly if the entries of an accepted table have known types; it never gets to
reject a table for its entries. -/
theorem mpinit_ends (conf : ℕ → UInt8) :
    ((∃ fuel, (mpinit conf fuel).isSome) ↔ (mpconfig conf → Known conf 44)) ∧
    ∀ fuel, mpinit conf fuel ≠ some (.panic "Didn't find a suitable machine") := by
  unfold mpinit
  constructor
  · by_cases hconf : mpconfig conf
    · simp only [if_pos hconf, Option.isSome_map]
      exact ⟨fun ⟨_, h⟩ _ => known_of_scan h, fun h => (h hconf).scan rfl⟩
    · simp [hconf]
  · intro fuel heq
    split at heq
    · obtain ⟨t, ht, hpanic⟩ := Option.map_eq_some_iff.mp heq
      rw [if_pos (ismp_of_scan rfl ht)] at hpanic
      cases hpanic
    · simp at heq

/-- A table that `mpconfig` accepts, with one entry, of type 5. -/
def unknownEntry (i : ℕ) : UInt8 :=
  [80, 67, 77, 80, 45, 0, 1, 157].getD i (if i = 44 then 5 else 0)

theorem mpinit_hangs : mpconfig unknownEntry ∧ ∀ fuel, mpinit unknownEntry fuel = none := by
  have hconf : mpconfig unknownEntry := by decide +kernel
  refine ⟨hconf, fun fuel => ?_⟩
  rw [mpinit, if_pos hconf, scan_of_unknown (by decide) (by decide)]
  rfl

end Xv6.Boot
