import Mathlib.Computability.Language

/-!
# The regular expressions of `grep`

`matchhere`, `matchstar` and `match` of `grep.c`, and the language of a pattern: a list of atoms,
each a character or `.`, with or without a `*` behind it.

## Implementation notes

A string is the list of the bytes before its terminator, so the end of the list is where the
source reads `'\0'`. `match` is a keyword; the source's function is `matchRe` here.
-/

namespace Xv6.Strings

/-! ### The matcher -/

/-- The characters `^`, `$`, `*` and `.`. -/
def caret : UInt8 := 94

@[inherit_doc caret] def dollar : UInt8 := 36

@[inherit_doc caret] def asterisk : UInt8 := 42

@[inherit_doc caret] def dot : UInt8 := 46

mutual

/-- `matchhere`: search for `re` at the beginning of `text`. -/
def matchhere (re text : List UInt8) : Bool :=
  match re with
  | [] => true
  | c :: re =>
    if re.head? = some asterisk then matchstar c re.tail text
    else if c = dollar ∧ re = [] then text.isEmpty
    else match text with
      | [] => false
      | t :: text => (c == dot || c == t) && matchhere re text
termination_by (re.length, text.length, 0)

/-- `matchstar`: search for `c*re` at the beginning of `text`. -/
def matchstar (c : UInt8) (re text : List UInt8) : Bool :=
  matchhere re text ||
    match text with
    | [] => false
    | t :: text => (t == c || c == dot) && matchstar c re text
termination_by (re.length, text.length, 1)

end

/-- The loop of `match`, which looks at the empty rest as well. -/
def search (re : List UInt8) : List UInt8 → Bool
  | [] => matchhere re []
  | t :: text => matchhere re (t :: text) || search re text

/-- `match`. -/
def matchRe (re text : List UInt8) : Bool :=
  if re.head? = some caret then matchhere re.tail text else search re text

/-! ### The language of a pattern -/

/-- A character, and whether a `*` stands behind it. -/
abbrev Atom := UInt8 × Bool

/-- The atoms of a pattern, from the left: a `*` that no character precedes is a character. -/
def atoms : List UInt8 → List Atom
  | [] => []
  | [c] => [(c, false)]
  | c :: s :: re => if s = asterisk then (c, true) :: atoms re else (c, false) :: atoms (s :: re)

/-- `c` stands for `x`. -/
def StandsFor (c x : UInt8) : Prop := c = dot ∨ c = x

/-- The one-letter words an atom's character stands for. -/
def letters (c : UInt8) : Language UInt8 := {w | ∃ x, StandsFor c x ∧ w = [x]}

open Computability in
/-- The words of an atom. -/
def Atom.language (a : Atom) : Language UInt8 := if a.2 then (letters a.1)∗ else letters a.1

/-- The words of a list of atoms. -/
def language (as : List Atom) : Language UInt8 := (as.map Atom.language).prod

/-- The last atom is `$`. -/
def AtEnd (as : List Atom) : Prop := as.getLast? = some (dollar, false)

instance (as : List Atom) : Decidable (AtEnd as) := inferInstanceAs (Decidable (_ = _))

/-- The atoms without a `$` at the end. -/
def body (as : List Atom) : List Atom := if AtEnd as then as.dropLast else as

/-- Any text, but none where there is an anchor. -/
def beside (anchor : Prop) [Decidable anchor] : Language UInt8 := if anchor then 1 else ⊤

/-- The texts that start with a word of the atoms. -/
def texts (as : List Atom) : Language UInt8 := language (body as) * beside (AtEnd as)

variable {c : UInt8} {a : Atom} {as : List Atom} {re text : List UInt8} {L : Language UInt8}

@[simp] lemma mem_top : text ∈ (⊤ : Language UInt8) := trivial

lemma mem_beside {p : Prop} [Decidable p] : text ∈ beside p ↔ p → text = [] := by
  by_cases h : p <;> simp [beside, h]

lemma texts_nil : texts [] = ⊤ := one_mul _

lemma texts_dollar : texts [(dollar, false)] = 1 := one_mul _

/-- Any atom but a final `$` leaves the rest of the text to the atoms behind. -/
lemma texts_cons (h : ¬(a = (dollar, false) ∧ as = [])) :
    texts (a :: as) = a.language * texts as := by
  have hend : AtEnd (a :: as) ↔ AtEnd as := by
    cases as with
    | nil => simpa [AtEnd] using h
    | cons b as => rw [AtEnd, AtEnd, List.getLast?_cons_cons]
  have hbody : body (a :: as) = a :: body as := by
    unfold body
    by_cases he : AtEnd as
    · rw [if_pos he, if_pos (hend.mpr he), List.dropLast_cons_of_ne_nil]
      rintro rfl
      exact nomatch he
    · rw [if_neg he, if_neg fun h => he (hend.mp h)]
  have hbeside : beside (AtEnd (a :: as)) = beside (AtEnd as) := by simp only [beside, hend]
  rw [texts, hbody, hbeside, texts, ← mul_assoc]
  exact congrArg (· * _) List.prod_cons

lemma texts_char (h : ¬(c = dollar ∧ as = [])) :
    texts ((c, false) :: as) = letters c * texts as :=
  texts_cons fun ⟨hc, ha⟩ => h ⟨congrArg Prod.fst hc, ha⟩

lemma mem_letters_mul :
    text ∈ letters c * L ↔ ∃ x rest, text = x :: rest ∧ StandsFor c x ∧ rest ∈ L := by
  rw [Language.mem_mul]
  constructor
  · rintro ⟨_, ⟨x, hx, rfl⟩, rest, hr, rfl⟩
    exact ⟨x, rest, rfl, hx, hr⟩
  · rintro ⟨x, rest, rfl, hx, hr⟩
    exact ⟨[x], ⟨x, hx, rfl⟩, rest, hr, rfl⟩

/-- A starred atom takes nothing, or one character and then again. -/
lemma mem_star_mul : text ∈ Atom.language (c, true) * L ↔
    text ∈ L ∨ text ∈ letters c * (Atom.language (c, true) * L) := by
  have hstar : Atom.language (c, true) = 1 + letters c * Atom.language (c, true) :=
    (Language.one_add_self_mul_kstar_eq_kstar _).symm
  nth_rewrite 1 [hstar]
  rw [add_mul, one_mul, mul_assoc]
  rfl

/-! ### The matcher decides the language -/

lemma matchstar_iff (ih : ∀ text, matchhere re text ↔ text ∈ L) :
    matchstar c re text ↔ text ∈ Atom.language (c, true) * L := by
  induction text with
  | nil =>
    rw [matchstar, mem_star_mul]
    simp [ih, mem_letters_mul]
  | cons t text iht =>
    rw [matchstar, mem_star_mul]
    simp [ih, iht, mem_letters_mul, StandsFor, eq_comm (a := c), or_comm (a := t = c)]

lemma matchhere_iff : matchhere re text ↔ text ∈ texts (atoms re) := by
  induction hn : re.length using Nat.strongRecOn generalizing re text with
  | ind n ih =>
    match re with
    | [] => simp [matchhere, atoms, texts_nil]
    | [c] =>
      rw [matchhere.eq_def, atoms]
      by_cases hc : c = dollar
      · simp [hc, texts_dollar]
      rw [texts_char fun h => hc h.1, mem_letters_mul, texts_nil]
      cases text <;> simp [hc, matchhere, StandsFor]
    | c :: s :: re =>
      rw [matchhere.eq_def, atoms]
      by_cases hs : s = asterisk
      · simp only [hs, List.head?_cons, if_true, List.tail_cons]
        rw [texts_cons (by simp)]
        exact matchstar_iff fun _ => ih _ (by simp only [← hn, List.length_cons]; omega) rfl
      have ihs := fun text => @ih _ (by simp [← hn]) (s :: re) text rfl
      have hne : atoms (s :: re) ≠ [] := by
        rcases re with _ | ⟨r, re⟩
        · simp [atoms]
        rw [atoms]
        split <;> simp
      rw [if_neg hs, texts_char fun h => hne h.2, mem_letters_mul]
      cases text <;> simp [hs, ihs, StandsFor]

lemma search_iff : search re text ↔ ∃ u v, matchhere re v ∧ u ++ v = text := by
  induction text with
  | nil => simp [search]
  | cons t text ih =>
    rw [search, Bool.or_eq_true, ih]
    constructor
    · rintro (h | ⟨u, v, h, rfl⟩)
      · exact ⟨[], _, h, rfl⟩
      · exact ⟨t :: u, v, h, rfl⟩
    rintro ⟨_ | ⟨_, u⟩, v, h, ht⟩
    · exact .inl (ht ▸ h)
    · exact .inr ⟨u, v, h, (List.cons.inj ht).2⟩

/-- `match` returns 1 on the texts that have a word of the pattern in them: at the beginning
behind a `^`, at the end before a `$`. -/
theorem matchRe_iff (re text : List UInt8) :
    let anchored := re.head? = some caret
    let as := atoms (if anchored then re.tail else re)
    matchRe re text = true ↔ ∃ u w v, text = u ++ w ++ v ∧ w ∈ language (body as) ∧
      (anchored → u = []) ∧ (AtEnd as → v = []) := by
  intro anchored as
  have key : matchRe re text ↔ text ∈ beside anchored * texts as := by
    unfold matchRe
    by_cases h : re.head? = some caret
    · simp [as, anchored, h, matchhere_iff, beside]
    · simp [as, anchored, h, search_iff, matchhere_iff, beside, Language.mem_mul]
  rw [key, texts, ← mul_assoc]
  simp only [Language.mem_mul, mem_beside]
  constructor
  · rintro ⟨_, ⟨u, hu, w, hw, rfl⟩, v, hv, rfl⟩
    exact ⟨u, w, v, rfl, hw, hu, hv⟩
  · rintro ⟨u, w, v, rfl, hw, hu, hv⟩
    exact ⟨_, ⟨u, hu, w, hw, rfl⟩, v, hv, rfl⟩

end Xv6.Strings
