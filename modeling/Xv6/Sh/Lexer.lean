import Xv6.Lib.Exec
import Xv6.Lib.Scan

/-!
# The shell: cutting a line into tokens

`gettoken` and `peek` of `sh.c` work on a buffer of bytes that ends with a NUL
byte. The cursor `*ps` is a position in the buffer and part of the state; the
end `es` is passed along, as in the source.

## Implementation notes

Positions are offsets into the line. A pointer that may be NULL is an `Option`.
Bytes are compared as the source compares characters, so every byte that is
neither NUL, white space nor one of `symbols` belongs to a word.
-/

namespace Xv6.Sh
open Xv6.Lib

/-- What ends the shell's child besides an `exit`: a call of `panic`. -/
inductive Fault
  | panic (message : String)
  -- artefacts of the model, shown not to occur
  | fuel
  | bounds
deriving DecidableEq, Repr

/-- `whitespace`: blank, tab, return, newline, vertical tab. -/
def whitespace : List UInt8 := [32, 9, 13, 10, 11]

/-- The bytes `<|>&;()`. -/
def symbols : List UInt8 := [60, 124, 62, 38, 59, 40, 41]

/-- The return value, `*q` and `*eq` of a call of `gettoken`. -/
structure Lexeme where
  ret : UInt8
  q : ℕ
  eq : ℕ
deriving DecidableEq, Repr

section
variable (buf : ℕ → UInt8) (es : ℕ)

/-- `while (s < es && strchr(whitespace, *s)) s++` -/
def skip (s : ℕ) : ℕ := scan (fun i => decide (buf i ∈ whitespace)) es s

/-- The loop over the bytes of a word. -/
def wordEnd (s : ℕ) : ℕ := scan (fun i => decide (buf i ∉ whitespace ∧ buf i ∉ symbols)) es s

/-- The `switch (*s)` of `gettoken`: what it returns and where the token ends. -/
def switch (s : ℕ) : UInt8 × ℕ :=
  if buf s = 0 then (0, s)
  -- '|', '(', ')', ';', '&' and '<'
  else if buf s ∈ ([124, 40, 41, 59, 38, 60] : List UInt8) then (buf s, s + 1)
  -- '>' and, returned as '+', two of them
  else if buf s = 62 then
    if buf (s + 1) = 62 then (43, s + 2) else (buf s, s + 1)
  -- a word is returned as 'a'
  else (97, wordEnd buf es s)

/-- What `gettoken` finds from position `s` on, and the position it leaves in `*ps`. -/
def lexeme (s : ℕ) : Lexeme × ℕ :=
  let q := skip buf es s
  let r := switch buf es q
  (⟨r.1, q, r.2⟩, skip buf es r.2)

end

/-- A word of the line, from `q` up to `eq`. -/
structure Word where
  q : ℕ
  eq : ℕ
deriving DecidableEq, Repr

/-- The tokens of the grammar. -/
inductive Token
  | bar
  | lpar
  | rpar
  | semi
  | amp
  | lt
  | gt
  | gtgt
  | word (w : Word)
deriving DecidableEq, Repr

/-- The value that `gettoken` returns for a token. -/
def Token.ret : Token → UInt8
  | bar => 124
  | lpar => 40
  | rpar => 41
  | semi => 59
  | amp => 38
  | lt => 60
  | gt => 62
  | gtgt => 43
  | word _ => 97

/-- The byte that `peek` sees at a symbol. -/
def Token.first : Token → UInt8
  | gtgt => 62
  | t => t.ret

/-- The token that a lexeme is, unless it is the end of the line. -/
def Lexeme.token (x : Lexeme) : Option Token :=
  if x.ret = 0 then none
  else some <|
    if x.ret = 124 then .bar
    else if x.ret = 40 then .lpar
    else if x.ret = 41 then .rpar
    else if x.ret = 59 then .semi
    else if x.ret = 38 then .amp
    else if x.ret = 60 then .lt
    else if x.ret = 62 then .gt
    else if x.ret = 43 then .gtgt
    else .word ⟨x.q, x.eq⟩

/-- At most `n` tokens, as repeated calls of `gettoken` from `s` on return them. -/
def tokensFrom (buf : ℕ → UInt8) (es : ℕ) : ℕ → ℕ → List Token
  | 0, _ => []
  | n + 1, s =>
    match (lexeme buf es s).1.token with
    | none => []
    | some t => t :: tokensFrom buf es n (lexeme buf es s).2

/-- The tokens from position `s` to the end. -/
def tokens (buf : ℕ → UInt8) (es s : ℕ) : List Token := tokensFrom buf es (es - s) s

/-! ## What the loops pass over -/

/-- The buffer holds a string that ends at `es`. -/
structure Ends (buf : ℕ → UInt8) (es : ℕ) : Prop where
  nul : buf es = 0
  nonzero : ∀ i < es, buf i ≠ 0

/-- A byte that belongs to a word. -/
def IsWordByte (c : UInt8) : Prop := c ≠ 0 ∧ c ∉ whitespace ∧ c ∉ symbols

/-- The bytes of the word are word bytes, and the one after them is not. -/
structure Word.Cut (buf : ℕ → UInt8) (es : ℕ) (w : Word) : Prop where
  nonempty : w.q < w.eq
  inside : w.eq ≤ es
  bytes : ∀ i, w.q ≤ i → i < w.eq → IsWordByte (buf i)
  stop : ¬ IsWordByte (buf w.eq)

section
variable {buf : ℕ → UInt8} {es s : ℕ}

lemma skip_le (h : s ≤ es) : skip buf es s ≤ es := scan_le h

lemma le_skip : s ≤ skip buf es s := le_scan

lemma skip_skip (h : s ≤ es) : skip buf es (skip buf es s) = skip buf es s := scan_scan h

/-- After white space stands the end or something that is not white space. -/
lemma not_whitespace_skip (hb : Ends buf es) (h : s ≤ es) : buf (skip buf es s) ∉ whitespace := by
  obtain hs | hs := scan_stops h
  · rw [skip, hs, hb.nul]
    decide
  · exact of_decide_eq_false hs

lemma cut_wordEnd (hb : Ends buf es) (h : s ≤ es) (hs : IsWordByte (buf s)) :
    Word.Cut buf es ⟨s, wordEnd buf es s⟩ := by
  have hlt : s < es := by
    refine lt_of_le_of_ne h fun heq => hs.1 ?_
    rw [heq, hb.nul]
  refine ⟨lt_scan hlt (by simp [hs.2]), scan_le h, fun i hsi hi => ?_, fun hstop => ?_⟩
  · have hw := of_lt_scan hsi hi
    exact ⟨hb.nonzero i (hi.trans_le (scan_le h)), by simpa using hw⟩
  obtain he | he := scan_stops h
  · apply hstop.1
    change buf (scan _ es s) = 0
    rw [he, hb.nul]
  · exact of_decide_eq_false he hstop.2

/-- The token that stands between two positions. -/
inductive Spans (buf : ℕ → UInt8) (es : ℕ) : Token → ℕ → ℕ → Prop
  | symbol {t : Token} {s : ℕ} (hs : buf s = t.ret) (ht : t.ret ∈ symbols) (hlt : s < es) :
      Spans buf es t s (s + 1)
  | gtgt {s : ℕ} (hs : buf s = 62) (hs' : buf (s + 1) = 62) (hlt : s + 1 < es) :
      Spans buf es .gtgt s (s + 2)
  | word {w : Word} (h : w.Cut buf es) : Spans buf es (.word w) w.q w.eq

variable {t : Token} {e : ℕ}

lemma Token.word_not_symbol : (97 : UInt8) ∉ symbols := by decide

lemma Spans.cut {w : Word} (h : Spans buf es (.word w) s e) : w.Cut buf es := by
  cases h with
  | symbol _ ht _ => exact absurd ht Token.word_not_symbol
  | word h => exact h

section
variable (h : Spans buf es t s e)
include h

lemma Spans.bounds : s < e ∧ e ≤ es := by
  cases h with
  | symbol _ _ hlt => exact ⟨Nat.lt_succ_self s, hlt⟩
  | gtgt _ _ hlt => exact ⟨by omega, by omega⟩
  | word h => exact ⟨h.nonempty, h.inside⟩

lemma Spans.token_eq : Lexeme.token ⟨t.ret, s, e⟩ = some t := by
  cases h with
  | symbol _ ht _ => cases t <;> first | rfl | simp [Token.ret, symbols] at ht
  | gtgt => rfl
  | word => rfl

lemma Spans.first_mem_iff {cs : List UInt8} (hcs : cs ⊆ symbols) :
    buf s ≠ 0 ∧ buf s ∈ cs ↔ t.first ∈ cs := by
  cases h with
  | symbol hs ht _ =>
    have hfirst : t.first = t.ret := by cases t <;> first | rfl | simp [Token.ret, symbols] at ht
    rw [hs, hfirst]
    refine ⟨And.right, fun h => ⟨fun h0 => ?_, h⟩⟩
    rw [h0] at ht
    exact absurd ht (by decide)
  | gtgt hs =>
    rw [hs]
    exact ⟨And.right, fun h => ⟨by decide, h⟩⟩
  | word hw =>
    have hbyte := hw.bytes _ le_rfl hw.nonempty
    exact ⟨fun h => absurd (hcs h.2) hbyte.2.2, fun h => absurd (hcs h) Token.word_not_symbol⟩

end

section
variable (hb : Ends buf es) (h : s ≤ es)
include hb h

/-- A position inside the line holds a byte that is not NUL. -/
lemma Ends.lt (hs : buf s ≠ 0) : s < es := by
  refine lt_of_le_of_ne h fun heq => hs ?_
  rw [heq, hb.nul]

lemma switch_cases (hs : buf s ∉ whitespace) :
    (s = es ∧ switch buf es s = (0, es)) ∨
      ∃ t e, Spans buf es t s e ∧ switch buf es s = (t.ret, e) := by
  by_cases h0 : buf s = 0
  · have hse : s = es := by
      by_contra hne
      exact hb.nonzero s (lt_of_le_of_ne h hne) h0
    subst hse
    exact .inl ⟨rfl, by simp [switch, h0]⟩
  have hlt := hb.lt h h0
  refine .inr ?_
  by_cases h6 : buf s ∈ ([124, 40, 41, 59, 38, 60] : List UInt8)
  · have hsw : switch buf es s = (buf s, s + 1) := by
      unfold switch
      rw [if_neg h0, if_pos h6]
    have hmem : ∀ t : Token, t.ret = buf s → t.ret ∈ symbols →
        ∃ t e, Spans buf es t s e ∧ switch buf es s = (t.ret, e) :=
      fun t ht hsym => ⟨t, s + 1, .symbol ht.symm hsym hlt, by rw [hsw, ht]⟩
    simp only [List.mem_cons, List.not_mem_nil, or_false] at h6
    obtain h | h | h | h | h | h := h6
    · exact hmem .bar h.symm (by decide)
    · exact hmem .lpar h.symm (by decide)
    · exact hmem .rpar h.symm (by decide)
    · exact hmem .semi h.symm (by decide)
    · exact hmem .amp h.symm (by decide)
    · exact hmem .lt h.symm (by decide)
  by_cases hgt : buf s = 62
  · by_cases hgt' : buf (s + 1) = 62
    · have hlt' : s + 1 < es := hb.lt hlt (by rw [hgt']; decide)
      refine ⟨.gtgt, s + 2, .gtgt hgt hgt' hlt', ?_⟩
      unfold switch
      rw [if_neg h0, if_neg h6, if_pos hgt, if_pos hgt']
      rfl
    refine ⟨.gt, s + 1, .symbol hgt (by decide) hlt, ?_⟩
    unfold switch
    rw [if_neg h0, if_neg h6, if_pos hgt, if_neg hgt', hgt]
    rfl
  have hword : IsWordByte (buf s) := by
    refine ⟨h0, hs, fun hsym => ?_⟩
    simp only [symbols, List.mem_cons, List.not_mem_nil, or_false] at hsym h6
    tauto
  refine ⟨.word ⟨s, wordEnd buf es s⟩, _, .word (cut_wordEnd hb h hword), ?_⟩
  unfold switch
  rw [if_neg h0, if_neg h6, if_neg hgt]
  rfl

lemma lexeme_cases :
    (skip buf es s = es ∧ lexeme buf es s = (⟨0, es, es⟩, es)) ∨
      ∃ t e, Spans buf es t (skip buf es s) e ∧
        lexeme buf es s = (⟨t.ret, skip buf es s, e⟩, skip buf es e) := by
  obtain ⟨he, hsw⟩ | ⟨t, e, hspan, hsw⟩ := switch_cases hb (skip_le h) (not_whitespace_skip hb h)
  · refine .inl ⟨he, ?_⟩
    have hskip : skip buf es es = es := scan_end
    rw [he] at hsw
    simp only [lexeme, he, hsw, hskip]
  · exact .inr ⟨t, e, hspan, by simp only [lexeme, hsw]⟩

end

/-! ## The tokens of a line -/

section
variable (hb : Ends buf es)
include hb

lemma tokensFrom_end (n : ℕ) (h : s ≤ es)
    (he : skip buf es s = es) : tokensFrom buf es n s = [] := by
  rcases n with _ | n
  · rfl
  obtain ⟨_, hlex⟩ | ⟨t, e, hspan, _⟩ := lexeme_cases hb h
  · simp [tokensFrom, hlex, Lexeme.token]
  have := hspan.bounds
  omega

/-- More calls of `gettoken` than the line has bytes find no more tokens. -/
lemma tokensFrom_eq {n m : ℕ} (h : s ≤ es) (hn : es - s ≤ n)
    (hm : es - s ≤ m) : tokensFrom buf es n s = tokensFrom buf es m s := by
  induction n generalizing s m with
  | zero =>
    have hse : s = es := by omega
    subst hse
    rw [tokensFrom_end hb m le_rfl scan_end]
    rfl
  | succ n ih =>
    obtain ⟨he, _⟩ | ⟨t, e, hspan, hlex⟩ := lexeme_cases hb h
    · rw [tokensFrom_end hb _ h he, tokensFrom_end hb _ h he]
    have hbounds := hspan.bounds
    have hs := @le_skip buf es s
    have he := @le_skip buf es e
    obtain ⟨m, rfl⟩ : ∃ k, m = k + 1 := ⟨m - 1, by omega⟩
    simp only [tokensFrom, hlex, hspan.token_eq]
    rw [ih (m := m) (skip_le hbounds.2) (by omega) (by omega)]

lemma tokens_cases (h : s ≤ es) :
    (tokens buf es s = [] ∧ skip buf es s = es ∧ lexeme buf es s = (⟨0, es, es⟩, es)) ∨
      ∃ t e, tokens buf es s = t :: tokens buf es (skip buf es e) ∧
        Spans buf es t (skip buf es s) e ∧
        lexeme buf es s = (⟨t.ret, skip buf es s, e⟩, skip buf es e) := by
  obtain ⟨he, hlex⟩ | ⟨t, e, hspan, hlex⟩ := lexeme_cases hb h
  · exact .inl ⟨tokensFrom_end hb _ h he, he, hlex⟩
  refine .inr ⟨t, e, ?_, hspan, hlex⟩
  have hbounds := hspan.bounds
  have hs := @le_skip buf es s
  have he := @le_skip buf es e
  unfold tokens
  obtain ⟨n, hn⟩ : ∃ n, es - s = n + 1 := ⟨es - s - 1, by omega⟩
  rw [hn]
  simp only [tokensFrom, hlex, hspan.token_eq]
  rw [tokensFrom_eq hb (skip_le hbounds.2) (by omega) le_rfl]

lemma tokens_skip (h : s ≤ es) : tokens buf es (skip buf es s) = tokens buf es s := by
  obtain ⟨ht, he, _⟩ | ⟨t, e, ht, hspan, hlex⟩ := tokens_cases hb h
  · rw [ht]
    exact tokensFrom_end hb _ (skip_le h) (by rw [skip_skip h, he])
  obtain ⟨_, he, _⟩ | ⟨t', e', ht', hspan', hlex'⟩ := tokens_cases hb (skip_le h)
  · have := hspan.bounds
    rw [skip_skip h] at he
    omega
  have hsame : lexeme buf es (skip buf es s) = lexeme buf es s := by
    simp only [lexeme, skip_skip h]
  rw [hsame, hlex, skip_skip h] at hlex'
  rw [skip_skip h] at hspan'
  obtain ⟨hret, hskip⟩ := Prod.mk.inj hlex'
  have htok : some t = some t' := by
    rw [← hspan.token_eq, hret, hspan'.token_eq]
  rw [ht, ht', Option.some.inj htok, hskip]

/-- Every word among the tokens is a word of the line. -/
lemma cut_of_mem_tokens (h : s ≤ es) {w : Word}
    (hw : .word w ∈ tokens buf es s) : w.Cut buf es := by
  generalize hts : tokens buf es s = ts at hw
  induction ts generalizing s with
  | nil => cases hw
  | cons t ts ih =>
    obtain ⟨hnil, _⟩ | ⟨t', e, hcons, hspan, _⟩ := tokens_cases hb h
    · rw [hts] at hnil
      cases hnil
    rw [hts] at hcons
    obtain ⟨rfl, rfl⟩ := List.cons.inj hcons
    obtain heq | hmem := List.mem_cons.mp hw
    · subst heq
      exact hspan.cut
    · exact ih (skip_le hspan.bounds.2) rfl hmem

end
end

end Xv6.Sh
