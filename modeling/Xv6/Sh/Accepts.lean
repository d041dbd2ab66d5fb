import Xv6.Sh.Refines

/-!
# The shell: the parser accepts its grammar

`parsecmd` returns exactly for the lines whose tokens the grammar derives. The
pointer it returns leads to the tree of the derivation, and `nulterminate` has
turned every word of the tree into a NUL-terminated string; for all other lines
it panics.

## Implementation notes

The byte behind a word is not a byte of any word, so that no NUL byte is
written into a word.
-/

namespace Xv6.Sh
open Xv6.Lib Exec List

/-! ## The words of a tree -/

/-- The words and file names of a tree. -/
def Cmd.words : Cmd → List Word
  | exec argv => argv
  | redir c r => c.words ++ [r.file]
  | pipe c d => c.words ++ d.words
  | list c d => c.words ++ d.words
  | back c => c.words

/-- The number of nested nodes. -/
def Cmd.depth : Cmd → ℕ
  | exec _ => 1
  | redir c _ => c.depth + 1
  | pipe c d => max c.depth d.depth + 1
  | list c d => max c.depth d.depth + 1
  | back c => c.depth + 1

lemma words_back (k : ℕ) (c : Cmd) : (Cmd.back^[k] c).words = c.words := by
  induction k generalizing c with
  | zero => rfl
  | succ k ih => exact ih (.back c)

lemma depth_back (k : ℕ) (c : Cmd) : (Cmd.back^[k] c).depth = c.depth + k := by
  induction k generalizing c with
  | zero => rfl
  | succ k ih =>
    have := ih (.back c)
    simp only [Function.iterate_succ, Function.comp_apply, this, Cmd.depth]
    omega

lemma words_wrap (rs : List Redir) (c : Cmd) :
    (c.wrap rs).words = c.words ++ rs.map Redir.file := by
  induction rs generalizing c with
  | nil => simp [Cmd.wrap]
  | cons r rs ih =>
    have := ih (.redir c r)
    simpa [Cmd.wrap, Cmd.words] using this

lemma depth_wrap (rs : List Redir) (c : Cmd) : (c.wrap rs).depth = c.depth + rs.length := by
  induction rs generalizing c with
  | nil => rfl
  | cons r rs ih =>
    have := ih (.redir c r)
    simp only [Cmd.wrap, foldl_cons, length_cons, Cmd.depth] at this ⊢
    omega

section
variable {ts : List Token} {x : Nonterminal} {c : Cmd} {w : Word}

lemma mem_redirTokens {rs : List Redir} (h : w ∈ rs.map Redir.file) :
    .word w ∈ redirTokens rs := by
  obtain ⟨r, hr, rfl⟩ := mem_map.mp h
  exact mem_flatMap.mpr ⟨r, hr, by simp [Redir.tokens]⟩

lemma Derives.mem_tokens (h : Derives x ts c) (hw : w ∈ c.words) : .word w ∈ ts := by
  induction h with
  | last _ k ih =>
    rw [words_back] at hw
    exact mem_append_left _ (ih hw)
  | next _ k _ ih ih' =>
    rw [Cmd.words, words_back] at hw
    obtain hw | hw := mem_append.mp hw
    · exact mem_append_left _ (ih hw)
    · exact mem_append_right _ (mem_append_right _ (mem_cons_of_mem _ (ih' hw)))
  | single _ ih => exact ih hw
  | piped _ _ ih ih' =>
    obtain hw | hw := mem_append.mp hw
    · exact mem_append_left _ (ih hw)
    · exact mem_append_right _ (mem_cons_of_mem _ (ih' hw))
  | block _ rs ih =>
    rw [words_wrap] at hw
    refine mem_cons_of_mem _ ?_
    obtain hw | hw := mem_append.mp hw
    · exact mem_append_left _ (ih hw)
    · exact mem_append_right _ (mem_cons_of_mem _ (mem_redirTokens hw))
  | simple rs as _ =>
    rw [Cmd.simple, words_wrap] at hw
    simp only [Cmd.words, map_append, mem_append, map_flatMap, mem_flatMap] at hw
    obtain hw | hw | ⟨a, ha, hw⟩ := hw
    · obtain ⟨a, ha, rfl⟩ := mem_map.mp hw
      exact mem_append_right _ (mem_flatMap.mpr ⟨a, ha, mem_cons_self⟩)
    · exact mem_append_left _ (mem_redirTokens hw)
    · exact mem_append_right _ (mem_flatMap.mpr ⟨a, ha, mem_cons_of_mem _ (mem_redirTokens hw)⟩)

lemma length_redirTokens (rs : List Redir) : (redirTokens rs).length = 2 * rs.length := by
  induction rs with
  | nil => rfl
  | cons r rs ih =>
    simp only [redirTokens, flatMap_cons, length_append, length_cons] at ih ⊢
    simp only [Redir.tokens, length_cons, length_nil]
    omega

lemma length_argTokens (as : List Arg) :
    (as.flatMap Arg.redirs).length ≤ (argTokens as).length := by
  induction as with
  | nil => exact le_rfl
  | cons a as ih =>
    simp only [argTokens, flatMap_cons, length_append, length_cons, length_redirTokens] at ih ⊢
    omega

/-- A tree is not deeper than it has tokens. -/
lemma Derives.depth_le (h : Derives x ts c) : c.depth ≤ ts.length + 1 := by
  induction h with
  | last _ k ih =>
    rw [depth_back, length_append, length_replicate]
    omega
  | next _ k _ ih ih' =>
    simp only [Cmd.depth, depth_back, length_append, length_replicate, length_cons]
    omega
  | single _ ih => exact ih
  | piped _ _ ih ih' =>
    simp only [Cmd.depth, length_append, length_cons]
    omega
  | block _ rs ih =>
    simp only [depth_wrap, length_cons, length_append, length_redirTokens]
    omega
  | simple rs as _ =>
    have := length_argTokens as
    simp only [Cmd.simple, depth_wrap, Cmd.depth, length_append, length_redirTokens]
    omega

end

/-! ## NUL-terminating -/

/-- The buffer after NUL bytes have been written behind some words. -/
def terminated (ws : List Word) (buf : ℕ → UInt8) (i : ℕ) : UInt8 :=
  if i ∈ ws.map Word.eq then 0 else buf i

lemma terminated_append (ws ws' : List Word) (buf : ℕ → UInt8) :
    terminated ws' (terminated ws buf) = terminated (ws ++ ws') buf := by
  funext i
  by_cases h : i ∈ ws.map Word.eq
  · simp only [terminated, map_append, mem_append, h, true_or, if_true, ite_self]
  · simp only [terminated, map_append, mem_append, h, false_or, if_false]

lemma terminated_singleton (w : Word) (buf : ℕ → UInt8) :
    Function.update buf w.eq 0 = terminated [w] buf := by
  funext i
  simp [terminated, Function.update_apply]

/-- The code ends normally and has written NUL bytes behind the words. -/
def Terminates {α : Type} (x : Code α) (ws : List Word) (st : Shell) : Prop :=
  wp x (fun _ st' => st'.heap = st.heap ∧ st'.buf = terminated ws st.buf) (fun _ _ => False) st

section
variable {α β : Type} {st : Shell} {ws ws' : List Word}

lemma Terminates.bind {x : Code α} {f : α → Code β} (hx : Terminates x ws st)
    (hf : ∀ a st', st'.heap = st.heap → Terminates (f a) ws' st') :
    Terminates (x >>= f) (ws ++ ws') st := by
  refine wp_bind.mpr (wp_mono hx ?_ fun _ _ h => h)
  rintro a st' ⟨hheap, hbuf⟩
  refine wp_mono (hf a st' hheap) ?_ fun _ _ h => h
  rintro b st'' ⟨hheap', hbuf'⟩
  exact ⟨hheap'.trans hheap, by rw [hbuf', hbuf, terminated_append]⟩

lemma terminates_pure (a : α) (st : Shell) : Terminates (pure a) [] st :=
  ⟨rfl, by funext i; simp [terminated]⟩

lemma terminates_clear (w : Word) (st : Shell) : Terminates (clear w.eq) [w] st :=
  ⟨rfl, terminated_singleton w st.buf⟩

lemma terminates_get {f : Shell → Code α} (h : Terminates (f st) ws st) :
    Terminates (Exec.get >>= f) ws st := h

lemma Terminates.pure {x : Code α} (hx : Terminates x ws st) (b : β) :
    Terminates (x >>= fun _ => Pure.pure b) ws st := by
  have hpure : ∀ (_ : α) st', st'.heap = st.heap → Terminates (Pure.pure b : Code β) [] st' :=
    fun _ st' _ => terminates_pure b st'
  have h := hx.bind hpure
  rwa [append_nil] at h

end

lemma clearArgs_terminates {argv : List Word} (h : argv.length < MAXARGS) (k i : ℕ)
    (hk : i + k = MAXARGS) (hi : i ≤ argv.length) (st : Shell) :
    Terminates (clearArgs (fun i => argv[i.1]?.map Word.q) (fun i => argv[i.1]?.map Word.eq) k i)
      (argv.drop i) st := by
  induction k generalizing i st with
  | zero => omega
  | succ k ih =>
    have hlt : i < MAXARGS := by omega
    unfold clearArgs
    rw [dif_pos hlt]
    obtain hend | hmore := hi.eq_or_lt
    · simp only [getElem?_eq_none hend.ge, Option.map_none]
      rw [hend, drop_length]
      exact terminates_pure () st
    simp only [getElem?_eq_getElem hmore, Option.map_some]
    rw [drop_eq_getElem_cons hmore]
    exact (terminates_clear argv[i] st).bind fun _ st' _ =>
      ih (i + 1) (by omega) hmore st'

lemma nulterminate_terminates {c : Cmd} {p : Ptr} {n : ℕ} {st : Shell}
    (hc : Points st.heap p c) (hn : c.depth ≤ n) : Terminates (nulterminate n p) c.words st := by
  induction c generalizing p n st with
  | exec argv =>
    obtain ⟨n, rfl⟩ : ∃ m, n = m + 1 := ⟨n - 1, by simp only [Cmd.depth] at hn; omega⟩
    refine terminates_get ?_
    simp only [hc.2, execNode]
    exact (clearArgs_terminates hc.1 MAXARGS 0 (by omega) (Nat.zero_le _) st).pure p
  | redir c r ih =>
    simp only [Cmd.depth] at hn
    obtain ⟨n, rfl⟩ : ∃ m, n = m + 1 := ⟨n - 1, by omega⟩
    obtain ⟨q, hp, hq⟩ := hc
    refine terminates_get ?_
    simp only [hp, Redir.node]
    exact (ih hq (by omega)).bind fun _ st' _ => (terminates_clear r.file st').pure p
  | pipe c d ihc ihd | list c d ihc ihd =>
    simp only [Cmd.depth] at hn
    obtain ⟨n, rfl⟩ : ∃ m, n = m + 1 := ⟨n - 1, by omega⟩
    obtain ⟨q, r, hp, hq, hr⟩ := hc
    refine terminates_get ?_
    simp only [hp]
    refine (ihc hq (by omega)).bind fun _ st' hheap => ?_
    rw [← hheap] at hr
    exact (ihd hr (by omega)).pure p
  | back c ih =>
    simp only [Cmd.depth] at hn
    obtain ⟨n, rfl⟩ : ∃ m, n = m + 1 := ⟨n - 1, by omega⟩
    obtain ⟨q, hp, hq⟩ := hc
    refine terminates_get ?_
    simp only [hp]
    exact (ih hq (by omega)).pure p

/-! ## Strings -/

/-- A NUL-terminated string in the buffer. -/
structure IsString (buf : ℕ → UInt8) (s : ℕ) (text : List UInt8) : Prop where
  bytes : stringAt buf (s + text.length) s = text
  noNul : 0 ∉ text
  nul : buf (s + text.length) = 0

variable {buf : ℕ → UInt8}

/-- Words of the line are strings once NUL bytes stand behind them. -/
lemma isString_terminated {es : ℕ} {ws : List Word} {w : Word}
    (hws : ∀ v ∈ ws, v.Cut buf es) (hw : w ∈ ws) :
    IsString (terminated ws buf) w.q (stringAt buf w.eq w.q) := by
  have hcut := hws w hw
  have hlen : w.q + (stringAt buf w.eq w.q).length = w.eq := by
    have := hcut.nonempty
    simp only [stringAt, length_map, length_range]
    omega
  refine ⟨?_, ?_, ?_⟩
  · rw [hlen]
    refine map_congr_left fun i hi => ?_
    have hlt := mem_range.mp hi
    -- the byte behind a word is not a byte of a word
    refine if_neg fun hmem => ?_
    obtain ⟨v, hv, hveq⟩ := mem_map.mp hmem
    refine (hws v hv).stop ?_
    rw [hveq]
    exact hcut.bytes _ (Nat.le_add_right _ _) (by omega)
  · intro h0
    obtain ⟨i, hi, hzero⟩ := mem_map.mp h0
    have hlt := mem_range.mp hi
    exact (hcut.bytes (w.q + i) (Nat.le_add_right _ _) (by omega)).1 hzero
  · rw [hlen]
    exact if_pos (mem_map.mpr ⟨w, hw, rfl⟩)

/-! ## Whole lines -/

section
variable (l : Line)

lemma Line.ends : Ends l.buf l.bytes.length where
  nul := by simp [Line.buf]
  nonzero i hi := by
    rw [Line.buf, getD_eq_getElem?_getD, getElem?_eq_getElem hi, Option.getD_some]
    exact fun h => l.noNul (h ▸ getElem_mem hi)

lemma Line.at_start : At l.buf l.bytes.length l.start l.tokens := ⟨rfl, Nat.zero_le _, rfl⟩

lemma tokensFrom_length (buf : ℕ → UInt8) (es n s : ℕ) : (tokensFrom buf es n s).length ≤ n := by
  induction n generalizing s with
  | zero => exact le_rfl
  | succ n ih =>
    unfold tokensFrom
    split
    · exact Nat.zero_le _
    rw [length_cons]
    exact Nat.succ_le_succ (ih _)

lemma Line.length_tokens : l.tokens.length ≤ l.bytes.length := tokensFrom_length ..

lemma wp_strlen {n : ℕ} (hn : l.bytes.length ≤ n) {Q : ℕ → Shell → Prop}
    {S : Fault → Shell → Prop} (hQ : Q l.bytes.length l.start) : wp (strlen n 0) Q S l.start := by
  have hend : scan (fun i => decide (l.buf i ≠ 0)) (0 + n) 0 = l.bytes.length := by
    refine scan_eq (Nat.zero_le _) (by omega) (fun i _ hi => ?_) ?_
    · simpa using l.ends.nonzero i hi
    · simpa using l.ends.nul
  change wp (if l.buf (scan (fun i => decide (l.buf i ≠ 0)) (0 + n) 0) = 0 then
    pure (scan (fun i => decide (l.buf i ≠ 0)) (0 + n) 0 - 0) else Exec.stop .fuel) Q S l.start
  rw [hend, if_pos l.ends.nul]
  exact hQ

end

/-- `peek` with no symbols leaves the cursor at the end exactly if no token is left. -/
lemma wp_peek_end {es : ℕ} {st : Shell} {ts : List Token}
    (hb : Ends buf es) (h : At buf es st ts) {Q : Bool → Shell → Prop} {S : Fault → Shell → Prop}
    (hQ : ∀ b st', st'.buf = buf → st'.heap = st.heap → (st'.s = es ↔ ts = []) → Q b st') :
    wp (peek es []) Q S st := by
  obtain ⟨rfl, hin, rfl⟩ := h
  refine hQ _ { st with s := skip st.buf es st.s } rfl rfl ?_
  obtain ⟨hnil, he, _⟩ | ⟨t, e, hcons, hspan, _⟩ := tokens_cases hb hin
  · exact ⟨fun _ => hnil, fun _ => he⟩
  have := hspan.bounds
  refine ⟨fun hs => absurd hs (by dsimp only; omega), fun hnil => ?_⟩
  rw [hnil] at hcons
  cases hcons

/-- A bound on the depth of the recursion that suffices for a line. -/
def Line.fuel (l : Line) : ℕ := 4 * l.bytes.length + 5

/-- The pointer leads to the tree of the only derivation of the line, and the words of the
tree are strings in the buffer. -/
def Line.Accepted (l : Line) (cmd : Ptr) (st : Shell) : Prop :=
  ∃ c, Derives .line l.tokens c ∧ (∀ d, Derives .line l.tokens d → d = c) ∧
    Points st.heap cmd c ∧ ∀ w ∈ c.words, IsString st.buf w.q (l.text w)

/-- The shell panics, and the line has no derivation. -/
def Line.Rejected (l : Line) (e : Fault) : Prop :=
  (∃ message, e = .panic message) ∧ ∀ c, ¬ Derives .line l.tokens c

lemma wp_parsecmd (l : Line) (k : ℕ) :
    wp (parsecmd (l.fuel + k)) l.Accepted (fun e _ => l.Rejected e) l.start := by
  have hfuel : 4 * l.tokens.length + 5 ≤ l.fuel + k := by
    have := l.length_tokens
    unfold Line.fuel
    omega
  have hder := fun c => line_eq_iff hfuel c
  refine wp_bind.mpr (wp_get.mpr ?_)
  refine wp_bind.mpr (wp_strlen l (by unfold Line.fuel; omega) ?_)
  rw [show l.start.s + l.bytes.length = l.bytes.length from Nat.zero_add _]
  have hparse := (parse_agrees l.ends (l.fuel + k)).1 _ _ l.at_start
  refine wp_bind.mpr (wp_mono hparse ?_ fun e st herr => ?_)
  · rintro cmd st ⟨c, ts, hline, hat, hpoints, -⟩
    refine wp_bind.mpr (wp_peek_end l.ends hat fun b st' hbuf hheap hend => ?_)
    refine wp_bind.mpr (wp_get.mpr ?_)
    by_cases hts : ts = []
    · subst hts
      rw [if_neg (not_not.mpr (hend.mpr rfl))]
      have hc := (hder c).mp hline
      rw [← hheap] at hpoints
      have hdepth : c.depth ≤ l.fuel + k := hc.depth_le.trans (by omega)
      refine wp_bind.mpr (wp_mono (nulterminate_terminates hpoints hdepth) ?_ fun _ _ h => h.elim)
      rintro _ st'' ⟨hheap', hbuf'⟩
      refine (wp_pure _).mpr ⟨c, hc, fun d hd => ?_, hheap' ▸ hpoints, fun w hw => ?_⟩
      · have := hline.symm.trans ((hder d).mpr hd)
        simp only [Except.ok.injEq, Prod.mk.injEq, and_true] at this
        exact this.symm
      rw [hbuf', hbuf]
      have hcut : ∀ v ∈ c.words, v.Cut l.buf l.bytes.length := fun v hv =>
        cut_of_mem_tokens l.ends (Nat.zero_le _) (hc.mem_tokens hv)
      exact isString_terminated hcut hw
    rw [if_pos (mt hend.mp hts)]
    refine ⟨⟨_, rfl⟩, fun d hd => hts ?_⟩
    have := hline.symm.trans ((hder d).mpr hd)
    simp only [Except.ok.injEq, Prod.mk.injEq] at this
    exact this.2
  refine ⟨line_enough hfuel e herr, fun d hd => ?_⟩
  have := herr.symm.trans ((hder d).mpr hd)
  cases this

/-- For every line, `parsecmd` ends, and it returns exactly if the grammar derives the tokens
of the line. -/
theorem parsecmd_accepts_grammar (l : Line) (k : ℕ) : match parsecmd (l.fuel + k) l.start with
    | .ok cmd st => l.Accepted cmd st
    | .stop e _ => l.Rejected e := by
  have h := wp_parsecmd l k
  unfold wp at h
  cases hx : parsecmd (l.fuel + k) l.start with
  | ok cmd st | stop e st =>
    rw [hx] at h
    exact h

end Xv6.Sh
