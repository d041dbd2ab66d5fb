import Xv6.Sh.Parser

/-!
# The shell: the parser builds the tree of the descent

`Points h p c` reads a command tree off the nodes of the heap `h`. Every
function of the parser ends as the function of the descent over tokens does:
it stops for the same reason, or it leaves the cursor in front of the same
tokens and returns a pointer to the same tree (`parse_agrees`).

## Implementation notes

Nodes are only added, except that `parseexec` fills in the words of its own
node while `redircmd`s may already point to it. So the redirections of a
command are a chain of nodes down to that node (`Wraps`), which does not
depend on what the node holds.
-/

namespace Xv6.Sh
open Xv6.Lib Function Exec

/-! ## Trees on the heap -/

abbrev Heap : Type := List Node

/-- The mode that the file of a redirection is opened with. -/
def Dir.mode : Dir → UInt32
  | lt => File.O_RDONLY
  | gt => File.O_WRONLY ||| File.O_CREATE
  | gtgt => File.O_WRONLY ||| File.O_CREATE

/-- The descriptor that a redirection replaces. -/
def Dir.fd : Dir → ℕ
  | lt => 0
  | gt => 1
  | gtgt => 1

/-- The node of a redirection. -/
def Redir.node (cmd : Ptr) (r : Redir) : Node := .redir cmd r.file.q r.file.eq r.dir.mode r.dir.fd

/-- The node of a command with some words; behind them the arrays hold NULL. -/
def execNode (ws : List Word) : Node :=
  .exec (fun i => ws[i.1]?.map Word.q) fun i => ws[i.1]?.map Word.eq

/-- The pointer leads to the nodes of the tree. -/
def Points (h : Heap) : Ptr → Cmd → Prop
  | p, .exec argv => argv.length < MAXARGS ∧ h[p]? = some (execNode argv)
  | p, .redir c r => ∃ q, h[p]? = some (r.node q) ∧ Points h q c
  | p, .pipe c d => ∃ q r, h[p]? = some (.pipe q r) ∧ Points h q c ∧ Points h r d
  | p, .list c d => ∃ q r, h[p]? = some (.list q r) ∧ Points h q c ∧ Points h r d
  | p, .back c => ∃ q, h[p]? = some (.back q) ∧ Points h q c

/-- From `p` the redirections lead down to `q`, the last of them first. -/
def Wraps (h : Heap) (q p : Ptr) : List Redir → Prop
  | [] => p = q
  | r :: rs => ∃ q', h[q']? = some (r.node q) ∧ Wraps h q' p rs

/-- All nodes but possibly the one at `q` are still there. -/
def KeepsBut (q : Ptr) (h h' : Heap) : Prop :=
  ∀ (p : Ptr) (x : Node), p ≠ q → h[p]? = some x → h'[p]? = some x

/-- All nodes are still there. -/
def Keeps (h h' : Heap) : Prop := ∀ (p : Ptr) (x : Node), h[p]? = some x → h'[p]? = some x

section
variable {h h' h'' : Heap} {p q : Ptr} {c : Cmd}

lemma Keeps.refl (h : Heap) : Keeps h h := fun _ _ hx => hx

lemma Keeps.trans (hk : Keeps h h') (hk' : Keeps h' h'') : Keeps h h'' :=
  fun p x hx => hk' p x (hk p x hx)

lemma Keeps.but (hk : Keeps h h') (q : Ptr) : KeepsBut q h h' := fun p x _ hx => hk p x hx

lemma KeepsBut.trans (hk : KeepsBut q h h') (hk' : KeepsBut q h' h'') : KeepsBut q h h'' :=
  fun p x hp hx => hk' p x hp (hk p x hp hx)

lemma keeps_append (h : Heap) (x : Node) : Keeps h (h ++ [x]) := by
  intro p y hy
  obtain ⟨hp, -⟩ := List.getElem?_eq_some_iff.mp hy
  rw [List.getElem?_append_left hp, hy]

lemma append_get (h : Heap) (x : Node) : (h ++ [x])[h.length]? = some x := by simp

lemma keepsBut_set (h : Heap) (q : Ptr) (x : Node) : KeepsBut q h (h.set q x) := by
  intro p y hp hy
  rw [List.getElem?_set_ne hp.symm, hy]

lemma set_get {x y : Node} (hq : h[q]? = some y) : (h.set q x)[q]? = some x := by
  obtain ⟨hlt, -⟩ := List.getElem?_eq_some_iff.mp hq
  exact List.getElem?_set_self hlt

lemma Points.mono (hc : Points h p c) (hk : Keeps h h') : Points h' p c := by
  induction c generalizing p with
  | exec argv => exact ⟨hc.1, hk _ _ hc.2⟩
  | redir c r ih | back c ih =>
    obtain ⟨q, hq, hc⟩ := hc
    exact ⟨q, hk _ _ hq, ih hc⟩
  | pipe c d ihc ihd | list c d ihc ihd =>
    obtain ⟨q, r, hqr, hc, hd⟩ := hc
    exact ⟨q, r, hk _ _ hqr, ihc hc, ihd hd⟩

variable {rs : List Redir}

lemma Wraps.points (hw : Wraps h q p rs) (hc : Points h q c) :
    Points h p (c.wrap rs) := by
  induction rs generalizing q c with
  | nil =>
    cases hw
    exact hc
  | cons r rs ih =>
    obtain ⟨q', hq', hw⟩ := hw
    exact ih hw ⟨q, hq', hc⟩

lemma Wraps.append {rs rs' : List Redir} {p' : Ptr} (hw : Wraps h q p rs)
    (hw' : Wraps h p p' rs') : Wraps h q p' (rs ++ rs') := by
  induction rs generalizing q with
  | nil =>
    cases hw
    exact hw'
  | cons r rs ih =>
    obtain ⟨q', hq', hw⟩ := hw
    exact ⟨q', hq', ih hw⟩

/-- A chain of redirections does not contain the node of a command. -/
lemma Wraps.mono {x : Ptr} {ws : List Word} (hw : Wraps h q p rs)
    (hx : h[x]? = some (execNode ws)) (hk : KeepsBut x h h') : Wraps h' q p rs := by
  induction rs generalizing q with
  | nil => exact hw
  | cons r rs ih =>
    obtain ⟨q', hq', hw⟩ := hw
    refine ⟨q', hk q' _ ?_ hq', ih hw⟩
    rintro rfl
    rw [hx] at hq'
    cases hq'

end

/-! ## The cursor -/

section
variable {buf : ℕ → UInt8} {es : ℕ} {st : Shell} {ts us : List Token}

/-- The cursor stands in front of these tokens. -/
structure At (buf : ℕ → UInt8) (es : ℕ) (st : Shell) (ts : List Token) : Prop where
  line : st.buf = buf
  inside : st.s ≤ es
  rest : tokens buf es st.s = ts

lemma At.of_heap (h : At buf es st ts) (hp : Heap) : At buf es { st with heap := hp } ts :=
  ⟨h.line, h.inside, h.rest⟩

variable {S : Fault → Shell → Prop}

lemma wp_peek (hb : Ends buf es) (h : At buf es st ts) {cs : List UInt8} (hcs : cs ⊆ symbols)
    {Q : Bool → Shell → Prop} (hQ : ∀ st', At buf es st' ts → st'.heap = st.heap →
      Q (decide (∃ t ∈ ts.head?, t.first ∈ cs)) st') : wp (peek es cs) Q S st := by
  obtain ⟨rfl, hin, rfl⟩ := h
  have hat : At st.buf es { st with s := skip st.buf es st.s } (tokens st.buf es st.s) :=
    ⟨rfl, skip_le hin, tokens_skip hb hin⟩
  change Q (decide (st.buf (skip st.buf es st.s) ≠ 0 ∧ st.buf (skip st.buf es st.s) ∈ cs)) _
  have hsame : (st.buf (skip st.buf es st.s) ≠ 0 ∧ st.buf (skip st.buf es st.s) ∈ cs) ↔
      ∃ t ∈ (tokens st.buf es st.s).head?, t.first ∈ cs := by
    obtain ⟨hnil, he, _⟩ | ⟨t, e, hcons, hspan, _⟩ := tokens_cases hb hin
    · simp [hnil, he, hb.nul]
    rw [hspan.first_mem_iff hcs, hcons]
    simp
  rw [decide_eq_decide.mpr hsame]
  exact hQ _ hat rfl

variable {Q : Lexeme → Shell → Prop}

lemma wp_gettoken_nil (hb : Ends buf es) (h : At buf es st [])
    (hQ : ∀ x st', At buf es st' [] → st'.heap = st.heap → x.ret = 0 → Q x st') :
    wp (gettoken es) Q S st := by
  obtain ⟨rfl, hin, hrest⟩ := h
  obtain ⟨_, he, hlex⟩ | ⟨t, e, hcons, _, _⟩ := tokens_cases hb hin
  · change Q (lexeme st.buf es st.s).1 { st with s := (lexeme st.buf es st.s).2 }
    rw [hlex]
    refine hQ _ _ ⟨rfl, le_rfl, ?_⟩ rfl rfl
    exact tokensFrom_end hb _ le_rfl scan_end
  · rw [hrest] at hcons
    cases hcons

lemma wp_gettoken_cons (hb : Ends buf es) {t : Token} (h : At buf es st (t :: ts))
    (hQ : ∀ x st', At buf es st' ts → st'.heap = st.heap → x.ret = t.ret →
      (∀ w, t = .word w → x.q = w.q ∧ x.eq = w.eq) → Q x st') : wp (gettoken es) Q S st := by
  obtain ⟨rfl, hin, hrest⟩ := h
  obtain ⟨hnil, _⟩ | ⟨t', e, hcons, hspan, hlex⟩ := tokens_cases hb hin
  · rw [hrest] at hnil
    cases hnil
  rw [hrest] at hcons
  obtain ⟨rfl, rfl⟩ := List.cons.inj hcons
  change Q (lexeme st.buf es st.s).1 { st with s := (lexeme st.buf es st.s).2 }
  rw [hlex]
  refine hQ _ _ ⟨rfl, skip_le hspan.bounds.2, rfl⟩ rfl rfl ?_
  rintro w rfl
  have htok := hspan.token_eq
  simp only [Lexeme.token, Token.ret] at htok
  obtain rfl := Token.word.inj (Option.some.inj htok)
  exact ⟨rfl, rfl⟩

end

/-! ## Code that ends as the descent does -/

section
variable {α β γ δ : Type}

/-- The code stops as the descent does, or returns and leaves the same tokens. -/
def Agrees (buf : ℕ → UInt8) (es : ℕ) (x : Code α) (r : Parsed β) (R : α → β → Heap → Prop)
    (st : Shell) : Prop :=
  wp x (fun a st' => ∃ b ts, r = .ok (b, ts) ∧ At buf es st' ts ∧ R a b st'.heap)
    (fun e _ => r = .error e) st

variable {buf : ℕ → UInt8} {es : ℕ} {x : Code α} {r : Parsed β} {R : α → β → Heap → Prop}
  {st : Shell} {ts : List Token}

lemma Agrees.bind {f : α → Code γ} {g : β → List Token → Parsed δ} {R' : γ → δ → Heap → Prop}
    (hx : Agrees buf es x r R st) (hf : ∀ a b ts st', At buf es st' ts → R a b st'.heap →
      Agrees buf es (f a) (g b ts) R' st') : Agrees buf es (x >>= f) (r.next g) R' st := by
  refine wp_bind.mpr (wp_mono hx ?_ ?_)
  · rintro a st' ⟨b, ts, rfl, hat, hR⟩
    exact hf a b ts st' hat hR
  · rintro e st' rfl
    rfl

lemma agrees_stop {e : Fault} : Agrees buf es (Exec.stop e : Code α) (.error e : Parsed β) R st :=
  rfl

lemma agrees_pure {a : α} {b : β} (hat : At buf es st ts) (hR : R a b st.heap) :
    Agrees buf es (pure a) (.ok (b, ts)) R st := ⟨b, ts, rfl, hat, hR⟩

lemma agrees_alloc {b : β} {node : Node} {R : Ptr → β → Heap → Prop} (hat : At buf es st ts)
    (hR : R st.heap.length b (st.heap ++ [node])) :
    Agrees buf es (alloc node) (.ok (b, ts)) R st := ⟨b, ts, rfl, hat.of_heap _, hR⟩

lemma agrees_bind_alloc {node : Node} {f : Ptr → Code α}
    (hf : Agrees buf es (f st.heap.length) r R { st with heap := st.heap ++ [node] }) :
    Agrees buf es (alloc node >>= f) r R st := hf

lemma Agrees.map {g : β → γ} {R' : α → γ → Heap → Prop} (hx : Agrees buf es x r R st)
    (h : ∀ a b hp, R a b hp → R' a (g b) hp) :
    Agrees buf es x (r.next fun b ts => .ok (g b, ts)) R' st := by
  refine wp_mono hx ?_ ?_
  · rintro a st' ⟨b, ts, rfl, hat, hR⟩
    exact ⟨g b, ts, rfl, hat, h a b _ hR⟩
  · rintro e st' rfl
    rfl

lemma agrees_peek (hb : Ends buf es) (hat : At buf es st ts) {cs : List UInt8}
    (hcs : cs ⊆ symbols) {f : Bool → Code α} (hf : ∀ st', At buf es st' ts → st'.heap = st.heap →
      Agrees buf es (f (decide (∃ t ∈ ts.head?, t.first ∈ cs))) r R st') :
    Agrees buf es (peek es cs >>= f) r R st :=
  wp_bind.mpr (wp_peek hb hat hcs hf)

variable {f : Lexeme → Code α}

lemma agrees_gettoken (hb : Ends buf es) {t : Token} (hat : At buf es st (t :: ts))
    (hf : ∀ y st', At buf es st' ts → st'.heap = st.heap → y.ret = t.ret →
      (∀ w, t = .word w → y.q = w.q ∧ y.eq = w.eq) → Agrees buf es (f y) r R st') :
    Agrees buf es (gettoken es >>= f) r R st :=
  wp_bind.mpr (wp_gettoken_cons hb hat hf)

lemma agrees_gettoken_nil (hb : Ends buf es) (hat : At buf es st [])
    (hf : ∀ y st', At buf es st' [] → st'.heap = st.heap → y.ret = 0 →
      Agrees buf es (f y) r R st') : Agrees buf es (gettoken es >>= f) r R st :=
  wp_bind.mpr (wp_gettoken_nil hb hat hf)

end

/-! ## The loops -/

section
variable {buf : ℕ → UInt8} {es : ℕ} {st : Shell} {ts : List Token}

lemma redirect_eq (dir : Dir) (cmd : Ptr) (w : Word) :
    redirect dir.token.ret cmd w.q w.eq = alloc (Redir.node cmd ⟨dir, w⟩) := by
  cases dir <;> rfl

lemma first_mem_iff_dir (t : Token) : t.first ∈ ([60, 62] : List UInt8) ↔ t.dir?.isSome := by
  cases t <;> simp [Token.first, Token.ret, Token.dir?]

lemma parseredirs_agrees (hb : Ends buf es) (n : ℕ) (cmd : Ptr) (hat : At buf es st ts) :
    Agrees buf es (parseredirs es n cmd) (redirs n ts)
      (fun p rs h => Wraps h cmd p rs ∧ Keeps st.heap h) st := by
  induction n generalizing st ts cmd with
  | zero => exact agrees_stop
  | succ n ih =>
    refine agrees_peek hb hat (by decide) fun st₁ hat₁ hh₁ => ?_
    rcases ts with _ | ⟨t, us⟩
    · exact agrees_pure hat₁ ⟨rfl, hh₁ ▸ .refl _⟩
    simp only [List.head?_cons, Option.mem_some_iff, exists_eq_left', first_mem_iff_dir]
    rcases hdir : t.dir? with _ | dir
    · simp only [redirs, hdir]
      exact agrees_pure hat₁ ⟨rfl, hh₁ ▸ .refl _⟩
    simp only [redirs, hdir, Option.isSome_some, decide_true, if_true]
    obtain rfl := Token.dir_eq hdir
    refine agrees_gettoken hb hat₁ fun y₁ st₂ hat₂ hh₂ hret₁ _ => ?_
    rcases us with _ | ⟨t, us⟩
    · refine agrees_gettoken_nil hb hat₂ fun y₂ st₃ _ _ hret₂ => ?_
      rw [if_pos (by rw [hret₂]; decide)]
      exact agrees_stop
    refine agrees_gettoken hb hat₂ fun y₂ st₃ hat₃ hh₃ hret₂ hw => ?_
    cases t with
    | word w =>
      obtain ⟨hq, heq⟩ := hw w rfl
      rw [if_neg (by simp [hret₂, Token.ret]), hret₁, hq, heq, redirect_eq]
      refine agrees_bind_alloc ((ih _ (hat₃.of_heap _)).map ?_)
      rintro p rs h ⟨hwraps, hkeeps⟩
      rw [hh₃, hh₂, hh₁] at hkeeps hwraps
      refine ⟨⟨st.heap.length, hkeeps _ _ (append_get ..), hwraps⟩, ?_⟩
      exact (keeps_append _ _).trans hkeeps
    | _ =>
      rw [if_pos (by rw [hret₂]; decide)]
      exact agrees_stop

lemma parsebacks_agrees (hb : Ends buf es) (n : ℕ) {cmd : Ptr} {c : Cmd}
    (hat : At buf es st ts) (hc : Points st.heap cmd c) :
    Agrees buf es (parsebacks es n cmd) (backs n ts)
      (fun p k h => Points h p (Cmd.back^[k] c) ∧ Keeps st.heap h) st := by
  induction n generalizing st ts cmd c with
  | zero => exact agrees_stop
  | succ n ih =>
    refine agrees_peek hb hat (by decide) fun st₁ hat₁ hh₁ => ?_
    have hstay : Agrees buf es (pure cmd) (.ok (0, ts))
        (fun p k h => Points h p (Cmd.back^[k] c) ∧ Keeps st.heap h) st₁ :=
      agrees_pure hat₁ (by rw [hh₁]; exact ⟨hc, .refl _⟩)
    rcases ts with _ | ⟨t, us⟩
    · exact hstay
    cases t with
    | amp =>
      refine agrees_gettoken hb hat₁ fun y st₂ hat₂ hh₂ _ _ => ?_
      rw [hh₁] at hh₂
      have hback : Points (st₂.heap ++ [.back cmd]) st₂.heap.length (.back c) :=
        ⟨cmd, append_get .., hh₂ ▸ hc.mono (keeps_append _ _)⟩
      refine agrees_bind_alloc ((ih (hat₂.of_heap _) hback).map ?_)
      rintro p k h ⟨hp, hkeeps⟩
      rw [hh₂] at hkeeps
      exact ⟨hp, (keeps_append _ _).trans hkeeps⟩
    | _ => exact hstay

/-! ## The words of a command -/

lemma update_words (ws : List Word) (w : Word) (h : ws.length < MAXARGS) (f : Word → ℕ) :
    update (fun i : Fin MAXARGS => ws[i.1]?.map f) ⟨ws.length, h⟩ (some (f w)) =
      fun i => (ws ++ [w])[i.1]?.map f := by
  funext i
  by_cases hi : i = ⟨ws.length, h⟩
  · subst hi
    simp
  have hne : i.1 ≠ ws.length := fun heq => hi (Fin.ext heq)
  rw [update_of_ne hi]
  obtain hlt | hgt := lt_or_gt_of_ne hne
  · rw [List.getElem?_append_left hlt]
  · have hend : (ws ++ [w]).length ≤ i.1 := by simpa using Nat.succ_le_of_lt hgt
    rw [List.getElem?_eq_none hgt.le, List.getElem?_eq_none hend]

lemma update_words_none (ws : List Word) (h : ws.length < MAXARGS) (f : Word → ℕ) :
    update (fun i : Fin MAXARGS => ws[i.1]?.map f) ⟨ws.length, h⟩ none =
      fun i => ws[i.1]?.map f := by
  refine update_eq_self_iff.mpr ?_
  simp

section
variable {α β : Type} {r : Parsed β} {R : α → β → Heap → Prop} {cmd : Ptr} {ws : List Word}

section
variable (hcmd : st.heap[cmd]? = some (execNode ws)) (hlen : ws.length < MAXARGS)
include hcmd hlen

lemma setArg_eq (q eq : Option ℕ) : setArg cmd ws.length q eq st = .ok () { st with
        heap := st.heap.set cmd (.exec (update (fun i => ws[i.1]?.map Word.q) ⟨ws.length, hlen⟩ q)
            (update (fun i => ws[i.1]?.map Word.eq) ⟨ws.length, hlen⟩ eq)) } := by
  simp only [setArg, bind, Exec.get, hcmd, execNode, dif_pos hlen]
  rfl

variable {f : Unit → Code α}

lemma agrees_setArg (w : Word)
    (hf : Agrees buf es (f ()) r R { st with heap := st.heap.set cmd (execNode (ws ++ [w])) }) :
    Agrees buf es (setArg cmd ws.length (some w.q) (some w.eq) >>= f) r R st := by
  refine wp_bind.mpr (wp_of_ok (setArg_eq hcmd hlen _ _) ?_)
  rwa [update_words ws w hlen, update_words ws w hlen]

lemma agrees_setArg_none (hf : Agrees buf es (f ()) r R st) :
    Agrees buf es (setArg cmd ws.length none none >>= f) r R st := by
  refine wp_bind.mpr (wp_of_ok (setArg_eq hcmd hlen _ _) ?_)
  rw [update_words_none ws hlen, update_words_none ws hlen]
  have hsame : st.heap.set cmd (execNode ws) = st.heap := by
    obtain ⟨hlt, hget⟩ := List.getElem?_eq_some_iff.mp hcmd
    rw [← hget, List.set_getElem_self]
  change wp (f ()) _ _ { st with heap := st.heap.set cmd (execNode ws) }
  rwa [hsame]

end
end

/-- What the loop of `parseexec` has done. -/
structure ArgsRead (h : Heap) (cmd : Ptr) (ws : List Word) (ret : Ptr) (r : Ptr × ℕ)
    (as : List Arg) (h' : Heap) : Prop where
  count : r.2 = (ws ++ as.map Arg.word).length
  room : (ws ++ as.map Arg.word).length < MAXARGS
  words : h'[cmd]? = some (execNode (ws ++ as.map Arg.word))
  wraps : Wraps h' ret r.1 (as.flatMap Arg.redirs)
  keeps : KeepsBut cmd h h'

lemma parseargs_agrees (hb : Ends buf es) (n : ℕ) {cmd ret : Ptr} {ws : List Word}
    (hat : At buf es st ts) (hcmd : st.heap[cmd]? = some (execNode ws))
    (hlen : ws.length < MAXARGS) :
    Agrees buf es (parseargs es cmd n ws.length ret) (args n ws.length ts)
      (ArgsRead st.heap cmd ws ret) st := by
  induction n generalizing st ts ret ws with
  | zero => exact agrees_stop
  | succ n ih =>
    refine agrees_peek hb hat (by decide) fun st₁ hat₁ hh₁ => ?_
    have hstay : ∀ st' us, At buf es st' us → st'.heap = st.heap →
        Agrees buf es (pure (ret, ws.length)) (.ok ([], us)) (ArgsRead st.heap cmd ws ret) st' := by
      intro st' us hat' hh'
      refine agrees_pure hat' ?_
      rw [hh']
      exact ⟨by simp, by simpa using hlen, by simpa using hcmd, rfl, (Keeps.refl _).but _⟩
    rcases ts with _ | ⟨t, us⟩
    · refine agrees_gettoken_nil hb hat₁ fun y st₂ hat₂ hh₂ hret => ?_
      rw [if_pos hret]
      exact hstay st₂ [] hat₂ (hh₂.trans hh₁)
    cases t with
    | bar | rpar | amp | semi => exact hstay st₁ _ hat₁ hh₁
    | word w =>
      refine agrees_gettoken hb hat₁ fun y st₂ hat₂ hh₂ hret hw => ?_
      obtain ⟨hq, heq⟩ := hw w rfl
      rw [hh₁] at hh₂
      rw [if_neg (by simp [hret, Token.ret]), if_neg (by simp [hret, Token.ret]), hq, heq]
      refine agrees_setArg (by rw [hh₂]; exact hcmd) hlen w ?_
      by_cases hmany : MAXARGS ≤ ws.length + 1
      · rw [if_pos hmany]
        have hargs : args (n + 1) ws.length (.word w :: us) =
            .error (.panic "too many args") := by simp [args, Closed, hmany]
        rw [hargs]
        exact agrees_stop
      rw [if_neg hmany]
      have hargs : args (n + 1) ws.length (.word w :: us) =
          (redirs n us).next fun rs ts => (args n (ws.length + 1) ts).next fun as ts =>
            .ok (⟨w, rs⟩ :: as, ts) := by simp [args, Closed, hmany]
      rw [hargs]
      refine (parseredirs_agrees hb n ret (hat₂.of_heap _)).bind ?_
      rintro p rs vs st₃ hat₃ ⟨hwraps, hkeeps⟩
      rw [hh₂] at hkeeps
      have hcmd₃ := hkeeps _ _ (set_get hcmd)
      have hlen' : (ws ++ [w]).length = ws.length + 1 := by simp
      have hloop := @ih _ _ p _ hat₃ hcmd₃ (by omega)
      rw [hlen'] at hloop
      refine hloop.map fun r as h hread => ⟨?_, ?_, ?_, ?_, ?_⟩
      · rw [hread.count]
        simp
      · simpa using hread.room
      · rw [hread.words]
        simp
      · exact (hwraps.mono hcmd₃ hread.keeps).append hread.wraps
      · exact ((keepsBut_set _ _ _).trans (hkeeps.but _)).trans hread.keeps
    | _ =>
      refine agrees_gettoken hb hat₁ fun y st₂ _ _ hret _ => ?_
      rw [if_neg (by rw [hret]; decide), if_pos (by rw [hret]; decide)]
      exact agrees_stop

/-! ## The recursive functions -/

/-- The code returns a pointer to the tree that the descent returns. -/
def Builds (h : Heap) (p : Ptr) (c : Cmd) (h' : Heap) : Prop := Points h' p c ∧ Keeps h h'

lemma execcmd_node : (Node.exec (fun _ => none) fun _ => none) = execNode [] := by
  simp [execNode]

lemma parseexec_simple (hb : Ends buf es) (n : ℕ) (hat : At buf es st ts) : Agrees buf es (do
        let cmd ← execcmd
        let ret ← parseredirs es n cmd
        let r ← parseargs es cmd n 0 ret
        setArg cmd r.2 none none
        pure r.1)
      ((redirs n ts).next fun rs ts => (args n 0 ts).next fun as ts => .ok (.simple rs as, ts))
      (Builds st.heap) st := by
  refine agrees_bind_alloc ?_
  rw [execcmd_node]
  refine (parseredirs_agrees hb n _ (hat.of_heap _)).bind ?_
  rintro ret rs us st₁ hat₁ ⟨hwraps, hkeeps⟩
  have hcmd := hkeeps _ _ (append_get ..)
  refine (parseargs_agrees hb n hat₁ hcmd (by decide)).bind ?_
  rintro ⟨p, argc⟩ as vs st₂ hat₂ ⟨hcount, hroom, hwords, hwraps', hkeeps'⟩
  dsimp only at hcount hwraps'
  subst hcount
  refine agrees_setArg_none hwords hroom (agrees_pure hat₂ ⟨?_, fun q x hq => ?_⟩)
  · exact ((hwraps.mono hcmd hkeeps').append hwraps').points ⟨hroom, hwords⟩
  -- a node that was there before is not the one of the command
  have hlt : q < st.heap.length := (List.getElem?_eq_some_iff.mp hq).1
  exact hkeeps' q x hlt.ne (hkeeps q x (keeps_append _ _ q x hq))

lemma parse_agrees (hb : Ends buf es) (n : ℕ) :
    (∀ st ts, At buf es st ts → Agrees buf es (parseline es n) (line n ts) (Builds st.heap) st) ∧
    (∀ st ts, At buf es st ts → Agrees buf es (parsepipe es n) (pipe n ts) (Builds st.heap) st) ∧
    (∀ st ts, At buf es st ts → Agrees buf es (parseexec es n) (exec n ts) (Builds st.heap) st) ∧
    (∀ st ts, At buf es st ts →
      Agrees buf es (parseblock es n) (block n ts) (Builds st.heap) st) := by
  induction n with
  | zero => exact ⟨fun _ _ _ => agrees_stop, fun _ _ _ => agrees_stop, fun _ _ _ => agrees_stop,
      fun _ _ _ => agrees_stop⟩
  | succ n ih =>
    obtain ⟨hline, hpipe, hexec, hblock⟩ := ih
    refine ⟨fun st ts hat => ?_, fun st ts hat => ?_, fun st ts hat => ?_, fun st ts hat => ?_⟩
    · refine (hpipe st ts hat).bind ?_
      rintro p c us st₁ hat₁ ⟨hp, hk₁⟩
      refine (parsebacks_agrees hb n hat₁ hp).bind ?_
      rintro q k vs st₂ hat₂ ⟨hq, hk₂⟩
      refine agrees_peek hb hat₂ (by decide) fun st₃ hat₃ hh₃ => ?_
      have hkeeps := hk₁.trans hk₂
      rw [← hh₃] at hq hkeeps
      have hstay : Agrees buf es (pure q) (.ok (Cmd.back^[k] c, vs)) (Builds st.heap) st₃ :=
        agrees_pure hat₃ ⟨hq, hkeeps⟩
      match vs with
      | .semi :: ws =>
        refine agrees_gettoken hb hat₃ fun y st₄ hat₄ hh₄ _ _ => ?_
        refine (hline st₄ ws hat₄).bind ?_
        rintro r d xs st₅ hat₅ ⟨hr, hk₅⟩
        rw [hh₄] at hk₅
        refine agrees_alloc hat₅ ⟨⟨q, r, append_get .., ?_, ?_⟩, ?_⟩
        · exact hq.mono (hk₅.trans (keeps_append _ _))
        · exact hr.mono (keeps_append _ _)
        · exact (hkeeps.trans hk₅).trans (keeps_append _ _)
      | [] | .bar :: _ | .lpar :: _ | .rpar :: _ | .amp :: _ | .lt :: _ | .gt :: _
      | .gtgt :: _ | .word _ :: _ => exact hstay
    · refine (hexec st ts hat).bind ?_
      rintro q c vs st₂ hat₂ ⟨hq, hkeeps⟩
      refine agrees_peek hb hat₂ (by decide) fun st₃ hat₃ hh₃ => ?_
      rw [← hh₃] at hq hkeeps
      have hstay : Agrees buf es (pure q) (.ok (c, vs)) (Builds st.heap) st₃ :=
        agrees_pure hat₃ ⟨hq, hkeeps⟩
      match vs with
      | .bar :: ws =>
        refine agrees_gettoken hb hat₃ fun y st₄ hat₄ hh₄ _ _ => ?_
        refine (hpipe st₄ ws hat₄).bind ?_
        rintro r d xs st₅ hat₅ ⟨hr, hk₅⟩
        rw [hh₄] at hk₅
        refine agrees_alloc hat₅ ⟨⟨q, r, append_get .., ?_, ?_⟩, ?_⟩
        · exact hq.mono (hk₅.trans (keeps_append _ _))
        · exact hr.mono (keeps_append _ _)
        · exact (hkeeps.trans hk₅).trans (keeps_append _ _)
      | [] | .semi :: _ | .lpar :: _ | .rpar :: _ | .amp :: _ | .lt :: _ | .gt :: _
      | .gtgt :: _ | .word _ :: _ => exact hstay
    · refine agrees_peek hb hat (by decide) fun st₁ hat₁ hh₁ => ?_
      rw [← hh₁]
      match ts with
      | .lpar :: us => exact hblock st₁ _ hat₁
      | [] | .bar :: _ | .semi :: _ | .rpar :: _ | .amp :: _ | .lt :: _ | .gt :: _
      | .gtgt :: _ | .word _ :: _ => exact parseexec_simple hb n hat₁
    refine agrees_peek hb hat (by decide) fun st₁ hat₁ hh₁ => ?_
    match ts with
    | .lpar :: us =>
      refine agrees_gettoken hb hat₁ fun y st₂ hat₂ hh₂ _ _ => ?_
      refine (hline st₂ us hat₂).bind ?_
      rintro q c vs st₃ hat₃ ⟨hq, hkeeps⟩
      refine agrees_peek hb hat₃ (by decide) fun st₄ hat₄ hh₄ => ?_
      rw [hh₂, hh₁] at hkeeps
      rw [← hh₄] at hq hkeeps
      match vs with
      | .rpar :: ws =>
        refine agrees_gettoken hb hat₄ fun y st₅ hat₅ hh₅ _ _ => ?_
        refine (parseredirs_agrees hb n q hat₅).map ?_
        rintro p rs h ⟨hwraps, hkeeps'⟩
        rw [hh₅] at hkeeps'
        exact ⟨hwraps.points (hq.mono hkeeps'), hkeeps.trans hkeeps'⟩
      | [] | .bar :: _ | .semi :: _ | .lpar :: _ | .amp :: _ | .lt :: _ | .gt :: _
      | .gtgt :: _ | .word _ :: _ => exact agrees_stop
    | [] | .bar :: _ | .semi :: _ | .rpar :: _ | .amp :: _ | .lt :: _ | .gt :: _
    | .gtgt :: _ | .word _ :: _ => exact agrees_stop

end
end Xv6.Sh
