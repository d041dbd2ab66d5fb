import Mathlib.Logic.Function.Iterate
import Xv6.Sh.Lexer

/-!
# The shell: the grammar of command lines

`Derives` is the grammar, together with the command tree that a derivation
stands for:

    line  ::= pipe '&'* (';' line)?
    pipe  ::= exec ('|' pipe)?
    exec  ::= '(' line ')' redir* | redir* (word redir*)*
    redir ::= ('<' | '>' | '>>') word

with fewer than `MAXARGS` words in an `exec`. `line`, `pipe`, `exec` and `block`
are the recursive descent over a list of tokens. They decide the grammar
(`line_sound`, `line_complete`, `line_enough`).

## Implementation notes

The descent takes a bound on its depth. A result is either the one that the
grammar gives or `Fault.fuel`, and the bound `4 * ts.length + 5` excludes the
latter.
-/

namespace Xv6.Sh
open Xv6.Lib List

/-- The size of the arrays `argv` and `eargv`. -/
def MAXARGS : ℕ := 10

/-- The kind of a redirection. -/
inductive Dir
  | lt
  | gt
  | gtgt
deriving DecidableEq, Repr

/-- The token of a redirection. -/
def Dir.token : Dir → Token
  | lt => .lt
  | gt => .gt
  | gtgt => .gtgt

/-- A redirection and its file. -/
structure Redir where
  dir : Dir
  file : Word
deriving DecidableEq, Repr

/-- A word of a command and the redirections behind it. -/
structure Arg where
  word : Word
  redirs : List Redir
deriving DecidableEq, Repr

/-- Command trees. -/
inductive Cmd
  | exec (argv : List Word)
  | redir (cmd : Cmd) (r : Redir)
  | pipe (left right : Cmd)
  | list (left right : Cmd)
  | back (cmd : Cmd)
deriving DecidableEq, Repr

/-- A command behind redirections, the last one outermost. -/
def Cmd.wrap (c : Cmd) (rs : List Redir) : Cmd := rs.foldl .redir c

/-- The command that the words and redirections of an `exec` stand for. -/
def Cmd.simple (rs : List Redir) (as : List Arg) : Cmd :=
  (Cmd.exec (as.map Arg.word)).wrap (rs ++ as.flatMap Arg.redirs)

/-- `redir` -/
def Redir.tokens (r : Redir) : List Token := [r.dir.token, .word r.file]

/-- `redir*` -/
def redirTokens (rs : List Redir) : List Token := rs.flatMap Redir.tokens

/-- `(word redir*)*` -/
def argTokens (as : List Arg) : List Token :=
  as.flatMap fun a => .word a.word :: redirTokens a.redirs

inductive Nonterminal
  | line
  | pipe
  | exec
deriving DecidableEq, Repr

/-- The derivations of the grammar and their trees. -/
inductive Derives : Nonterminal → List Token → Cmd → Prop
  | last {ts : List Token} {c : Cmd} (h : Derives .pipe ts c) (k : ℕ) :
      Derives .line (ts ++ List.replicate k .amp) (Cmd.back^[k] c)
  | next {ts us : List Token} {c d : Cmd} (h : Derives .pipe ts c) (k : ℕ)
      (h' : Derives .line us d) :
      Derives .line (ts ++ (List.replicate k .amp ++ .semi :: us)) (.list (Cmd.back^[k] c) d)
  | single {ts : List Token} {c : Cmd} (h : Derives .exec ts c) : Derives .pipe ts c
  | piped {ts us : List Token} {c d : Cmd} (h : Derives .exec ts c) (h' : Derives .pipe us d) :
      Derives .pipe (ts ++ .bar :: us) (.pipe c d)
  | block {ts : List Token} {c : Cmd} (h : Derives .line ts c) (rs : List Redir) :
      Derives .exec (.lpar :: (ts ++ .rpar :: redirTokens rs)) (c.wrap rs)
  | simple (rs : List Redir) (as : List Arg) (h : as.length ≤ MAXARGS - 1) :
      Derives .exec (redirTokens rs ++ argTokens as) (.simple rs as)

/-! ## Recursive descent over tokens -/

/-- The kind of redirection that a token starts. -/
def Token.dir? : Token → Option Dir
  | lt => some .lt
  | gt => some .gt
  | gtgt => some .gtgt
  | _ => none

/-- The rest of a line behind which no word of a command follows. -/
def Closed : List Token → Bool
  | [] | .bar :: _ | .rpar :: _ | .amp :: _ | .semi :: _ => true
  | _ => false

/-- A value read off the front of a list of tokens, and the tokens behind it. -/
abbrev Parsed (α : Type) : Type := Except Fault (α × List Token)

/-- Go on behind what has been read. -/
def Parsed.next {α β : Type} (x : Parsed α) (f : α → List Token → Parsed β) : Parsed β :=
  match x with
  | .error e => .error e
  | .ok (a, ts) => f a ts

/-- `redir*` -/
def redirs : ℕ → List Token → Parsed (List Redir)
  | 0, _ => .error .fuel
  | _ + 1, [] => .ok ([], [])
  | n + 1, t :: ts =>
    match t.dir? with
    | none => .ok ([], t :: ts)
    | some dir =>
      match ts with
      | .word w :: ts => (redirs n ts).next fun rs ts => .ok (⟨dir, w⟩ :: rs, ts)
      | _ => .error (.panic "missing file for redirection")

/-- `(word redir*)*`, when there have been `argc` words. -/
def args : ℕ → ℕ → List Token → Parsed (List Arg)
  | 0, _, _ => .error .fuel
  | n + 1, argc, ts =>
    if Closed ts then .ok ([], ts)
    else
      match ts with
      | .word w :: ts =>
        if MAXARGS ≤ argc + 1 then .error (.panic "too many args")
        else (redirs n ts).next fun rs ts => (args n (argc + 1) ts).next fun as ts =>
          .ok (⟨w, rs⟩ :: as, ts)
      | _ => .error (.panic "syntax")

/-- `'&'*` -/
def backs : ℕ → List Token → Parsed ℕ
  | 0, _ => .error .fuel
  | n + 1, ts =>
    match ts with
    | .amp :: ts => (backs n ts).next fun k ts => .ok (k + 1, ts)
    | _ => .ok (0, ts)

mutual

def line : ℕ → List Token → Parsed Cmd
  | 0, _ => .error .fuel
  | n + 1, ts =>
    (pipe n ts).next fun c ts => (backs n ts).next fun k ts =>
      match ts with
      | .semi :: ts => (line n ts).next fun d ts => .ok (.list (Cmd.back^[k] c) d, ts)
      | _ => .ok (Cmd.back^[k] c, ts)

def pipe : ℕ → List Token → Parsed Cmd
  | 0, _ => .error .fuel
  | n + 1, ts =>
    (exec n ts).next fun c ts =>
      match ts with
      | .bar :: ts => (pipe n ts).next fun d ts => .ok (.pipe c d, ts)
      | _ => .ok (c, ts)

def exec : ℕ → List Token → Parsed Cmd
  | 0, _ => .error .fuel
  | n + 1, ts =>
    match ts with
    | .lpar :: _ => block n ts
    | _ => (redirs n ts).next fun rs ts => (args n 0 ts).next fun as ts =>
      .ok (.simple rs as, ts)

def block : ℕ → List Token → Parsed Cmd
  | 0, _ => .error .fuel
  | n + 1, ts =>
    match ts with
    | .lpar :: ts => (line n ts).next fun c ts =>
      match ts with
      | .rpar :: ts => (redirs n ts).next fun rs ts => .ok (c.wrap rs, ts)
      | _ => .error (.panic "syntax - missing )")
    | _ => .error (.panic "parseblock")

end

/-! ## Soundness: what the descent returns is derived from the tokens it used up -/

section
variable {α β : Type} {x : Parsed α} {f : α → List Token → Parsed β}

lemma Parsed.next_eq_ok {b : β × List Token} (h : x.next f = .ok b) :
    ∃ a ts, x = .ok (a, ts) ∧ f a ts = .ok b := by
  cases x with
  | error e => cases h
  | ok r => exact ⟨r.1, r.2, rfl, h⟩

end

section
variable {n argc : ℕ} {ts rest : List Token}

lemma Token.dir_eq {t : Token} {d : Dir} (h : t.dir? = some d) : t = d.token := by
  cases t <;> simp [dir?] at h <;> subst h <;> rfl

lemma redirs_sound {rs : List Redir} (h : redirs n ts = .ok (rs, rest)) :
    ts = redirTokens rs ++ rest := by
  induction n generalizing ts rs with
  | zero => cases h
  | succ n ih =>
    rcases ts with _ | ⟨t, us⟩
    · cases h
      rfl
    simp only [redirs] at h
    split at h
    · cases h
      rfl
    rename_i dir hdir
    split at h
    · obtain ⟨rs', vs, hrs, hrest⟩ := Parsed.next_eq_ok h
      cases hrest
      rw [Token.dir_eq hdir, ih hrs]
      rfl
    · cases h

lemma args_sound {as : List Arg} (h : args n argc ts = .ok (as, rest)) (hargc : argc < MAXARGS) :
    ts = argTokens as ++ rest ∧ as.length + argc ≤ MAXARGS - 1 := by
  induction n generalizing ts as argc with
  | zero => cases h
  | succ n ih =>
    unfold args at h
    split at h
    · cases h
      refine ⟨rfl, ?_⟩
      rw [length_nil]
      omega
    split at h
    · split at h
      · cases h
      obtain ⟨rs, us, hrs, h⟩ := Parsed.next_eq_ok h
      obtain ⟨as', vs, has, h⟩ := Parsed.next_eq_ok h
      cases h
      obtain ⟨hts, hlen⟩ := ih has (by omega)
      refine ⟨?_, by rw [length_cons]; omega⟩
      rw [redirs_sound hrs, hts]
      simp [argTokens]
    · cases h

lemma backs_sound {k : ℕ} (h : backs n ts = .ok (k, rest)) :
    ts = List.replicate k .amp ++ rest := by
  induction n generalizing ts k with
  | zero => cases h
  | succ n ih =>
    unfold backs at h
    split at h
    · obtain ⟨k', us, hk, h⟩ := Parsed.next_eq_ok h
      cases h
      rw [ih hk]
      rfl
    · cases h
      rfl

/-- The tokens in front of `rest` derive the tree. -/
def Used (x : Nonterminal) (ts : List Token) (c : Cmd) (rest : List Token) : Prop :=
  ∃ used, ts = used ++ rest ∧ Derives x used c

lemma descent_sound (n : ℕ) : (∀ ts c rest, line n ts = .ok (c, rest) → Used .line ts c rest) ∧
    (∀ ts c rest, pipe n ts = .ok (c, rest) → Used .pipe ts c rest) ∧
    (∀ ts c rest, exec n ts = .ok (c, rest) → Used .exec ts c rest) ∧
    (∀ ts c rest, block n ts = .ok (c, rest) → Used .exec ts c rest) := by
  induction n with
  | zero =>
    refine ⟨?_, ?_, ?_, ?_⟩ <;>
    · intro ts c rest h
      cases h
  | succ n ih =>
    obtain ⟨hline, hpipe, hexec, hblock⟩ := ih
    refine ⟨fun ts c rest h => ?_, fun ts c rest h => ?_, fun ts c rest h => ?_,
      fun ts c rest h => ?_⟩
    · obtain ⟨d, us, hd, hback⟩ := Parsed.next_eq_ok h
      obtain ⟨k, vs, hk, hrest⟩ := Parsed.next_eq_ok hback
      obtain ⟨used, rfl, hder⟩ := hpipe _ _ _ hd
      obtain rfl := backs_sound hk
      split at hrest
      · obtain ⟨d', ws, hd', hrest⟩ := Parsed.next_eq_ok hrest
        cases hrest
        obtain ⟨used', rfl, hder'⟩ := hline _ _ _ hd'
        exact ⟨_, by simp, .next hder k hder'⟩
      · cases hrest
        exact ⟨_, by simp, .last hder k⟩
    · obtain ⟨d, us, hd, hrest⟩ := Parsed.next_eq_ok h
      obtain ⟨used, rfl, hder⟩ := hexec _ _ _ hd
      split at hrest
      · obtain ⟨d', ws, hd', hrest⟩ := Parsed.next_eq_ok hrest
        cases hrest
        obtain ⟨used', rfl, hder'⟩ := hpipe _ _ _ hd'
        exact ⟨_, by simp, .piped hder hder'⟩
      · cases hrest
        exact ⟨_, rfl, .single hder⟩
    · unfold exec at h
      split at h
      · exact hblock _ _ _ h
      obtain ⟨rs, us, hrs, h⟩ := Parsed.next_eq_ok h
      obtain ⟨as, vs, has, h⟩ := Parsed.next_eq_ok h
      cases h
      obtain ⟨hus, hlen⟩ := args_sound has (by decide)
      refine ⟨_, ?_, .simple rs as hlen⟩
      rw [redirs_sound hrs, hus, append_assoc]
    unfold block at h
    split at h
    · obtain ⟨d, us, hd, hrest⟩ := Parsed.next_eq_ok h
      obtain ⟨used, rfl, hder⟩ := hline _ _ _ hd
      split at hrest
      · obtain ⟨rs, vs, hrs, hrest⟩ := Parsed.next_eq_ok hrest
        cases hrest
        exact ⟨_, by rw [redirs_sound hrs]; simp, .block hder rs⟩
      · cases hrest
    · cases h

lemma line_sound {c : Cmd} (h : line n ts = .ok (c, rest)) : Used .line ts c rest :=
  (descent_sound n).1 ts c rest h

end

/-! ## Completeness: the descent follows every derivation -/

/-- The result, unless the bound on the depth is too small. -/
def Parsed.Yields {α : Type} (x : Parsed α) (r : α × List Token) : Prop :=
  x = .ok r ∨ x = .error .fuel

section
variable {α β : Type} {x : Parsed α} {f : α → List Token → Parsed β}

lemma Parsed.Yields.next {a : α} {ts : List Token} {r : β × List Token}
    (hx : x.Yields (a, ts)) (hf : (f a ts).Yields r) : (x.next f).Yields r := by
  obtain rfl | rfl := hx
  · exact hf
  · exact .inr rfl

end

/-- What may stand behind a phrase. -/
def Follows : Nonterminal → List Token → Prop
  | .line, rest => rest = [] ∨ ∃ ts, rest = .rpar :: ts
  | .pipe, rest => Closed rest ∧ rest.head? ≠ some .bar
  | .exec, rest => Closed rest

/-- The function of the descent for a phrase. -/
def descent : Nonterminal → ℕ → List Token → Parsed Cmd
  | .line => line
  | .pipe => pipe
  | .exec => exec

/-- No redirection starts here. -/
def NoRedir (ts : List Token) : Prop := ∀ t ∈ ts.head?, t.dir? = none

section
variable {n argc : ℕ} {ts rest : List Token}

lemma noRedir_of_closed (h : Closed rest) : NoRedir rest := by
  intro t ht
  match rest, h with
  | [], _ => cases ht
  | .bar :: _, _ | .rpar :: _, _ | .amp :: _, _ | .semi :: _, _ =>
    cases ht
    rfl

lemma noRedir_argTokens (as : List Arg) (h : Closed rest) : NoRedir (argTokens as ++ rest) := by
  rcases as with _ | ⟨a, as⟩
  · exact noRedir_of_closed h
  intro t ht
  cases ht
  rfl

lemma redirs_of_noRedir (h : NoRedir rest) : (redirs n rest).Yields ([], rest) := by
  rcases n with _ | n
  · exact .inr rfl
  cases rest with
  | nil => exact .inl rfl
  | cons t ts => exact .inl (by simp [redirs, h t rfl])

lemma redirs_complete (rs : List Redir) (h : NoRedir rest) :
    (redirs n (redirTokens rs ++ rest)).Yields (rs, rest) := by
  induction rs generalizing n with
  | nil => exact redirs_of_noRedir h
  | cons r rs ih =>
    rcases n with _ | n
    · exact .inr rfl
    have hstep : redirs (n + 1) (redirTokens (r :: rs) ++ rest) =
        (redirs n (redirTokens rs ++ rest)).next fun rs ts => .ok (r :: rs, ts) := by
      obtain ⟨dir, file⟩ := r
      cases dir <;> rfl
    rw [hstep]
    exact ih.next (.inl rfl)

lemma args_complete (as : List Arg) (hlen : as.length + argc ≤ MAXARGS - 1) (h : Closed rest) :
    (args n argc (argTokens as ++ rest)).Yields (as, rest) := by
  induction as generalizing n argc with
  | nil =>
    cases n with
    | zero => exact .inr rfl
    | succ n => exact .inl (by simp [args, argTokens, h])
  | cons a as ih =>
    rcases n with _ | n
    · exact .inr rfl
    rw [length_cons] at hlen
    have hroom : ¬ MAXARGS ≤ argc + 1 := by omega
    have hstep : args (n + 1) argc (argTokens (a :: as) ++ rest) =
        (redirs n (redirTokens a.redirs ++ (argTokens as ++ rest))).next fun rs ts =>
          (args n (argc + 1) ts).next fun as ts => .ok (⟨a.word, rs⟩ :: as, ts) := by
      simp [args, argTokens, Closed, hroom]
    rw [hstep]
    refine (redirs_complete a.redirs (noRedir_argTokens as h)).next ?_
    exact (ih (by omega)).next (.inl rfl)

lemma backs_complete (k : ℕ) (h : rest.head? ≠ some .amp) :
    (backs n (List.replicate k .amp ++ rest)).Yields (k, rest) := by
  induction k generalizing n with
  | zero =>
    rcases n with _ | n
    · exact .inr rfl
    refine .inl ?_
    match rest with
    | [] | .bar :: _ | .lpar :: _ | .rpar :: _ | .semi :: _ | .lt :: _ | .gt :: _
    | .gtgt :: _ | .word _ :: _ => rfl
    | .amp :: _ => exact absurd rfl h
  | succ k ih =>
    cases n with
    | zero => exact .inr rfl
    | succ n => exact (ih (n := n)).next (.inl rfl)

lemma follows_pipe (k : ℕ) (h : rest = [] ∨ ∃ t ts, rest = t :: ts ∧ (t = .rpar ∨ t = .semi)) :
    Follows .pipe (List.replicate k .amp ++ rest) := by
  cases k with
  | zero =>
    obtain rfl | ⟨t, ts, rfl, rfl | rfl⟩ := h
    · exact ⟨rfl, by simp⟩
    · exact ⟨rfl, by simp⟩
    · exact ⟨rfl, by simp⟩
  | succ k => exact ⟨rfl, by simp [replicate_succ]⟩

/-- A simple command does not start with a parenthesis. -/
lemma exec_simple (rs : List Redir) (as : List Arg) (h : Closed rest) :
    exec (n + 1) (redirTokens rs ++ argTokens as ++ rest) =
      (redirs n (redirTokens rs ++ argTokens as ++ rest)).next fun rs ts =>
        (args n 0 ts).next fun as ts => .ok (.simple rs as, ts) := by
  have hhead : (redirTokens rs ++ argTokens as ++ rest).head? ≠ some .lpar := by
    cases rs with
    | cons r rs =>
      obtain ⟨dir, file⟩ := r
      cases dir <;> simp [redirTokens, Redir.tokens, Dir.token]
    | nil =>
      cases as with
      | cons a as => simp [redirTokens, argTokens]
      | nil =>
        intro hpar
        match rest, h with
        | [], _ | .bar :: _, _ | .rpar :: _, _ | .amp :: _, _ | .semi :: _, _ => cases hpar
  unfold exec
  split
  · rename_i us hus
    rw [hus] at hhead
    exact absurd rfl hhead
  · rfl

lemma descent_complete {x : Nonterminal} {c : Cmd} (h : Derives x ts c) :
    ∀ n rest, Follows x rest → (descent x n (ts ++ rest)).Yields (c, rest) := by
  induction h with
  | @last ts c _ k ih =>
    intro n rest hrest
    rcases n with _ | n
    · exact .inr rfl
    rw [append_assoc]
    have hpipe : Follows .pipe (List.replicate k .amp ++ rest) :=
      follows_pipe k (hrest.imp id fun ⟨us, hus⟩ => ⟨_, us, hus, .inl rfl⟩)
    have hamp : rest.head? ≠ some .amp := by
      obtain rfl | ⟨us, rfl⟩ := hrest <;> simp
    refine (ih n _ hpipe).next ((backs_complete k hamp).next ?_)
    obtain rfl | ⟨us, rfl⟩ := hrest
    · exact .inl rfl
    · exact .inl rfl
  | @next ts us c d _ k _ ih ih' =>
    intro n rest hrest
    rcases n with _ | n
    · exact .inr rfl
    rw [append_assoc, append_assoc, cons_append]
    have hpipe : Follows .pipe (List.replicate k .amp ++ .semi :: (us ++ rest)) :=
      follows_pipe k (.inr ⟨_, _, rfl, .inr rfl⟩)
    refine (ih n _ hpipe).next ((backs_complete k (by simp)).next ?_)
    exact (ih' n rest hrest).next (.inl rfl)
  | single _ ih =>
    intro n rest hrest
    rcases n with _ | n
    · exact .inr rfl
    refine (ih n rest hrest.1).next ?_
    refine .inl ?_
    obtain ⟨hclosed, hbar⟩ := hrest
    match rest, hclosed with
    | [], _ | .rpar :: _, _ | .amp :: _, _ | .semi :: _, _ => rfl
    | .bar :: _, _ => exact absurd rfl hbar
  | @piped ts us _ _ _ _ ih ih' =>
    intro n rest hrest
    rcases n with _ | n
    · exact .inr rfl
    rw [append_assoc, cons_append]
    have hexec : Closed (.bar :: (us ++ rest)) = true := rfl
    exact (ih n _ hexec).next ((ih' n rest hrest).next (.inl rfl))
  | @block ts c _ rs ih =>
    intro n rest hrest
    match n with
    | 0 => exact .inr rfl
    | 1 => exact .inr rfl
    | n + 2 =>
      change (block (n + 1) (.lpar :: ((ts ++ .rpar :: redirTokens rs) ++ rest))).Yields _
      rw [append_assoc, cons_append]
      refine (ih n _ (.inr ⟨_, rfl⟩)).next ?_
      exact (redirs_complete rs (noRedir_of_closed hrest)).next (.inl rfl)
  | simple rs as hlen =>
    intro n rest hrest
    rcases n with _ | n
    · exact .inr rfl
    change (exec (n + 1) _).Yields _
    rw [exec_simple rs as hrest, append_assoc]
    refine (redirs_complete rs (noRedir_argTokens as hrest)).next ?_
    exact (args_complete as hlen hrest).next (.inl rfl)

lemma line_complete {c : Cmd} (h : Derives .line ts c) : (line n ts).Yields (c, []) := by
  have hyields := descent_complete h n [] (.inl rfl)
  rwa [append_nil] at hyields

end

/-! ## The descent terminates -/

section
variable {α β : Type} {x : Parsed α} {f : α → List Token → Parsed β}

/-- The only way to fail is to panic. -/
def Parsed.Decided (x : Parsed α) : Prop := ∀ e, x = .error e → ∃ message, e = .panic message

lemma Parsed.decided_ok (r : α × List Token) : Parsed.Decided (.ok r) := by
  intro e h
  cases h

lemma Parsed.decided_panic (message : String) :
    Parsed.Decided (.error (.panic message) : Parsed α) := by
  intro e h
  cases h
  exact ⟨message, rfl⟩

lemma Parsed.Decided.next (hx : x.Decided)
    (hf : ∀ a ts, x = .ok (a, ts) → (f a ts).Decided) : (x.next f).Decided := by
  cases x with
  | error e =>
    intro e' h
    cases h
    exact hx e rfl
  | ok r => exact hf r.1 r.2 rfl

/-- A result that does not depend on the bound is the result. -/
lemma Parsed.Decided.eq_ok {r : α × List Token} (hx : x.Decided) (hr : x.Yields r) :
    x = .ok r := by
  refine hr.resolve_right fun h => ?_
  obtain ⟨message, hmessage⟩ := hx _ h
  cases hmessage

end

section
variable {n argc : ℕ} {ts rest : List Token}

lemma redirs_enough (h : ts.length < n) : (redirs n ts).Decided := by
  induction n generalizing ts with
  | zero => omega
  | succ n ih =>
    rcases ts with _ | ⟨t, us⟩
    · exact Parsed.decided_ok _
    simp only [redirs]
    split
    · exact Parsed.decided_ok _
    split
    · refine (ih ?_).next fun _ _ _ => Parsed.decided_ok _
      simp only [length_cons] at h
      omega
    · exact Parsed.decided_panic _

lemma redirs_length {rs : List Redir} (h : redirs n ts = .ok (rs, rest)) :
    rest.length ≤ ts.length := by
  rw [redirs_sound h, length_append]
  omega

lemma args_enough (h : ts.length < n) : (args n argc ts).Decided := by
  induction n generalizing ts argc with
  | zero => omega
  | succ n ih =>
    unfold args
    split
    · exact Parsed.decided_ok _
    split
    · split
      · exact Parsed.decided_panic _
      rw [length_cons] at h
      refine (redirs_enough (by omega)).next fun rs us hrs => ?_
      have := redirs_length hrs
      exact (ih (by omega)).next fun _ _ _ => Parsed.decided_ok _
    · exact Parsed.decided_panic _

lemma backs_enough (h : ts.length < n) : (backs n ts).Decided := by
  induction n generalizing ts with
  | zero => omega
  | succ n ih =>
    unfold backs
    split
    · rw [length_cons] at h
      exact (ih (by omega)).next fun _ _ _ => Parsed.decided_ok _
    · exact Parsed.decided_ok _

lemma Used.length {x : Nonterminal} {c : Cmd} (h : Used x ts c rest) :
    rest.length ≤ ts.length := by
  obtain ⟨used, rfl, _⟩ := h
  rw [length_append]
  omega

lemma descent_enough (n : ℕ) : (∀ ts, 4 * ts.length + 5 ≤ n → (line n ts).Decided) ∧
    (∀ ts, 4 * ts.length + 4 ≤ n → (pipe n ts).Decided) ∧
    (∀ ts, 4 * ts.length + 3 ≤ n → (exec n ts).Decided) ∧
    (∀ ts, 4 * ts.length + 2 ≤ n → (block n ts).Decided) := by
  induction n with
  | zero => exact ⟨fun _ h => by omega, fun _ h => by omega, fun _ h => by omega,
      fun _ h => by omega⟩
  | succ n ih =>
    obtain ⟨hline, hpipe, hexec, hblock⟩ := ih
    refine ⟨fun ts h => ?_, fun ts h => ?_, fun ts h => ?_, fun ts h => ?_⟩
    · refine (hpipe ts (by omega)).next fun c us hc => ?_
      have hus := ((descent_sound n).2.1 _ _ _ hc).length
      refine (backs_enough (by omega)).next fun k vs hk => ?_
      have hvs := congrArg List.length (backs_sound hk)
      rw [length_append] at hvs
      split
      · rw [length_cons] at hvs
        exact (hline _ (by omega)).next fun _ _ _ => Parsed.decided_ok _
      · exact Parsed.decided_ok _
    · refine (hexec ts (by omega)).next fun c us hc => ?_
      have hus := ((descent_sound n).2.2.1 _ _ _ hc).length
      split
      · rw [length_cons] at hus
        exact (hpipe _ (by omega)).next fun _ _ _ => Parsed.decided_ok _
      · exact Parsed.decided_ok _
    · unfold exec
      split
      · exact hblock _ (by omega)
      refine (redirs_enough (by omega)).next fun rs us hrs => ?_
      have := redirs_length hrs
      exact (args_enough (by omega)).next fun _ _ _ => Parsed.decided_ok _
    unfold block
    split
    · rw [length_cons] at h
      refine (hline _ (by omega)).next fun c us hc => ?_
      have hus := (line_sound hc).length
      split
      · rw [length_cons] at hus
        exact (redirs_enough (by omega)).next fun _ _ _ => Parsed.decided_ok _
      · exact Parsed.decided_panic _
    · exact Parsed.decided_panic _

lemma line_enough (h : 4 * ts.length + 5 ≤ n) : (line n ts).Decided := (descent_enough n).1 ts h

/-- The descent uses up all tokens exactly if they derive a line, and then it returns the
tree of the derivation. -/
lemma line_eq_iff (h : 4 * ts.length + 5 ≤ n) (c : Cmd) :
    line n ts = .ok (c, []) ↔ Derives .line ts c := by
  constructor
  · intro hline
    obtain ⟨used, hts, hder⟩ := line_sound hline
    rwa [hts, append_nil]
  · intro hder
    exact (line_enough h).eq_ok (line_complete hder)

end
end Xv6.Sh
