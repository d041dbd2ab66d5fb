import Xv6.File.Ops
import Xv6.Sh.Grammar

/-!
# The shell: the parser of `sh.c`

The parser allocates the nodes of a command tree, holds pointers to them, and
fills in the words of an `execcmd` after it may have wrapped it in `redircmd`s.
`nulterminate` then walks over the tree and writes NUL bytes into the line.

## Implementation notes

The heap is the list of the nodes allocated so far and a pointer is an index
into it; `malloc` does not fail, so `nulterminate` meets no NULL pointer to a
node. The recursion and the loops take a bound on
their depth and stop with `Fault.fuel` when it is used up. A write outside of
an array or through a pointer to something else stops with `Fault.bounds`.
-/

namespace Xv6.Sh
open Xv6.Lib Xv6.File

/-- A pointer to a node. -/
abbrev Ptr : Type := ℕ

/-- `struct execcmd`, `redircmd`, `pipecmd`, `listcmd` and `backcmd`. -/
inductive Node
  | exec (argv eargv : Fin MAXARGS → Option ℕ)
  | redir (cmd : Ptr) (file efile : ℕ) (mode : UInt32) (fd : ℕ)
  | pipe (left right : Ptr)
  | list (left right : Ptr)
  | back (cmd : Ptr)

/-- The line, the cursor `*ps` into it, the nodes, and what was printed on descriptor 2 as
format and argument. -/
structure Shell where
  buf : ℕ → UInt8
  s : ℕ
  heap : List Node
  stderr : List (String × List UInt8)

/-- The code of the shell. -/
abbrev Code : Type → Type := Exec Fault Shell

def panic {α : Type} (message : String) : Code α := Exec.stop (.panic message)

/-! ## Constructors -/

/-- `malloc` and the assignments that fill in a node. -/
def alloc (node : Node) : Code Ptr := do
  let st ← Exec.get
  Exec.modify fun st => { st with heap := st.heap ++ [node] }
  pure st.heap.length

def execcmd : Code Ptr := alloc (.exec (fun _ => none) fun _ => none)

def redircmd (subcmd : Ptr) (file efile : ℕ) (mode : UInt32) (fd : ℕ) : Code Ptr :=
  alloc (.redir subcmd file efile mode fd)

def pipecmd (left right : Ptr) : Code Ptr := alloc (.pipe left right)

def listcmd (left right : Ptr) : Code Ptr := alloc (.list left right)

def backcmd (subcmd : Ptr) : Code Ptr := alloc (.back subcmd)

/-! ## Parsing -/

section
variable (es : ℕ)

def gettoken : Code Lexeme := do
  let st ← Exec.get
  Exec.modify fun st => { st with s := (lexeme st.buf es st.s).2 }
  pure (lexeme st.buf es st.s).1

def peek (toks : List UInt8) : Code Bool := do
  let st ← Exec.get
  let s := skip st.buf es st.s
  Exec.modify fun st => { st with s := s }
  pure (decide (st.buf s ≠ 0 ∧ st.buf s ∈ toks))

/-- The `switch (tok)` of `parseredirs`. -/
def redirect (tok : UInt8) (cmd : Ptr) (q eq : ℕ) : Code Ptr :=
  if tok = 60 then redircmd cmd q eq O_RDONLY 0
  else if tok = 62 then redircmd cmd q eq (O_WRONLY ||| O_CREATE) 1
  -- '+' for >>
  else if tok = 43 then redircmd cmd q eq (O_WRONLY ||| O_CREATE) 1
  else pure cmd

def parseredirs : ℕ → Ptr → Code Ptr
  | 0, _ => Exec.stop .fuel
  | n + 1, cmd => do
    let more ← peek es [60, 62]
    if more then
      let tok ← gettoken es
      let x ← gettoken es
      if x.ret ≠ 97 then panic "missing file for redirection"
      else
        let cmd ← redirect tok.ret cmd x.q x.eq
        parseredirs n cmd
    else pure cmd

/-- `cmd->argv[argc] = q; cmd->eargv[argc] = eq;` -/
def setArg (cmd : Ptr) (argc : ℕ) (q eq : Option ℕ) : Code Unit := do
  let st ← Exec.get
  match st.heap[cmd]? with
  | some (.exec argv eargv) =>
    if h : argc < MAXARGS then
      Exec.modify fun st => { st with
        heap := st.heap.set cmd
          (.exec (Function.update argv ⟨argc, h⟩ q) (Function.update eargv ⟨argc, h⟩ eq)) }
    else Exec.stop .bounds
  | _ => Exec.stop .bounds

/-- The loop of `parseexec`; returns `ret` and `argc`. -/
def parseargs (cmd : Ptr) : ℕ → ℕ → Ptr → Code (Ptr × ℕ)
  | 0, _, _ => Exec.stop .fuel
  | n + 1, argc, ret => do
    let done ← peek es [124, 41, 38, 59]
    if done then pure (ret, argc)
    else
      let x ← gettoken es
      if x.ret = 0 then pure (ret, argc)
      else if x.ret ≠ 97 then panic "syntax"
      else
        setArg cmd argc (some x.q) (some x.eq)
        if MAXARGS ≤ argc + 1 then panic "too many args"
        else
          let ret ← parseredirs es n ret
          parseargs cmd n (argc + 1) ret

/-- The loop of `parseline` over the ampersands. -/
def parsebacks : ℕ → Ptr → Code Ptr
  | 0, _ => Exec.stop .fuel
  | n + 1, cmd => do
    let more ← peek es [38]
    if more then
      let _ ← gettoken es
      let cmd ← backcmd cmd
      parsebacks n cmd
    else pure cmd

mutual

def parseline : ℕ → Code Ptr
  | 0 => Exec.stop .fuel
  | n + 1 => do
    let cmd ← parsepipe n
    let cmd ← parsebacks es n cmd
    let more ← peek es [59]
    if more then
      let _ ← gettoken es
      let right ← parseline n
      listcmd cmd right
    else pure cmd

def parsepipe : ℕ → Code Ptr
  | 0 => Exec.stop .fuel
  | n + 1 => do
    let cmd ← parseexec n
    let more ← peek es [124]
    if more then
      let _ ← gettoken es
      let right ← parsepipe n
      pipecmd cmd right
    else pure cmd

def parseexec : ℕ → Code Ptr
  | 0 => Exec.stop .fuel
  | n + 1 => do
    let paren ← peek es [40]
    if paren then parseblock n
    else
      let cmd ← execcmd
      let ret ← parseredirs es n cmd
      let r ← parseargs es cmd n 0 ret
      setArg cmd r.2 none none
      pure r.1

def parseblock : ℕ → Code Ptr
  | 0 => Exec.stop .fuel
  | n + 1 => do
    let paren ← peek es [40]
    if !paren then panic "parseblock"
    else
      let _ ← gettoken es
      let cmd ← parseline n
      let paren ← peek es [41]
      if !paren then panic "syntax - missing )"
      else
        let _ ← gettoken es
        parseredirs es n cmd

end
end

/-! ## NUL-terminating the words -/

/-- `*p = 0` -/
def clear (p : ℕ) : Code Unit := Exec.modify fun st => { st with buf := Function.update st.buf p 0 }

/-- `for (i = 0; ecmd->argv[i]; i++) *ecmd->eargv[i] = 0;` with `k` elements left from `i` on. -/
def clearArgs (argv eargv : Fin MAXARGS → Option ℕ) : ℕ → ℕ → Code Unit
  | 0, _ => Exec.stop .bounds
  | k + 1, i =>
    if h : i < MAXARGS then
      match argv ⟨i, h⟩, eargv ⟨i, h⟩ with
      | none, _ => pure ()
      | some _, none => Exec.stop .bounds
      | some _, some e => do
        clear e
        clearArgs argv eargv k (i + 1)
    else Exec.stop .bounds

def nulterminate : ℕ → Ptr → Code Ptr
  | 0, _ => Exec.stop .fuel
  | n + 1, cmd => do
    let st ← Exec.get
    match st.heap[cmd]? with
    | none => Exec.stop .bounds
    | some (.exec argv eargv) => do
      clearArgs argv eargv MAXARGS 0
      pure cmd
    | some (.redir sub _ efile _ _) => do
      let _ ← nulterminate n sub
      clear efile
      pure cmd
    | some (.pipe left right) => do
      let _ ← nulterminate n left
      let _ ← nulterminate n right
      pure cmd
    | some (.list left right) => do
      let _ ← nulterminate n left
      let _ ← nulterminate n right
      pure cmd
    | some (.back sub) => do
      let _ ← nulterminate n sub
      pure cmd

/-- `strlen(s)`, over at most `n` bytes. -/
def strlen (n s : ℕ) : Code ℕ := do
  let st ← Exec.get
  let e := scan (fun i => decide (st.buf i ≠ 0)) (s + n) s
  if st.buf e = 0 then pure (e - s) else Exec.stop .fuel

/-- The string that starts at `s` and ends at `es`. -/
def stringAt (buf : ℕ → UInt8) (es s : ℕ) : List UInt8 :=
  (List.range (es - s)).map fun i => buf (s + i)

/-- The cursor is at the start of the line when `parsecmd` is called. -/
def parsecmd (n : ℕ) : Code Ptr := do
  let st ← Exec.get
  let len ← strlen n st.s
  let es := st.s + len
  let cmd ← parseline es n
  let _ ← peek es []
  let st ← Exec.get
  if st.s ≠ es then
    Exec.modify fun st => { st with
      stderr := st.stderr ++ [("leftovers: %s\n", stringAt st.buf es st.s)] }
    panic "syntax"
  else
    let _ ← nulterminate n cmd
    pure cmd

/-! ## Lines -/

/-- A line that the shell has read: bytes without a NUL byte among them. -/
structure Line where
  bytes : List UInt8
  noNul : 0 ∉ bytes

/-- The line in the buffer, with NUL bytes behind it. -/
def Line.buf (l : Line) (i : ℕ) : UInt8 := l.bytes.getD i 0

/-- The state in which `parsecmd` is called. -/
def Line.start (l : Line) : Shell := ⟨l.buf, 0, [], []⟩

/-- The tokens of a line, as `gettoken` cuts them. -/
def Line.tokens (l : Line) : List Token := Sh.tokens l.buf l.bytes.length 0

/-- The bytes of a word of the line. -/
def Line.text (l : Line) (w : Word) : List UInt8 := stringAt l.buf w.eq w.q

/-- The tokens of `a>>b c`. -/
example : Line.tokens ⟨[97, 62, 62, 98, 32, 99], by decide⟩ =
    [.word ⟨0, 1⟩, .gtgt, .word ⟨3, 4⟩, .word ⟨5, 6⟩] := by decide

end Xv6.Sh
