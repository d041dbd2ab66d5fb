import Xv6.Strings.Matcher

/-!
# Programs that read a stream in pieces

The loop of `grep`, which keeps the beginning of a line for the next read, and the loop of `cpt`,
which stops behind a newline.

## Implementation notes

The results of `read` are a list of pieces. The buffer of `grep` is the list of its first `m`
bytes; `read` is asked for what the array has left and never returns more.
-/

namespace Xv6.Strings

/-- `'\n'`. -/
def newline : UInt8 := 10

/-! ### `grep` -/

/-- The loop over the lines from `p` on: what is written, and where `p` is left. -/
def scan (pattern p : List UInt8) : List UInt8 × List UInt8 :=
  if _h : newline ∈ p then
    let line := p.take (p.idxOf newline)
    let rest := scan pattern (p.drop (p.idxOf newline + 1))
    ((if matchRe pattern line then line ++ [newline] else []) ++ rest.1, rest.2)
  else ([], p)
termination_by p.length
decreasing_by
  have := List.length_pos_of_mem _h
  rw [List.length_drop]
  omega

/-- `grep`: the output, from the bytes kept in `buf` and the results of `read`. -/
def grep (pattern : List UInt8) : List UInt8 → List (List UInt8) → List UInt8
  | _, [] => []
  | kept, chunk :: chunks =>
    let buf := kept ++ chunk
    let p := (scan pattern buf).2
    -- `if(p == buf) m = 0;`
    let kept := if p.length = buf.length then [] else p
    (scan pattern buf).1 ++ grep pattern kept chunks

/-- The lines, each followed by its newline. -/
def unlines (lines : List (List UInt8)) : List UInt8 := lines.flatMap (· ++ [newline])

@[simp]
lemma unlines_cons (l : List UInt8) (lines : List (List UInt8)) :
    unlines (l :: lines) = l ++ newline :: unlines lines := by
  simp [unlines]

variable {pattern l s : List UInt8} {lines : List (List UInt8)}

lemma scan_rest (h : newline ∉ s) : scan pattern s = ([], s) := by
  rw [scan, dif_neg h]

lemma scan_line (h : newline ∉ l) : scan pattern (l ++ newline :: s) =
    ((if matchRe pattern l then l ++ [newline] else []) ++ (scan pattern s).1,
      (scan pattern s).2) := by
  have hidx : (l ++ newline :: s).idxOf newline = l.length := by
    rw [List.idxOf_append_of_notMem h, List.idxOf_cons_self, Nat.add_zero]
  rw [scan, dif_pos (by simp)]
  simp [hidx]

lemma scan_lines (hl : ∀ l ∈ lines, newline ∉ l) : scan pattern (unlines lines ++ s) =
    (unlines (lines.filter (matchRe pattern)) ++ (scan pattern s).1, (scan pattern s).2) := by
  induction lines with
  | nil => rfl
  | cons l lines ih =>
    rw [List.forall_mem_cons] at hl
    rw [unlines_cons, List.append_assoc, List.cons_append, scan_line hl.1, ih hl.2,
      List.filter_cons]
    by_cases h : matchRe pattern l <;> simp [h]

/-- Every buffer is some whole lines and the beginning of a line. -/
lemma exists_lines (s : List UInt8) : ∃ lines rest,
    s = unlines lines ++ rest ∧ (∀ l ∈ lines, newline ∉ l) ∧ newline ∉ rest := by
  induction s with
  | nil => exact ⟨[], [], rfl, by simp, by simp⟩
  | cons c s ih =>
    obtain ⟨lines, rest, rfl, hl, hr⟩ := ih
    by_cases hc : c = newline
    · exact ⟨[] :: lines, rest, by simp [hc], by simpa using hl, hr⟩
    rcases lines with _ | ⟨l, lines⟩
    · exact ⟨[], c :: rest, rfl, by simp, by simpa [eq_comm] using ⟨hc, hr⟩⟩
    refine ⟨(c :: l) :: lines, rest, by simp, ?_, hr⟩
    simpa [Ne.symm hc] using hl

/-- The reads together are scanned as one, from a buffer that holds the beginning of a line. -/
lemma grep_eq_scan {kept : List UInt8} {chunks : List (List UInt8)} (hk : newline ∉ kept)
    (hc : ∀ chunk ∈ chunks, newline ∈ chunk) :
    grep pattern kept chunks = (scan pattern (kept ++ chunks.flatten)).1 := by
  induction chunks generalizing kept with
  | nil => rw [List.flatten_nil, List.append_nil, scan_rest hk, grep]
  | cons chunk chunks ih =>
    rw [List.forall_mem_cons] at hc
    obtain ⟨done, rest, hb, hd, hr⟩ := exists_lines (kept ++ chunk)
    have hne : rest.length ≠ (kept ++ chunk).length := by
      intro he
      have hnil : unlines done = [] := by simpa [hb] using he
      rw [hnil, List.nil_append] at hb
      exact hr (hb ▸ List.mem_append_right _ hc.1)
    have hbuf := @scan_lines pattern rest done hd
    rw [← hb, scan_rest hr, List.append_nil] at hbuf
    rw [grep, hbuf, List.flatten_cons, ← List.append_assoc, hb, List.append_assoc, scan_lines hd,
      ← hb, if_neg hne, ih hr hc.2]

/-- The empty pattern matches every line. -/
lemma matchRe_nil (l : List UInt8) : matchRe [] l = true := by
  cases l <;> simp [matchRe, search, matchhere]

/-- With the empty pattern every byte that is read is written or kept, but for what is dropped
with a read that brings no newline. -/
lemma grep_nil_length {kept : List UInt8} {chunks : List (List UInt8)} (hk : newline ∉ kept)
    (hne : ∀ chunk ∈ chunks, chunk ≠ []) :
    (grep [] kept chunks).length ≤ (kept ++ chunks.flatten).length ∧
      ((grep [] kept chunks).length = (kept ++ chunks.flatten).length →
        ∀ chunk ∈ chunks, newline ∈ chunk) := by
  induction chunks generalizing kept with
  | nil => simp [grep]
  | cons chunk chunks ih =>
    rw [List.forall_mem_cons] at hne ⊢
    obtain ⟨done, rest, hb, hd, hr⟩ := exists_lines (kept ++ chunk)
    have hlen := congrArg List.length hb
    have hbuf := @scan_lines [] rest done hd
    rw [← hb, scan_rest hr, List.append_nil, List.filter_eq_self.mpr fun l _ => matchRe_nil l]
      at hbuf
    rw [grep, hbuf]
    dsimp only
    have hpos := List.length_pos_iff.mpr hne.1
    simp only [List.length_append, List.flatten_cons] at hlen ⊢
    split
    · have hle := (ih List.not_mem_nil hne.2).1
      simp only [List.length_append, List.length_nil] at hle
      exact ⟨by omega, fun h => by omega⟩
    · rename_i hrest
      obtain ⟨hle, heq⟩ := ih hr hne.2
      simp only [List.length_append] at hle heq
      refine ⟨by omega, fun h => ⟨?_, heq (by omega)⟩⟩
      have hmem : newline ∈ kept ++ chunk := by
        rcases done with _ | ⟨l, done⟩
        · exact absurd hlen.symm (by simpa [unlines] using hrest)
        · simp [hb]
      exact (List.mem_append.mp hmem).resolve_left hk

/-- `grep` writes the lines that match, in order, for every pattern exactly when every read brings
a newline. -/
theorem grep_eq_filter_iff (lines chunks : List (List UInt8)) (hl : ∀ l ∈ lines, newline ∉ l)
    (hne : ∀ chunk ∈ chunks, chunk ≠ []) (h : chunks.flatten = unlines lines) :
    (∀ pattern, grep pattern [] chunks = unlines (lines.filter (matchRe pattern))) ↔
      ∀ chunk ∈ chunks, newline ∈ chunk := by
  constructor
  · intro hall
    apply (grep_nil_length List.not_mem_nil hne).2
    rw [hall, List.filter_eq_self.mpr fun l _ => matchRe_nil l, List.nil_append, h]
  · intro hc pattern
    calc grep pattern [] chunks = (scan pattern (unlines lines ++ [])).1 := by
          rw [grep_eq_scan List.not_mem_nil hc, List.nil_append, h, List.append_nil]
      _ = unlines (lines.filter (matchRe pattern)) := by
          rw [scan_lines hl, scan_rest List.not_mem_nil, List.append_nil]

/-- `grep b` on the lines `a` and `b`, read as `a\n` and `b\n`. -/
theorem grep_two_reads :
    grep [98] [] [[97, newline], [98, newline]] = unlines ([[97], [98]].filter (matchRe [98])) :=
  (grep_eq_filter_iff [[97], [98]] _ (by decide) (by decide) rfl).mpr (by decide) [98]

/-- The line `ab`, read as `a` and `b\n`, matches `ab` and is not written. -/
theorem grep_line_in_two_reads :
    unlines ([[97, 98]].filter (matchRe [97, 98])) = [97, 98, newline] ∧
      grep [97, 98] [] [[97], [98, newline]] = [] := by
  constructor
  · simp [matchRe, search, matchhere, unlines, caret, asterisk, dollar, dot]
  · simp [grep, scan, matchRe, search, matchhere, newline, caret, asterisk, dollar, dot]

/-! ### `cpt` -/

/-- `cpt`: the file written and the message printed, from the results of `read`, the last of which
is `last`. A `write` gives the file's new content and its result. -/
def cpt (write : List UInt8 → List UInt8 → List UInt8 × ℤ) (last : ℤ) :
    List UInt8 → List (List UInt8) → List UInt8 × Option String
  | out, [] => (out, if last < 0 then some "cpt: read error\n" else none)
  | out, buf :: reads =>
    let (out, n) := write out buf
    if n ≠ buf.length then (out, some "cpt: write error\n")
    -- the stopping rule: `if (buf[n - 1] == '\n') exit();`
    else if buf.getLast? = some newline then (out, none)
    else cpt write last out reads

/-- A `write` at the end of a file that has room. -/
def append (out buf : List UInt8) : List UInt8 × ℤ := (out ++ buf, buf.length)

lemma cpt_append (out : List UInt8) {reads : List (List UInt8)} (hne : ∀ buf ∈ reads, buf ≠ []) :
    (cpt append 0 out reads).1 = out ++ reads.flatten ↔
      ∀ buf ∈ reads.dropLast, buf.getLast? ≠ some newline := by
  induction reads generalizing out with
  | nil => simp [cpt]
  | cons buf reads ih =>
    rw [List.forall_mem_cons] at hne
    by_cases hb : buf.getLast? = some newline
    · -- the loop ends here: the rest of the file has to be empty
      cases reads with
      | nil => simp [cpt, append, hb]
      | cons next reads => simp_all [cpt, append]
    have hstep : cpt append 0 out (buf :: reads) = cpt append 0 (out ++ buf) reads := by
      simp [cpt, append, hb]
    rw [hstep, List.flatten_cons, ← List.append_assoc, ih _ hne.2]
    cases reads with
    | nil => simp
    | cons next reads => simp [hb]

/-- `cpt src dst` copies the file exactly when no piece but the last ends in a newline. -/
theorem cpt_copies_iff (reads : List (List UInt8)) (hne : ∀ buf ∈ reads, buf ≠ []) :
    (cpt append 0 [] reads).1 = reads.flatten ↔
      ∀ buf ∈ reads.dropLast, buf.getLast? ≠ some newline :=
  cpt_append [] hne

theorem cpt_copies_two_reads : (cpt append 0 [] [[97], [98, newline]]).1 = [97, 98, newline] :=
  (cpt_copies_iff [[97], [98, newline]] (by decide)).mpr (by decide)

/-- The file `a\nb`, read as `a\n` and `b`, loses its second line. -/
theorem cpt_stops_behind_newline : (cpt append 0 [] [[97, newline], [98]]).1 = [97, newline] := by
  decide

end Xv6.Strings
