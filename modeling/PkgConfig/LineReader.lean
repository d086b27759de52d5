import PkgConfig.Package

/-! `read_one_line` of parse.c and the loop of `parse_package_file` that calls it until
it returns FALSE. The stream is the list of bytes not yet read; `getc` takes its head
and `ungetc` of the byte just read leaves it in place, so the one-byte lookahead after a
line terminator is a pattern on the first two bytes. Beside it, the logical lines in
which `\r`, `\n`, `\r\n` and `\n\r` all end a line, as the comment of `read_one_line`
lists its delimiters. On a stream without `\r` the two agree; a lone `\r` is where they
part. -/

namespace PkgConfig

/-- The loop of `read_one_line` over `quoted`, `comment`, `n_read` and the line so far. -/
def readOneLineLoop : Bool → Bool → Nat → Bytes → List Char → Bool × Bytes × List Char
  | quoted, _, nRead, str, [] => (decide (nRead > 0), if quoted then str ++ ['\\'] else str, [])
  | true, comment, nRead, str, '\r' :: '\n' :: rest =>
    readOneLineLoop false comment (nRead + 1) str rest
  | true, comment, nRead, str, '\n' :: '\r' :: rest =>
    readOneLineLoop false comment (nRead + 1) str rest
  | true, comment, nRead, str, '\r' :: rest => readOneLineLoop false comment (nRead + 1) str rest
  | true, comment, nRead, str, '\n' :: rest => readOneLineLoop false comment (nRead + 1) str rest
  | true, comment, nRead, str, '#' :: rest =>
    readOneLineLoop false comment (nRead + 1) (str ++ ['#']) rest
  | true, comment, nRead, str, c :: rest =>
    readOneLineLoop false comment (nRead + 1) (str ++ ['\\', c]) rest
  | false, _, nRead, str, '#' :: rest => readOneLineLoop false true (nRead + 1) str rest
  | false, comment, nRead, str, '\\' :: rest =>
    readOneLineLoop (!comment) comment (nRead + 1) str rest
  | false, _, _, str, '\n' :: '\r' :: rest => (true, str, rest)
  | false, _, _, str, '\n' :: rest => (true, str, rest)
  | false, comment, nRead, str, c :: rest =>
    readOneLineLoop false comment (nRead + 1) (if comment then str else str ++ [c]) rest

/-- `read_one_line`: FALSE only when the stream was already at its end. -/
def readOneLine (stream : List Char) : Bool × Bytes × List Char :=
  readOneLineLoop false false 0 [] stream

/-- The lines `parse_package_file` reads: `read_one_line` until it returns FALSE. -/
def readLines : Nat → List Char → List Bytes
  | 0, _ => []
  | fuel + 1, stream =>
    match readOneLine stream with
    | (true, line, rest) => line :: readLines fuel rest
    | (false, _, _) => []

/-- Every line of a stream, as `parse_package_file` reads them. -/
def readAllLines (stream : List Char) : List Bytes := readLines (stream.length + 1) stream

/-- Logical lines that `\r`, `\n`, `\r\n` and `\n\r` all end, with escapes and comments. -/
def specLinesFrom : Bool → Bool → Bytes → List Char → List Bytes
  | started, _, line, [] => if started then [line] else []
  | _, false, line, '\\' :: '\r' :: '\n' :: rest => specLinesFrom true false line rest
  | _, false, line, '\\' :: '\n' :: '\r' :: rest => specLinesFrom true false line rest
  | _, false, line, '\\' :: '\r' :: rest => specLinesFrom true false line rest
  | _, false, line, '\\' :: '\n' :: rest => specLinesFrom true false line rest
  | _, false, line, '\\' :: '#' :: rest => specLinesFrom true false (line ++ ['#']) rest
  | _, false, line, '\\' :: c :: rest => specLinesFrom true false (line ++ ['\\', c]) rest
  | _, false, line, ['\\'] => [line ++ ['\\']]
  | _, _, line, '\r' :: '\n' :: rest => line :: specLinesFrom false false [] rest
  | _, _, line, '\n' :: '\r' :: rest => line :: specLinesFrom false false [] rest
  | _, _, line, '\r' :: rest => line :: specLinesFrom false false [] rest
  | _, _, line, '\n' :: rest => line :: specLinesFrom false false [] rest
  | _, false, line, '#' :: rest => specLinesFrom true true line rest
  | _, comment, line, c :: rest =>
    specLinesFrom true comment (if comment then line else line ++ [c]) rest

/-- The logical lines of a stream. -/
def specLogicalLines (stream : List Char) : List Bytes := specLinesFrom false false [] stream

private theorem rest_of_tail {r : Bool × Bytes × List Char} {s' s : List Char} {n : Nat}
    (h : r.2.2 <:+ s') (tail : s' <:+ s) (shorter : s'.length < s.length) :
    r.2.2 <:+ s ∧ (r.1 = true → 0 < n ∨ r.2.2.length < s.length) :=
  ⟨h.trans tail, fun _ => .inr (lt_of_le_of_lt h.length_le shorter)⟩

theorem readOneLineLoop_rest (quoted comment : Bool) (n : Nat) (str : Bytes) (s : List Char) :
    let r := readOneLineLoop quoted comment n str s
    r.2.2 <:+ s ∧ (r.1 = true → 0 < n ∨ r.2.2.length < s.length) := by
  induction quoted, comment, n, str, s using readOneLineLoop.induct with
  | case1 => simp [readOneLineLoop]
  | case10 | case11 =>
    exact ⟨by simp [readOneLineLoop, List.suffix_cons_iff],
      fun _ => .inr (by simp only [readOneLineLoop, List.length_cons]; omega)⟩
  | case2 _ _ _ _ ih | case3 _ _ _ _ ih | case4 _ _ _ _ _ ih | case5 _ _ _ _ _ ih
  | case6 _ _ _ _ ih | case7 _ _ _ _ _ _ _ _ _ _ ih | case8 _ _ _ _ ih | case9 _ _ _ _ ih
  | case12 _ _ _ _ _ _ _ _ _ ih =>
    simp only [readOneLineLoop]
    exact rest_of_tail ih.1 (by simp [List.suffix_cons_iff]) (by simp only [List.length_cons]; omega)

theorem specLinesFrom_cons {started comment : Bool} {line : Bytes} {c : Char} {s : List Char}
    (notCR : c ≠ '\r') (notLF : c ≠ '\n') (data : comment = false → c ≠ '\\' ∧ c ≠ '#') :
    specLinesFrom started comment line (c :: s) =
      specLinesFrom true comment (if comment then line else line ++ [c]) s := by
  apply specLinesFrom.eq_14 <;> intros <;> simp_all

theorem specLinesFrom_readOneLineLoop (quoted comment : Bool) (n : Nat) (str : Bytes)
    (s : List Char) (started : Bool) (noCR : '\r' ∉ s)
    (escape : quoted = true → comment = false ∧ 0 < n)
    (fresh : quoted = false → started = decide (0 < n)) :
    specLinesFrom started comment str (if quoted then '\\' :: s else s) =
      let r := readOneLineLoop quoted comment n str s
      if r.1 then r.2.1 :: specLinesFrom false false [] r.2.2 else [] := by
  induction quoted, comment, n, str, s using readOneLineLoop.induct generalizing started with
  | case1 quoted comment n str =>
    cases quoted
    · simp [readOneLineLoop, specLinesFrom, fresh rfl]
    · obtain ⟨rfl, pos⟩ := escape rfl
      simp only [readOneLineLoop, pos, decide_True]; rfl
  | case2 | case3 | case4 | case10 => simp at noCR
  | case5 comment n str rest noCRhead ih =>
    obtain ⟨rfl, -⟩ := escape rfl
    rw [if_pos rfl, specLinesFrom.eq_5 _ _ _ noCRhead, readOneLineLoop.eq_5 _ _ _ _ noCRhead]
    exact ih true (List.not_mem_of_not_mem_cons noCR) (by simp) (by simp)
  | case6 comment n str rest ih =>
    obtain ⟨rfl, -⟩ := escape rfl
    rw [if_pos rfl, specLinesFrom.eq_6, readOneLineLoop.eq_6]
    exact ih true (List.not_mem_of_not_mem_cons noCR) (by simp) (by simp)
  | case7 comment n str c rest h1 h2 h3 h4 h5 ih =>
    obtain ⟨rfl, -⟩ := escape rfl
    rw [if_pos rfl, specLinesFrom.eq_7 _ _ _ _ h1 h2 h3 h4 h5,
      readOneLineLoop.eq_7 _ _ _ _ _ h1 h2 h3 h4 h5]
    exact ih true (List.not_mem_of_not_mem_cons noCR) (by simp) (by simp)
  | case8 comment n str rest ih =>
    have tail := ih true (List.not_mem_of_not_mem_cons noCR) (by simp) (by simp)
    rw [readOneLineLoop.eq_8, ← tail]
    cases comment
    · exact specLinesFrom.eq_13 _ _ _
    · exact specLinesFrom_cons (by decide) (by decide) (by simp)
  | case9 comment n str rest ih =>
    rw [readOneLineLoop.eq_9]
    cases comment
    · exact ih started (List.not_mem_of_not_mem_cons noCR) (by simp) (by simp)
    · rw [if_neg (by simp), specLinesFrom_cons (by decide) (by decide) (by simp)]
      exact ih true (List.not_mem_of_not_mem_cons noCR) (by simp) (by simp)
  | case11 comment n str rest noCRhead =>
    rw [if_neg (by simp), specLinesFrom.eq_12 _ _ _ _ noCRhead, readOneLineLoop.eq_11 _ _ _ _ noCRhead]
    rfl
  | case12 comment n str c rest h1 h2 h3 h4 ih =>
    have notCR : c ≠ '\r' := by rintro rfl; simp at noCR
    rw [if_neg (by simp), readOneLineLoop.eq_12 _ _ _ _ _ h1 h2 h3 h4,
      specLinesFrom_cons notCR h4 fun _ => ⟨h2, h1⟩]
    exact ih true (List.not_mem_of_not_mem_cons noCR) (by simp) (by simp)

theorem readLines_eq_specLinesFrom (fuel : Nat) (s : List Char) (noCR : '\r' ∉ s)
    (enough : s.length < fuel) : readLines fuel s = specLinesFrom false false [] s := by
  induction fuel generalizing s with
  | zero => omega
  | succ fuel ih =>
    have line := specLinesFrom_readOneLineLoop false false 0 [] s false noCR (by simp) (by simp)
    have rest := readOneLineLoop_rest false false 0 [] s
    rcases read : readOneLineLoop false false 0 [] s with ⟨_ | _, l, rest'⟩
    all_goals simp only [read] at line rest; simp only [readLines, readOneLine, read]
    · simpa using line.symm
    · rw [ih rest' (fun mem => noCR (rest.1.subset mem)) (by have := rest.2 trivial; omega)]
      simpa using line.symm

/-- Without `\r`, the reader computes exactly the logical lines. -/
theorem readAllLines_eq_specLogicalLines (stream : List Char) (noCR : '\r' ∉ stream) :
    readAllLines stream = specLogicalLines stream :=
  readLines_eq_specLinesFrom _ stream noCR (Nat.lt_succ_self _)

theorem readAllLines_eq_specLogicalLines_joined :
    '\r' ∉ ['a', '\\', '\n', 'b', '#', 'c', '\n'] ∧
      readAllLines ['a', '\\', '\n', 'b', '#', 'c', '\n'] =
        specLogicalLines ['a', '\\', '\n', 'b', '#', 'c', '\n'] :=
  ⟨by decide, readAllLines_eq_specLogicalLines _ (by decide)⟩

theorem readOneLineLoop_no_newline (quoted comment : Bool) (n : Nat) (str : Bytes)
    (s : List Char) (clean : '\n' ∉ str) : '\n' ∉ (readOneLineLoop quoted comment n str s).2.1 := by
  induction quoted, comment, n, str, s using readOneLineLoop.induct with
  | case1 quoted => cases quoted <;> simp_all [readOneLineLoop]
  | case10 | case11 => simpa [readOneLineLoop] using clean
  | case2 _ _ _ _ ih | case3 _ _ _ _ ih | case4 _ _ _ _ _ ih | case5 _ _ _ _ _ ih
  | case6 _ _ _ _ ih | case7 _ _ _ _ _ _ _ _ _ _ ih | case8 _ _ _ _ ih | case9 _ _ _ _ ih
  | case12 _ _ _ _ _ _ _ _ _ ih =>
    simp only [readOneLineLoop]
    exact ih (by (try split) <;> simp_all [@eq_comm _ '\n'])

/-- No line the reader hands to `parse_line` holds a newline. -/
theorem readAllLines_no_newline (stream : List Char) :
    ∀ line ∈ readAllLines stream, '\n' ∉ line := by
  suffices ∀ fuel s, ∀ line ∈ readLines fuel s, '\n' ∉ line from this _ _
  intro fuel
  induction fuel with
  | zero => simp [readLines]
  | succ fuel ih =>
    intro s line mem
    have clean := readOneLineLoop_no_newline false false 0 [] s (by simp)
    rcases read : readOneLineLoop false false 0 [] s with ⟨_ | _, l, rest⟩
    all_goals simp only [readLines, readOneLine, read, List.mem_cons] at mem clean
    · simp at mem
    · rcases mem with rfl | mem
      · exact clean
      · exact ih rest line mem

theorem readAllLines_no_newline_joined :
    ['a', 'b'] ∈ readAllLines ['a', '\\', '\n', 'b', '\n'] ∧ '\n' ∉ ['a', 'b'] :=
  ⟨by decide, readAllLines_no_newline ['a', '\\', '\n', 'b', '\n'] ['a', 'b'] (by decide)⟩

/-- A lone `\r` does not end a line for `read_one_line`. -/
theorem readAllLines_carriage_return :
    readAllLines ['a', '\r', 'b'] = [['a', '\r', 'b']] ∧
      specLogicalLines ['a', '\r', 'b'] = [['a'], ['b']] := by
  decide

end PkgConfig
