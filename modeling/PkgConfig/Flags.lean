import PkgConfig.Parse

/-! The argument tokenizers of `parse_cflags` and `do_parse_libs`: both loops prepend,
so each is the reverse of a left-to-right scan of the argument vector. The scans are
compared with tokenizers that skip the whitespace after `-I`, `-L` and `-l` before
escaping. -/

namespace PkgConfig

/-- The value `parse_cflags` and `do_parse_libs` put after a two-byte switch. -/
def switchValue (a : Bytes) : Bytes :=
  ((strdupEscapeShell (trimString a)).drop 2).dropWhile isspace

/-- The flags of an argument that does not take the next one along. -/
def cflagsOfArg (value : Bytes → Bytes) (a : Bytes) : List Flag :=
  let arg := strdupEscapeShell (trimString a)
  if arg.take 2 = ['-', 'I'] then [⟨.cflagsI, ['-', 'I'] ++ value a⟩]
  else if arg ≠ [] then [⟨.cflagsOther, arg⟩] else []

/-- The Cflags arguments left to right; `-idirafter` and `-isystem` take the next one. -/
def cflagsScan (value : Bytes → Bytes) : List Bytes → List Flag
  | [] => []
  | [a] => cflagsOfArg value a
  | a :: b :: more =>
    let arg := strdupEscapeShell (trimString a)
    if arg = "-idirafter".toList ∨ arg = "-isystem".toList then
      ⟨.cflagsI, arg ++ ' ' :: strdupEscapeShell (trimString b)⟩ :: cflagsScan value more
    else cflagsOfArg value a ++ cflagsScan value (b :: more)

/-- The flags of a Libs argument that does not take the next one along. -/
def libsOfArg (value : Bytes → Bytes) (a : Bytes) : List Flag :=
  let arg := strdupEscapeShell (trimString a)
  if arg.take 2 = ['-', 'l'] ∧ arg.take 5 ≠ "-lib:".toList then [⟨.libsl, ['-', 'l'] ++ value a⟩]
  else if arg.take 2 = ['-', 'L'] then [⟨.libsL, ['-', 'L'] ++ value a⟩]
  else if arg ≠ [] then [⟨.libsOther, arg⟩] else []

/-- The Libs arguments left to right; `-framework` and `-Wl,-framework` take the next one. -/
def libsScan (value : Bytes → Bytes) : List Bytes → List Flag
  | [] => []
  | [a] => libsOfArg value a
  | a :: b :: more =>
    let arg := strdupEscapeShell (trimString a)
    if arg = "-framework".toList ∨ arg = "-Wl,-framework".toList then
      ⟨.libsOther, arg ++ ' ' :: strdupEscapeShell (trimString b)⟩ :: libsScan value more
    else libsOfArg value a ++ libsScan value (b :: more)

theorem parseCflagsLoop_scan : ∀ (argv : List Bytes) (cflags : List Flag),
    parseCflagsLoop cflags argv = (cflagsScan switchValue argv).reverse ++ cflags
  | [], cflags => rfl
  | [a], cflags => by
    simp only [parseCflagsLoop, cflagsScan, cflagsOfArg, switchValue]
    split_ifs <;> simp_all
  | a :: b :: more, cflags => by
    by_cases switch : (strdupEscapeShell (trimString a)).take 2 = ['-', 'I']
    · have single : ¬(strdupEscapeShell (trimString a) = "-idirafter".toList ∨
          strdupEscapeShell (trimString a) = "-isystem".toList) := by
        rintro (pair | pair) <;> rw [pair] at switch <;> exact absurd switch (by decide)
      simp only [parseCflagsLoop, cflagsScan, cflagsOfArg, switchValue, switch, if_true,
        if_neg single, parseCflagsLoop_scan (b :: more)]
      simp
    · simp only [parseCflagsLoop, cflagsScan, cflagsOfArg, switch, if_false]
      split_ifs <;> simp [parseCflagsLoop_scan]

theorem doParseLibs_scan : ∀ (argv : List Bytes) (listp : List Flag),
    doParseLibs listp argv = (libsScan switchValue argv).reverse ++ listp
  | [], listp => rfl
  | [a], listp => by
    simp only [doParseLibs, libsScan, libsOfArg, switchValue]
    split_ifs <;> simp_all
  | a :: b :: more, listp => by
    by_cases switch : (strdupEscapeShell (trimString a)).take 2 = ['-', 'l'] ∧
        (strdupEscapeShell (trimString a)).take 5 ≠ "-lib:".toList ∨
        (strdupEscapeShell (trimString a)).take 2 = ['-', 'L']
    · have single : ¬(strdupEscapeShell (trimString a) = "-framework".toList ∨
          strdupEscapeShell (trimString a) = "-Wl,-framework".toList) := by
        rintro (pair | pair) <;> rw [pair] at switch <;> exact absurd switch (by decide)
      rcases switch with l | bigL
      · simp only [doParseLibs, libsScan, libsOfArg, switchValue, if_pos l, if_neg single,
          doParseLibs_scan (b :: more)]
        simp
      · have notL : ¬((strdupEscapeShell (trimString a)).take 2 = ['-', 'l'] ∧
            (strdupEscapeShell (trimString a)).take 5 ≠ "-lib:".toList) := by
          rw [bigL]; simp
        simp only [doParseLibs, libsScan, libsOfArg, switchValue, if_neg notL, bigL, if_true,
          if_neg single, doParseLibs_scan (b :: more)]
        simp
    · rw [not_or] at switch
      simp only [doParseLibs, libsScan, libsOfArg, if_neg switch.1, if_neg switch.2]
      split_ifs <;> simp [doParseLibs_scan]

@[simp] theorem strdupEscapeShell_nil : strdupEscapeShell [] = [] := rfl

@[simp] theorem strdupEscapeShell_cons (c : Char) (s : Bytes) :
    strdupEscapeShell (c :: s) =
      (if needsShellEscape c then ['\\', c] else [c]) ++ strdupEscapeShell s := rfl

theorem needsShellEscape_of_isspace {c : Char} (space : isspace c = true) :
    needsShellEscape c = true := by
  simp only [isspace, Bool.or_eq_true, decide_eq_true_eq] at space
  rcases space with ((((rfl | rfl) | rfl) | rfl) | rfl) | rfl <;> rfl

theorem dropWhile_isspace_strdupEscapeShell (s : Bytes) :
    (strdupEscapeShell s).dropWhile isspace = strdupEscapeShell s := by
  cases s with
  | nil => rfl
  | cons c s =>
    by_cases escaped : needsShellEscape c = true
    · simp [escaped, List.dropWhile_cons, isspace]
    · have plain : isspace c = false := by
        cases space : isspace c
        · rfl
        · exact absurd (needsShellEscape_of_isspace space) escaped
      simp [escaped, List.dropWhile_cons, plain]

/-- A switch's value with the whitespace after the switch skipped, escaped. -/
def specSwitchValue (a : Bytes) : Bytes :=
  strdupEscapeShell (((trimString a).drop 2).dropWhile isspace)

/-- The Cflags tokenizer that skips whitespace after `-I`. -/
def specCflagsArgs (argv : List Bytes) : List Flag := cflagsScan specSwitchValue argv

/-- The Libs tokenizer that skips whitespace after `-L` and `-l`. -/
def specLibsArgs (argv : List Bytes) : List Flag := libsScan specSwitchValue argv

theorem strdupEscapeShell_switch_space (x c : Char) (r : Bytes) (letter : needsShellEscape x = false)
    (space : isspace c = true) :
    strdupEscapeShell ('-' :: x :: c :: r) = '-' :: x :: '\\' :: c :: strdupEscapeShell r := by
  have dash : needsShellEscape '-' = false := by decide
  simp [dash, letter, needsShellEscape_of_isspace space]

theorem strdupEscapeShell_ne_escaped_space {d : Bytes} {c : Char} (rest : Bytes)
    (start : ∀ e ∈ d.head?, isspace e = false) (space : isspace c = true) :
    strdupEscapeShell d ≠ '\\' :: c :: rest := by
  cases d with
  | nil => simp
  | cons e d =>
    have plain : isspace e = false := start e rfl
    by_cases escaped : needsShellEscape e = true
    · simp only [strdupEscapeShell_cons, escaped, if_true, List.cons_append, List.cons.injEq]
      intro same
      simp_all
    · simp only [strdupEscapeShell_cons, escaped, Bool.false_eq_true, if_false,
        List.singleton_append, List.cons.injEq]
      intro same
      rw [List.cons.inj same |>.1] at escaped
      exact escaped rfl

theorem head_dropWhile_isspace (s : Bytes) : ∀ e ∈ (s.dropWhile isspace).head?, isspace e = false := by
  intro e mem
  have first := List.head?_dropWhile_not isspace s
  rw [Option.mem_def.1 mem] at first
  exact first

theorem switchValue_space {a r : Bytes} {x c : Char} (letter : needsShellEscape x = false)
    (space : isspace c = true) (trimmed : trimString a = '-' :: x :: c :: r) :
    strdupEscapeShell (trimString a) = '-' :: x :: '\\' :: c :: strdupEscapeShell r ∧
      switchValue a = '\\' :: c :: strdupEscapeShell r ∧ switchValue a ≠ specSwitchValue a := by
  have esc := strdupEscapeShell_switch_space x c r letter space
  rw [← trimmed] at esc
  have code : switchValue a = '\\' :: c :: strdupEscapeShell r := by
    simp [switchValue, esc, isspace]
  refine ⟨esc, code, ?_⟩
  rw [code, specSwitchValue, trimmed]
  exact (strdupEscapeShell_ne_escaped_space _ (head_dropWhile_isspace (c :: r)) space).symm

/-- Whitespace after `-I`, `-L` or `-l` stays, escaped, in the flag's value. -/
theorem tokenizers_space_after_switch (a r : Bytes) (c : Char) (space : isspace c = true) :
    (trimString a = '-' :: 'I' :: c :: r →
      parseCflagsLoop [] [a] = [⟨.cflagsI, '-' :: 'I' :: '\\' :: c :: strdupEscapeShell r⟩] ∧
        (parseCflagsLoop [] [a]).reverse ≠ specCflagsArgs [a]) ∧
    (trimString a = '-' :: 'L' :: c :: r →
      doParseLibs [] [a] = [⟨.libsL, '-' :: 'L' :: '\\' :: c :: strdupEscapeShell r⟩] ∧
        (doParseLibs [] [a]).reverse ≠ specLibsArgs [a]) ∧
    (trimString a = '-' :: 'l' :: c :: r →
      doParseLibs [] [a] = [⟨.libsl, '-' :: 'l' :: '\\' :: c :: strdupEscapeShell r⟩] ∧
        (doParseLibs [] [a]).reverse ≠ specLibsArgs [a]) := by
  refine ⟨fun trimmed => ?_, fun trimmed => ?_, fun trimmed => ?_⟩
  · obtain ⟨esc, code, differ⟩ := switchValue_space (by decide) space trimmed
    have flag : ∀ value, cflagsOfArg value a = [⟨.cflagsI, ['-', 'I'] ++ value a⟩] := fun _ => by
      simp [cflagsOfArg, esc]
    rw [parseCflagsLoop_scan, specCflagsArgs, cflagsScan, cflagsScan, flag, flag]
    exact ⟨by rw [code]; rfl, fun same => differ (by simpa using same)⟩
  · obtain ⟨esc, code, differ⟩ := switchValue_space (by decide) space trimmed
    have flag : ∀ value, libsOfArg value a = [⟨.libsL, ['-', 'L'] ++ value a⟩] := fun _ => by
      simp [libsOfArg, esc]
    rw [doParseLibs_scan, specLibsArgs, libsScan, libsScan, flag, flag]
    exact ⟨by rw [code]; rfl, fun same => differ (by simpa using same)⟩
  · obtain ⟨esc, code, differ⟩ := switchValue_space (by decide) space trimmed
    have flag : ∀ value, libsOfArg value a = [⟨.libsl, ['-', 'l'] ++ value a⟩] := fun _ => by
      simp [libsOfArg, esc]
    rw [doParseLibs_scan, specLibsArgs, libsScan, libsScan, flag, flag]
    exact ⟨by rw [code]; rfl, fun same => differ (by simpa using same)⟩

theorem tokenizers_space_after_switch_include :
    parseCflagsLoop [] ["-I /usr/include".toList] = [⟨.cflagsI, "-I\\ /usr/include".toList⟩] ∧
      (parseCflagsLoop [] ["-I /usr/include".toList]).reverse ≠
        specCflagsArgs ["-I /usr/include".toList] :=
  (tokenizers_space_after_switch "-I /usr/include".toList "/usr/include".toList ' ' rfl).1 (by decide)

theorem strdupEscapeShell_take_two {s : Bytes} {x : Char} (letter : needsShellEscape x = false)
    (switch : (strdupEscapeShell s).take 2 = ['-', x]) : ∃ rest, s = '-' :: x :: rest := by
  rcases s with _ | ⟨c, _ | ⟨d, rest⟩⟩
  · cases switch
  · by_cases escaped : needsShellEscape c = true <;> simp [escaped] at switch
  · refine ⟨rest, ?_⟩
    by_cases escapedC : needsShellEscape c = true
    · simp [escapedC] at switch
    · by_cases escapedD : needsShellEscape d = true
      · simp only [strdupEscapeShell_cons, escapedC, escapedD] at switch
        simp at switch
        obtain ⟨-, rfl⟩ := switch
        exact absurd letter (by decide)
      · simp only [strdupEscapeShell_cons, escapedC, escapedD] at switch
        simp at switch
        rw [switch.1, switch.2]

theorem switchValue_eq_spec {a rest : Bytes} {x : Char} (letter : needsShellEscape x = false)
    (trimmed : trimString a = '-' :: x :: rest) (attached : ∀ d ∈ rest.head?, isspace d = false) :
    switchValue a = specSwitchValue a := by
  have dash : needsShellEscape '-' = false := by decide
  have unspaced : rest.dropWhile isspace = rest := by
    cases rest with
    | nil => rfl
    | cons d rest => exact List.dropWhile_cons_of_neg (by simp [attached d rfl])
  simp only [switchValue, specSwitchValue, trimmed, strdupEscapeShell_cons, dash, letter,
    Bool.false_eq_true, if_false, List.singleton_append, List.drop_succ_cons, List.drop_zero,
    dropWhile_isspace_strdupEscapeShell, unspaced]

theorem cflagsOfArg_congr {value value' : Bytes → Bytes} {a : Bytes}
    (same : (strdupEscapeShell (trimString a)).take 2 = ['-', 'I'] → value a = value' a) :
    cflagsOfArg value a = cflagsOfArg value' a := by
  dsimp only [cflagsOfArg]
  split_ifs with switch
  · rw [same switch]
  all_goals rfl

theorem cflagsScan_congr {value value' : Bytes → Bytes} : ∀ argv : List Bytes,
    (∀ a ∈ argv, (strdupEscapeShell (trimString a)).take 2 = ['-', 'I'] → value a = value' a) →
      cflagsScan value argv = cflagsScan value' argv
  | [], _ => rfl
  | [a], same => cflagsOfArg_congr (same a (List.mem_singleton_self a))
  | a :: b :: more, same => by
    simp only [cflagsScan, cflagsOfArg_congr (same a (List.mem_cons_self a _)),
      cflagsScan_congr more (fun c mem => same c (by simp [mem])),
      cflagsScan_congr (b :: more) (fun c mem => same c (List.mem_cons_of_mem a mem))]

theorem libsOfArg_congr {value value' : Bytes → Bytes} {a : Bytes}
    (same : (strdupEscapeShell (trimString a)).take 2 = ['-', 'l'] ∨
      (strdupEscapeShell (trimString a)).take 2 = ['-', 'L'] → value a = value' a) :
    libsOfArg value a = libsOfArg value' a := by
  dsimp only [libsOfArg]
  split_ifs with l bigL
  · rw [same (.inl l.1)]
  · rw [same (.inr bigL)]
  all_goals rfl

theorem libsScan_congr {value value' : Bytes → Bytes} : ∀ argv : List Bytes,
    (∀ a ∈ argv, (strdupEscapeShell (trimString a)).take 2 = ['-', 'l'] ∨
      (strdupEscapeShell (trimString a)).take 2 = ['-', 'L'] → value a = value' a) →
      libsScan value argv = libsScan value' argv
  | [], _ => rfl
  | [a], same => libsOfArg_congr (same a (List.mem_singleton_self a))
  | a :: b :: more, same => by
    simp only [libsScan, libsOfArg_congr (same a (List.mem_cons_self a _)),
      libsScan_congr more (fun c mem => same c (by simp [mem])),
      libsScan_congr (b :: more) (fun c mem => same c (List.mem_cons_of_mem a mem))]

/-- Is the trimmed argument `-I`, `-L` or `-l` with whitespace right after the switch? -/
def spaceAfterSwitch (a : Bytes) : Bool :=
  match trimString a with
  | '-' :: x :: d :: _ => (x = 'I' || x = 'L' || x = 'l') && isspace d
  | _ => false

/-- Without whitespace after a switch, the tokenizers agree with the whitespace-skipping ones. -/
theorem tokenizers_eq_spec (argv : List Bytes) (attached : ∀ a ∈ argv, spaceAfterSwitch a = false) :
    (parseCflagsLoop [] argv).reverse = specCflagsArgs argv ∧
      (doParseLibs [] argv).reverse = specLibsArgs argv := by
  have agree : ∀ a ∈ argv, ∀ x ∈ ['I', 'L', 'l'],
      (strdupEscapeShell (trimString a)).take 2 = ['-', x] → switchValue a = specSwitchValue a := by
    intro a mem x letter switch
    have plain : needsShellEscape x = false := by
      simp only [List.mem_cons, List.not_mem_nil, or_false] at letter
      rcases letter with rfl | rfl | rfl <;> decide
    obtain ⟨rest, trimmed⟩ := strdupEscapeShell_take_two plain switch
    refine switchValue_eq_spec plain trimmed fun d first => ?_
    obtain ⟨r, rfl⟩ : ∃ r, rest = d :: r := by
      cases rest with
      | nil => cases first
      | cons e r => cases first; exact ⟨r, rfl⟩
    have unspaced := attached a mem
    simp only [spaceAfterSwitch, trimmed] at unspaced
    simp only [List.mem_cons, List.not_mem_nil, or_false] at letter
    rcases letter with rfl | rfl | rfl <;> simpa using unspaced
  rw [parseCflagsLoop_scan, doParseLibs_scan, List.append_nil, List.append_nil,
    List.reverse_reverse, List.reverse_reverse]
  exact ⟨cflagsScan_congr argv fun a mem => agree a mem 'I' (by simp),
    libsScan_congr argv fun a mem switch =>
      switch.elim (agree a mem 'l' (by simp)) (agree a mem 'L' (by simp))⟩

theorem tokenizers_eq_spec_usr :
    (parseCflagsLoop [] ["-I/usr/include".toList, "-isystem".toList, "/opt/include".toList]).reverse =
        specCflagsArgs ["-I/usr/include".toList, "-isystem".toList, "/opt/include".toList] ∧
      (doParseLibs [] ["-I/usr/include".toList, "-isystem".toList, "/opt/include".toList]).reverse =
        specLibsArgs ["-I/usr/include".toList, "-isystem".toList, "/opt/include".toList] :=
  tokenizers_eq_spec _ (by decide)

end PkgConfig
