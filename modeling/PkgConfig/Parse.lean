import PkgConfig.LineReader
import PkgConfig.ModuleList

/-! The descriptor parser of parse.c: variable substitution (`trim_and_sub` over
`package_get_var`), the field setters, the argument tokenizers of Libs and Cflags,
`parse_line` with its prefix relocation, and `parse_package_file`. The global
configuration of parse.c and pkg.c and the one GLib call whose behaviour matters,
`g_shell_parse_argv`, come in as an `Env`. The build is not MSVC: `-L` and `-l` keep
their switches and no `.lib` suffix is added.

`package_get_var` returns a global's own storage uncopied, and both its callers here free
what it returns after appending it: the first use of a global frees the table's storage,
and any later use reads freed memory. The parser therefore runs in `Proc`, whose state is
the set of globals freed so far. In `trim_and_sub` an undefined variable exits in strict
mode and appends nothing (`g_string_append` of NULL) in lax mode; a `${` whose `}` never
comes stops the brace scan on the terminator, and the `++p` past the brace makes the next
`while (*p)` read the byte after it. `parse_line` gets each line as a C string, so it sees
the bytes before the line's first NUL. Relocation under `define_prefix` never reads NULL:
`parse_package_file` always sets `pcfiledir`, and `orig_prefix` is set only together with
the prefix variable. -/

namespace PkgConfig

/-- What the front-end sets before any resolver call, and `g_shell_parse_argv`. -/
structure Env where
  parseStrict : Bool
  definePrefix : Bool
  prefixVariable : Bytes
  globals : Table Bytes
  shellParseArgv : Bytes → Option (List Bytes)

/-- What `package_get_var` returns: the global table's own storage, or a `g_strdup` copy. -/
inductive VarValue
  | global (value : Bytes)
  | copy (value : Bytes)
  deriving DecidableEq, Repr

/-- The bytes a returned value points to. -/
def VarValue.bytes : VarValue → Bytes
  | .global value | .copy value => value

/-- `package_get_var`: a global, else a variable of the package, else the magic `pcfiledir`. -/
def packageGetVar (globals : Table Bytes) (pkg : Package) (var : Bytes) : Option VarValue :=
  match globals.lookup var with
  | some value => some (.global value)
  | none =>
    match pkg.vars.lookup var with
    | some value => some (.copy value)
    | none => if var = "pcfiledir".toList then pkg.pcfiledir.map .copy else none

theorem packageGetVar_global_iff {globals : Table Bytes} {pkg : Package} {var value : Bytes} :
    packageGetVar globals pkg var = some (.global value) ↔ globals.lookup var = some value := by
  unfold packageGetVar
  split
  · simp_all
  · split
    · simp_all
    · split_ifs <;> cases pkg.pcfiledir <;> simp_all

/-- `define_global_variable`: a second definition of a global exits. -/
def defineGlobalVariable (globals : Table Bytes) (varname varval : Bytes) :
    Except Fatal (Table Bytes) :=
  match globals.lookup varname with
  | some _ => throw (.globalTwice varname)
  | none => pure (globals.insert varname varval)

/-- `g_string_append` of a value `package_get_var` returned, then `g_free` of it. -/
def readThenFree (var : Bytes) : VarValue → Proc Bytes
  | .copy value => pure value
  | .global value => do
    if var ∈ (← get) then throw (.useAfterFree var)
    modify (var :: ·)
    pure value

@[simp] theorem readThenFree_copy (var value : Bytes) : readThenFree var (.copy value) = pure value :=
  rfl

@[simp] theorem readThenFree_global_run (var value : Bytes) (freed : List Bytes) :
    (readThenFree var (.global value)).run freed =
      if var ∈ freed then .error (.useAfterFree var) else .ok (value, var :: freed) := by
  by_cases used : var ∈ freed <;> simp [readThenFree, used]

theorem readThenFree_local {globals : Table Bytes} {pkg : Package} {var : Bytes} {varval : VarValue}
    (undefined : globals.lookup var = none) (found : packageGetVar globals pkg var = some varval) :
    readThenFree var varval = pure varval.bytes := by
  cases varval with
  | copy value => rfl
  | global value => simp [packageGetVar_global_iff.1 found] at undefined

/-- The loop of `packages_get_var`: each value found is appended with a space, then freed. -/
def packagesGetVarLoop (globals : Table Bytes) (varname str : Bytes) : List Package → Proc Bytes
  | [] => pure str
  | pkg :: rest =>
    match packageGetVar globals pkg varname with
    | some var => do
      let value ← readThenFree varname var
      packagesGetVarLoop globals varname (str ++ value ++ [' ']) rest
    | none => packagesGetVarLoop globals varname str rest

/-- `packages_get_var`: the loop, then the last byte chopped (before an empty buffer). -/
def packagesGetVar (globals : Table Bytes) (pkgs : List Package) (varname : Bytes) : Proc Bytes := do
  let str ← packagesGetVarLoop globals varname [] pkgs
  if str = [] then throw .outOfBoundsWrite else pure str.dropLast

theorem dropLast_flatMap_space {vals : List Bytes} (nonempty : vals ≠ []) :
    (vals.flatMap (· ++ [' '])).dropLast = [' '].intercalate vals := by
  induction vals with
  | nil => contradiction
  | cons v rest ih =>
    cases rest with
    | nil => simp [List.intercalate]
    | cons w rest =>
      have tail : (w :: rest).flatMap (· ++ [' ']) ≠ [] := by simp
      rw [List.flatMap_cons, List.dropLast_append_of_ne_nil _ tail, ih (List.cons_ne_nil _ _)]
      simp [List.intercalate]

section GetVar

variable {globals : Table Bytes} {varname : Bytes}

theorem packagesGetVarLoop_local (undefined : globals.lookup varname = none) (freed : List Bytes) :
    ∀ (pkgs : List Package) (str : Bytes), (packagesGetVarLoop globals varname str pkgs).run freed =
      .ok (str ++ (pkgs.filterMap fun pkg =>
        (packageGetVar globals pkg varname).map VarValue.bytes).flatMap (· ++ [' ']), freed)
  | [], str => by simp [packagesGetVarLoop]
  | pkg :: rest, str => by
    rw [packagesGetVarLoop]
    split
    · next var found =>
      rw [readThenFree_local undefined found, pure_bind, packagesGetVarLoop_local undefined freed rest]
      simp [found]
    · next found =>
      rw [packagesGetVarLoop_local undefined freed rest]
      simp [found]

theorem packagesGetVarLoop_global {value : Bytes} (defined : globals.lookup varname = some value)
    (str : Bytes) (pkg : Package) (rest : List Package) (freed : List Bytes) :
    (packagesGetVarLoop globals varname str (pkg :: rest)).run freed =
      if varname ∈ freed ∨ rest.length ≠ 0 then .error (.useAfterFree varname)
      else .ok (str ++ value ++ [' '], varname :: freed) := by
  have global : ∀ pkg, packageGetVar globals pkg varname = some (.global value) :=
    fun _ => packageGetVar_global_iff.2 defined
  rw [packagesGetVarLoop, global, StateT.run_bind, readThenFree_global_run]
  by_cases used : varname ∈ freed
  · simp [used]
  · rw [if_neg used, except_ok_bind]
    cases rest with
    | nil => simp [used, packagesGetVarLoop]
    | cons next rest => simp [packagesGetVarLoop, global]

end GetVar

/-- The closed form of `packages_get_var`, from every set of freed globals. -/
theorem packagesGetVar_eq (globals : Table Bytes) (pkgs : List Package) (varname : Bytes)
    (freed : List Bytes) :
    (packagesGetVar globals pkgs varname).run freed =
      match globals.lookup varname with
      | some value =>
        if pkgs.isEmpty then .error .outOfBoundsWrite
        else if varname ∈ freed ∨ 1 < pkgs.length then .error (.useAfterFree varname)
        else .ok (value, varname :: freed)
      | none =>
        if ∀ pkg ∈ pkgs, packageGetVar globals pkg varname = none then .error .outOfBoundsWrite
        else .ok ([' '].intercalate (pkgs.filterMap fun pkg =>
          (packageGetVar globals pkg varname).map VarValue.bytes), freed) := by
  rw [packagesGetVar, StateT.run_bind]
  cases defined : globals.lookup varname with
  | some value =>
    dsimp only
    cases pkgs with
    | nil => rfl
    | cons pkg rest =>
      have more : 1 < (pkg :: rest).length ↔ rest.length ≠ 0 := by
        simp only [List.length_cons]
        omega
      simp only [packagesGetVarLoop_global defined, more, List.isEmpty_cons, Bool.false_eq_true,
        if_false]
      split_ifs <;> simp
  | none =>
    dsimp only
    rw [packagesGetVarLoop_local defined, except_ok_bind, List.nil_append]
    by_cases undefined : ∀ pkg ∈ pkgs, packageGetVar globals pkg varname = none
    · have empty : (pkgs.filterMap fun pkg =>
          (packageGetVar globals pkg varname).map VarValue.bytes) = [] :=
        List.filterMap_eq_nil_iff.2 fun pkg mem => by simp [undefined pkg mem]
      rw [if_pos undefined, empty]
      rfl
    · have values : (pkgs.filterMap fun pkg =>
          (packageGetVar globals pkg varname).map VarValue.bytes) ≠ [] := by
        simpa [List.filterMap_eq_nil_iff] using undefined
      obtain ⟨v, vs, eq⟩ := List.exists_cons_of_ne_nil values
      rw [if_neg undefined, ← dropLast_flatMap_space values, eq]
      simp

/-- The end of a `${name}` in `trim_and_sub`: look the name up, append and free its value. -/
def substituteVariable (env : Env) (pkg : Package) (path varname subst : Bytes) : Proc Bytes :=
  match packageGetVar env.globals pkg varname with
  | some varval => return subst ++ (← readThenFree varname varval)
  | none => if env.parseStrict then throw (.undefinedVariable varname path) else pure subst

/-- The loop of `trim_and_sub`; `varname` is the name read so far after `${`. -/
def trimAndSubLoop (env : Env) (pkg : Package) (path : Bytes) :
    Option Bytes → Bytes → List Char → Proc Bytes
  | some varname, subst, [] => do
    let _ ← substituteVariable env pkg path varname subst
    throw .readPastEnd
  | none, subst, [] => pure subst
  | some varname, subst, '}' :: rest => do
    trimAndSubLoop env pkg path none (← substituteVariable env pkg path varname subst) rest
  | some varname, subst, c :: rest => trimAndSubLoop env pkg path (some (varname ++ [c])) subst rest
  | none, subst, '$' :: '$' :: rest => trimAndSubLoop env pkg path none (subst ++ ['$']) rest
  | none, subst, '$' :: '{' :: rest => trimAndSubLoop env pkg path (some []) subst rest
  | none, subst, c :: rest => trimAndSubLoop env pkg path none (subst ++ [c]) rest

/-- `trim_and_sub`. -/
def trimAndSub (env : Env) (pkg : Package) (str path : Bytes) : Proc Bytes :=
  trimAndSubLoop env pkg path none [] (trimString str)

theorem trimAndSubLoop_plain {env : Env} {pkg : Package} {path subst pre : Bytes}
    (rest : List Char) (plain : '$' ∉ pre) :
    trimAndSubLoop env pkg path none subst (pre ++ rest) =
      trimAndSubLoop env pkg path none (subst ++ pre) rest := by
  induction pre generalizing subst with
  | nil => simp
  | cons c pre ih =>
    have ne : c ≠ '$' := fun h => plain (h ▸ List.mem_cons_self _ _)
    rw [List.cons_append, trimAndSubLoop, ih (fun h => plain (List.mem_cons_of_mem _ h)),
      List.append_assoc, List.singleton_append]
    all_goals simp [ne]

theorem trimAndSubLoop_name {env : Env} {pkg : Package} {path subst varname name : Bytes}
    (rest : List Char) (unclosed : '}' ∉ name) :
    trimAndSubLoop env pkg path (some varname) subst (name ++ rest) =
      trimAndSubLoop env pkg path (some (varname ++ name)) subst rest := by
  induction name generalizing varname with
  | nil => simp
  | cons c name ih =>
    have ne : c ≠ '}' := fun h => unclosed (h ▸ List.mem_cons_self _ _)
    rw [List.cons_append, trimAndSubLoop, ih (fun h => unclosed (List.mem_cons_of_mem _ h)),
      List.append_assoc, List.singleton_append]
    all_goals simp [ne]

/-- A reference whose `}` never comes reads past the end of the trimmed value. -/
theorem trimAndSub_unclosed_reference (env : Env) (pkg : Package) (pre name path : Bytes)
    (freed : List Bytes) (plain : '$' ∉ pre) (unclosed : '}' ∉ name)
    (trimmed : trimString (pre ++ '$' :: '{' :: name) = pre ++ '$' :: '{' :: name)
    (reached : env.parseStrict = false ∨ packageGetVar env.globals pkg name ≠ none) :
    (trimAndSub env pkg (pre ++ '$' :: '{' :: name) path).run freed =
      .error (if (env.globals.lookup name).isSome ∧ name ∈ freed then .useAfterFree name
        else .readPastEnd) := by
  rw [trimAndSub, trimmed, trimAndSubLoop_plain _ plain, trimAndSubLoop,
    ← List.append_nil name, trimAndSubLoop_name _ unclosed, trimAndSubLoop, List.nil_append,
    substituteVariable]
  cases defined : env.globals.lookup name with
  | some value =>
    rw [packageGetVar_global_iff.2 defined]
    by_cases used : name ∈ freed <;> simp [defined, used]
  | none =>
    cases found : packageGetVar env.globals pkg name with
    | none => simp [defined, reached.resolve_right (· found)]
    | some varval => simp [defined, readThenFree_local defined found]

theorem trimAndSub_unclosed_libdir :
    (trimAndSub ⟨true, false, "prefix".toList, [], fun _ => none⟩
      { Package.new0 0 with vars := [("libdir".toList, "/usr/lib".toList)] }
      "-L$\x7blibdir".toList []).run [] = .error .readPastEnd :=
  trimAndSub_unclosed_reference _ _ "-L".toList "libdir".toList [] [] (by decide) (by decide)
    (by decide) (.inr (by decide))

/-- The setters `parse_name`, `parse_version`, `parse_description` and `parse_url`. -/
def parseStringField (field : Bytes) (get : Package → Option Bytes)
    (set : Package → Bytes → Package) (env : Env) (pkg : Package) (str path : Bytes) :
    Proc Package :=
  match get pkg with
  | some _ => if env.parseStrict then throw (.fieldTwice field path) else pure pkg
  | none => return set pkg (← trimAndSub env pkg str path)

/-- `parse_name`. -/
def parseName : Env → Package → Bytes → Bytes → Proc Package :=
  parseStringField "Name".toList Package.name (fun pkg v => { pkg with name := some v })

/-- `parse_version`. -/
def parseVersion : Env → Package → Bytes → Bytes → Proc Package :=
  parseStringField "Version".toList Package.version (fun pkg v => { pkg with version := some v })

/-- `parse_description`. -/
def parseDescription : Env → Package → Bytes → Bytes → Proc Package :=
  parseStringField "Description".toList Package.description
    (fun pkg v => { pkg with description := some v })

/-- `parse_url`. -/
def parseUrl : Env → Package → Bytes → Bytes → Proc Package :=
  parseStringField "URL".toList Package.url (fun pkg v => { pkg with url := some v })

/-- `parse_deps`: substitute, then add the modules to the list `listp`. -/
def parseDeps (env : Env) (pkg : Package) (listp : List RequiredVersion) (str path : Bytes) :
    Proc (List RequiredVersion) := do
  doParseModuleList env.parseStrict listp (← trimAndSub env pkg str path) path

/-- The bytes `strdup_escape_shell` prefixes with a backslash. -/
def needsShellEscape (c : Char) : Bool :=
  c < '$' || ('$' < c && c < '(') || (')' < c && c < '+') || (':' < c && c < '=') ||
    ('=' < c && c < '@') || ('Z' < c && c < '^') || c = '\x60' || ('z' < c && c < '~') ||
    '~' < c

/-- `strdup_escape_shell`. -/
def strdupEscapeShell (s : Bytes) : Bytes :=
  s.flatMap fun c => if needsShellEscape c then ['\\', c] else [c]

/-- The loop of `do_parse_libs` from `argv[i]` on, prepending to `listp`. -/
def doParseLibs (listp : List Flag) : List Bytes → List Flag
  | [] => listp
  | a :: rest =>
    let arg := strdupEscapeShell (trimString a)
    if arg.take 2 = ['-', 'l'] ∧ arg.take 5 ≠ "-lib:".toList then
      doParseLibs (⟨.libsl, ['-', 'l'] ++ (arg.drop 2).dropWhile isspace⟩ :: listp) rest
    else if arg.take 2 = ['-', 'L'] then
      doParseLibs (⟨.libsL, ['-', 'L'] ++ (arg.drop 2).dropWhile isspace⟩ :: listp) rest
    else
      match rest with
      | b :: rest' =>
        if arg = "-framework".toList ∨ arg = "-Wl,-framework".toList then
          doParseLibs (⟨.libsOther, arg ++ ' ' :: strdupEscapeShell (trimString b)⟩ :: listp) rest'
        else if arg ≠ [] then doParseLibs (⟨.libsOther, arg⟩ :: listp) (b :: rest')
        else doParseLibs listp (b :: rest')
      | [] => if arg ≠ [] then ⟨.libsOther, arg⟩ :: listp else listp

/-- `parse_libs` onto the list `listp` (`Libs` or `Libs.private`). -/
def parseLibs (env : Env) (pkg : Package) (listp : List Flag) (field str path : Bytes) :
    Proc (List Flag) := do
  let trimmed ← trimAndSub env pkg str path
  if trimmed = [] then pure (doParseLibs listp [])
  else match env.shellParseArgv trimmed with
    | some argv => pure (doParseLibs listp argv)
    | none => if env.parseStrict then throw (.argvParse field) else pure listp

/-- The loop of `parse_cflags` from `argv[i]` on, prepending to `cflags`. -/
def parseCflagsLoop (cflags : List Flag) : List Bytes → List Flag
  | [] => cflags
  | a :: rest =>
    let arg := strdupEscapeShell (trimString a)
    if arg.take 2 = ['-', 'I'] then
      parseCflagsLoop (⟨.cflagsI, ['-', 'I'] ++ (arg.drop 2).dropWhile isspace⟩ :: cflags) rest
    else
      match rest with
      | b :: rest' =>
        if arg = "-idirafter".toList ∨ arg = "-isystem".toList then
          parseCflagsLoop (⟨.cflagsI, arg ++ ' ' :: strdupEscapeShell (trimString b)⟩ :: cflags) rest'
        else if arg ≠ [] then parseCflagsLoop (⟨.cflagsOther, arg⟩ :: cflags) (b :: rest')
        else parseCflagsLoop cflags (b :: rest')
      | [] => if arg ≠ [] then ⟨.cflagsOther, arg⟩ :: cflags else cflags

/-- `parse_cflags`: a second field is refused only once `pkg->cflags` is not NULL. -/
def parseCflags (env : Env) (pkg : Package) (str path : Bytes) : Proc Package := do
  if pkg.cflags ≠ [] then
    if env.parseStrict then throw (.fieldTwice "Cflags".toList path) else return pkg
  let trimmed ← trimAndSub env pkg str path
  if trimmed = [] then pure { pkg with cflags := parseCflagsLoop pkg.cflags [] }
  else match env.shellParseArgv trimmed with
    | some argv => pure { pkg with cflags := parseCflagsLoop pkg.cflags argv }
    | none => if env.parseStrict then throw (.argvParse "Cflags".toList) else pure pkg

/-- The bytes of the leading identifier of a line: `[A-Za-z0-9_.]`. -/
def isTagChar (c : Char) : Bool := c.isAlphanum || c = '_' || c = '.'

/-- The end of a variable assignment in `parse_line`. -/
def defineVariable (env : Env) (pkg : Package) (tag value path : Bytes) :
    Proc Package :=
  match pkg.vars.lookup tag with
  | some _ => if env.parseStrict then throw (.duplicateVariable tag path) else pure pkg
  | none => return { pkg with vars := pkg.vars.insert tag (← trimAndSub env pkg value path) }

/-- The value `define_prefix` gives the prefix variable: `pcfiledir`'s grandparent. -/
def relocatedPrefix (pcfiledir : Bytes) : Bytes :=
  strdupEscapeShell ((gPathGetDirname (gPathGetDirname pcfiledir)).map
    fun c => if c = '\\' then '/' else c)

/-- The variable branch of `parse_line`, on the value `p` after `=`. -/
def parseVariable (env : Env) (pkg : Package) (tag p path : Bytes) : Proc Package :=
  let pcfiledir := pkg.pcfiledir.getD []
  if env.definePrefix ∧ tag = env.prefixVariable then
    if gAsciiStrcaseeq (gPathGetBasename pcfiledir) "pkgconfig".toList then
      pure { pkg with origPrefix := some p, vars := pkg.vars.insert tag (relocatedPrefix pcfiledir) }
    else defineVariable env pkg tag p path
  else
    match pkg.origPrefix with
    | some orig =>
      if env.definePrefix ∧ orig ≠ [] ∧ orig <+: p ∧ (p.drop orig.length).head? = some '/' then
        defineVariable env pkg tag
          ((pkg.vars.lookup env.prefixVariable).getD [] ++ p.drop orig.length) path
      else defineVariable env pkg tag p path
    | none => defineVariable env pkg tag p path

/-- The field dispatch of `parse_line`, on the value `p` after `:`. -/
def parseField (env : Env) (pkg : Package) (tag p path : Bytes) : Proc Package :=
  if tag = "Name".toList then parseName env pkg p path
  else if tag = "Description".toList then parseDescription env pkg p path
  else if tag = "Version".toList then parseVersion env pkg p path
  else if tag = "Requires.private".toList then do
    return { pkg with requiresPrivateEntries := ← parseDeps env pkg pkg.requiresPrivateEntries p path }
  else if tag = "Requires".toList then do
    return { pkg with requiresEntries := ← parseDeps env pkg pkg.requiresEntries p path }
  else if tag = "Libs.private".toList then do
    return { pkg with libsPrivate := ← parseLibs env pkg pkg.libsPrivate "Libs.private".toList p path }
  else if tag = "Libs".toList then do
    return { pkg with libs := ← parseLibs env pkg pkg.libs "Libs".toList p path }
  else if tag = "Cflags".toList ∨ tag = "CFlags".toList then parseCflags env pkg p path
  else if tag = "Conflicts".toList then do
    return { pkg with conflicts := ← parseDeps env pkg pkg.conflicts p path }
  else if tag = "URL".toList then parseUrl env pkg p path
  else pure pkg

/-- `parse_line`: a field after `:`, a variable after `=`, anything else ignored. -/
def parseLine (env : Env) (pkg : Package) (untrimmed path : Bytes) : Proc Package :=
  let str := trimString untrimmed
  let tag := str.takeWhile isTagChar
  match (str.dropWhile isTagChar).dropWhile isspace with
  | ':' :: p => parseField env pkg tag (p.dropWhile isspace) path
  | '=' :: p => parseVariable env pkg tag (p.dropWhile isspace) path
  | _ => pure pkg

/-- The loop of `parse_package_file`: `parse_line` on each line read, as a C string. -/
def parseLines (env : Env) (path : Bytes) : Package → List Bytes → Proc Package
  | pkg, [] => pure pkg
  | pkg, line :: rest => do parseLines env path (← parseLine env pkg (cString line) path) rest

/-- `parse_package_file`; `contents` is `none` when `fopen` fails. -/
def parsePackageFile (env : Env) (id : Nat) (key path : Bytes) (contents : Option (List Char)) :
    Proc (Option Package) :=
  match contents with
  | none => pure none
  | some stream => do
    let pcfiledir := gPathGetDirname path
    let pkg := { Package.new0 id with
      key := key, pcfiledir := some pcfiledir, vars := [("pcfiledir".toList, pcfiledir)] }
    let pkg ← parseLines env path pkg (readAllLines stream)
    pure (some { pkg with
      requiresEntries := pkg.requiresEntries.reverse
      requiresPrivateEntries := pkg.requiresPrivateEntries.reverse
      conflicts := pkg.conflicts.reverse
      cflags := pkg.cflags.reverse
      libs := pkg.libs.reverse
      libsPrivate := pkg.libsPrivate.reverse })

section Frame

/-! Nothing in parse.c writes `requires`, `required_versions`, `l_libs`, `L_libs`,
`I_cflags` or the merged caches: every setter leaves `Package.links` as it found it. -/

variable {env : Env} {pkg pkg' : Package} {path : Bytes}

/-- A parse step that returns `pkg` with its `links` as they were. -/
def KeepsLinks (pkg : Package) : Proc Package → Prop := Returns fun pkg' => pkg'.links = pkg.links

theorem keepsLinks_set {α : Type} {x : Proc α} {g : α → Package}
    (same : ∀ a, (g a).links = pkg.links) : KeepsLinks pkg (x >>= fun a => pure (g a)) :=
  returns_bind fun a => returns_pure (same a)

theorem parseStringField_links {field : Bytes} {get : Package → Option Bytes}
    {set : Package → Bytes → Package} {str : Bytes} (same : ∀ pkg v, (set pkg v).links = pkg.links) :
    KeepsLinks pkg (parseStringField field get set env pkg str path) := by
  unfold parseStringField
  split
  · exact returns_refuse rfl
  · exact keepsLinks_set (same pkg)

theorem parseCflags_links {str : Bytes} : KeepsLinks pkg (parseCflags env pkg str path) := by
  unfold parseCflags
  refine returns_ite (fun _ => returns_refuse rfl) fun _ => returns_bind fun _ =>
    returns_bind fun trimmed => returns_ite (fun _ => returns_pure rfl) fun _ => ?_
  split
  · exact returns_pure rfl
  · exact returns_refuse rfl

theorem defineVariable_links {tag value : Bytes} :
    KeepsLinks pkg (defineVariable env pkg tag value path) := by
  unfold defineVariable
  split
  · exact returns_refuse rfl
  · exact keepsLinks_set fun _ => rfl

theorem parseVariable_links {tag p : Bytes} : KeepsLinks pkg (parseVariable env pkg tag p path) := by
  unfold parseVariable
  refine returns_ite (fun _ => returns_ite (fun _ => returns_pure rfl) fun _ => defineVariable_links)
    fun _ => ?_
  split
  · exact returns_ite (fun _ => defineVariable_links) fun _ => defineVariable_links
  · exact defineVariable_links

theorem parseField_links {tag p : Bytes} : KeepsLinks pkg (parseField env pkg tag p path) := by
  unfold parseField
  repeat' first
    | exact parseStringField_links fun _ _ => rfl
    | exact parseCflags_links
    | exact keepsLinks_set fun _ => rfl
    | exact returns_pure rfl
    | refine returns_ite (fun _ => ?_) fun _ => ?_

theorem parseLine_links {line : Bytes} : KeepsLinks pkg (parseLine env pkg line path) := by
  unfold parseLine
  dsimp only
  split
  · exact parseField_links
  · exact parseVariable_links
  · exact returns_pure rfl

theorem parseLines_links (lines : List Bytes) :
    ∀ {pkg : Package}, KeepsLinks pkg (parseLines env path pkg lines) := by
  induction lines with
  | nil => exact returns_pure rfl
  | cons line rest ih =>
    intro pkg
    exact returns_bind_of parseLine_links fun mid same s a s' h => (ih s a s' h).trans same

theorem parsePackageFile_links {id : Nat} {key : Bytes} {contents : Option (List Char)}
    {freed freed' : List Bytes}
    (h : (parsePackageFile env id key path contents).run freed = .ok (some pkg, freed')) :
    pkg.links = (Package.new0 id).links := by
  unfold parsePackageFile at h
  split at h
  · cases h
  · obtain ⟨parsed, s, lines, done⟩ := Proc.run_bind_eq_ok.mp h
    cases done
    exact (parseLines_links _ _ _ _ lines :)

end Frame

/-- A strict parser with `define_prefix` on `prefix`, splitting arguments at spaces. -/
def relocatingEnv : Env :=
  ⟨true, true, "prefix".toList, [], fun s => some ((s.splitOn ' ').filter (· ≠ []))⟩

/-- Two `prefix` assignments, an empty `Cflags` field and a second, non-empty one. -/
def repeatedFields : List Char := "prefix=/usr\nprefix=/opt\nCflags:\nCflags: -I/x\n".toList

/-- Repeated `prefix` and `Cflags` lines are accepted in strict mode. -/
theorem parsePackageFile_repeats_accepted (freed : List Bytes) :
    (parsePackageFile relocatingEnv 0 "p".toList "/usr/lib/pkgconfig/p.pc".toList
        (some repeatedFields)).run freed =
      .ok (some { Package.new0 0 with
        key := "p".toList, pcfiledir := some "/usr/lib/pkgconfig".toList
        vars := [("prefix".toList, "/usr".toList), ("prefix".toList, "/usr".toList),
          ("pcfiledir".toList, "/usr/lib/pkgconfig".toList)]
        origPrefix := some "/opt".toList
        cflags := [⟨.cflagsI, "-I/x".toList⟩] }, freed) := by
  have lines : readAllLines repeatedFields =
      ["prefix=/usr".toList, "prefix=/opt".toList, "Cflags:".toList, "Cflags: -I/x".toList] := by
    decide
  simp only [parsePackageFile, lines]
  rfl

end PkgConfig
