import PkgConfig.Flags

/-! The six lists that `parse_package_file` fills line by line: what each field line
contributes, and the run invariant that relates the lists to the lines read so far. -/

namespace PkgConfig

/-- The six lists `parse_package_file` builds by prepending. -/
structure FieldLists where
  requiresEntries : List RequiredVersion
  requiresPrivateEntries : List RequiredVersion
  conflicts : List RequiredVersion
  cflags : List Flag
  libs : List Flag
  libsPrivate : List Flag

/-- The six lists of a package. -/
def Package.fieldLists (pkg : Package) : FieldLists :=
  ⟨pkg.requiresEntries, pkg.requiresPrivateEntries, pkg.conflicts, pkg.cflags, pkg.libs,
    pkg.libsPrivate⟩

/-- No items. -/
def FieldLists.empty : FieldLists := ⟨[], [], [], [], [], []⟩

/-- Each list followed by the other's. -/
def FieldLists.append (a b : FieldLists) : FieldLists :=
  ⟨a.requiresEntries ++ b.requiresEntries, a.requiresPrivateEntries ++ b.requiresPrivateEntries,
    a.conflicts ++ b.conflicts, a.cflags ++ b.cflags, a.libs ++ b.libs,
    a.libsPrivate ++ b.libsPrivate⟩

instance : Append FieldLists := ⟨FieldLists.append⟩

theorem FieldLists.append_def (a b : FieldLists) : a ++ b = a.append b := rfl

/-- Each list reversed. -/
def FieldLists.reverse (l : FieldLists) : FieldLists :=
  ⟨l.requiresEntries.reverse, l.requiresPrivateEntries.reverse, l.conflicts.reverse,
    l.cflags.reverse, l.libs.reverse, l.libsPrivate.reverse⟩

@[simp] theorem FieldLists.reverse_empty : FieldLists.empty.reverse = FieldLists.empty := rfl

@[simp] theorem FieldLists.empty_append (l : FieldLists) : FieldLists.empty ++ l = l := by
  cases l; rfl

@[simp] theorem FieldLists.append_empty (l : FieldLists) : l ++ FieldLists.empty = l := by
  cases l; simp [FieldLists.append_def, FieldLists.append, FieldLists.empty]

theorem FieldLists.reverse_append (a b : FieldLists) : (a ++ b).reverse = b.reverse ++ a.reverse := by
  cases a; cases b; simp [FieldLists.append_def, FieldLists.append, FieldLists.reverse]

theorem FieldLists.append_assoc (a b c : FieldLists) : a ++ b ++ c = a ++ (b ++ c) := by
  cases a; cases b; cases c; simp [FieldLists.append_def, FieldLists.append]

@[simp] theorem FieldLists.reverse_reverse (l : FieldLists) : l.reverse.reverse = l := by
  cases l; simp [FieldLists.reverse]

/-- The entries of a Requires or Conflicts value, in textual order. -/
def moduleItems (env : Env) (pkg : Package) (str path : Bytes) (freed : List Bytes) :
    List RequiredVersion :=
  match (trimAndSub env pkg str path).run freed with
  | .ok (trimmed, _) =>
    match splitModuleList trimmed >>= List.mapM (parseModuleEntry env.parseStrict path) with
    | .ok vers => vers
    | .error _ => []
  | .error _ => []

/-- The flags of a Libs or Cflags value read by `scan`, in textual order. -/
def flagItems (scan : List Bytes → List Flag) (env : Env) (pkg : Package) (str path : Bytes)
    (freed : List Bytes) : List Flag :=
  match (trimAndSub env pkg str path).run freed with
  | .ok (trimmed, _) =>
    if trimmed = [] then [] else
      match env.shellParseArgv trimmed with
      | some argv => scan argv
      | none => []
  | .error _ => []

/-- What a field line adds to the six lists, in textual order. -/
def fieldItems (env : Env) (pkg : Package) (tag p path : Bytes) (freed : List Bytes) : FieldLists :=
  if tag = "Requires.private".toList then
    { FieldLists.empty with requiresPrivateEntries := moduleItems env pkg p path freed }
  else if tag = "Requires".toList then
    { FieldLists.empty with requiresEntries := moduleItems env pkg p path freed }
  else if tag = "Libs.private".toList then
    { FieldLists.empty with libsPrivate := flagItems (libsScan switchValue) env pkg p path freed }
  else if tag = "Libs".toList then
    { FieldLists.empty with libs := flagItems (libsScan switchValue) env pkg p path freed }
  else if (tag = "Cflags".toList ∨ tag = "CFlags".toList) ∧ pkg.cflags = [] then
    { FieldLists.empty with cflags := flagItems (cflagsScan switchValue) env pkg p path freed }
  else if tag = "Conflicts".toList then
    { FieldLists.empty with conflicts := moduleItems env pkg p path freed }
  else FieldLists.empty

/-- What a line adds to the six lists, in textual order: only field lines add. -/
def lineItems (env : Env) (pkg : Package) (line path : Bytes) (freed : List Bytes) : FieldLists :=
  let str := trimString line
  match (str.dropWhile isTagChar).dropWhile isspace with
  | ':' :: p => fieldItems env pkg (str.takeWhile isTagChar) (p.dropWhile isspace) path freed
  | _ => FieldLists.empty

/-- What the lines add, in file order, along the run of `parse_line` over them. -/
def linesItems (env : Env) (path : Bytes) : Package → List Bytes → List Bytes → FieldLists
  | _, [], _ => FieldLists.empty
  | pkg, line :: rest, freed =>
    match (parseLine env pkg (cString line) path).run freed with
    | .ok (pkg', freed') =>
      lineItems env pkg (cString line) path freed ++ linesItems env path pkg' rest freed'
    | .error _ => FieldLists.empty

section Items

variable {env : Env} {pkg pkg' : Package} {path : Bytes} {freed freed' : List Bytes}

theorem parseDeps_items {listp l : List RequiredVersion} {str : Bytes}
    (h : (parseDeps env pkg listp str path).run freed = .ok (l, freed')) :
    l = (moduleItems env pkg str path freed).reverse ++ listp := by
  obtain ⟨trimmed, s, sub, h⟩ := Proc.run_bind_eq_ok.mp h
  obtain ⟨h, -⟩ := Proc.run_lift_eq_ok.mp h
  obtain ⟨modules, split, h⟩ := bind_eq_ok.mp h
  rw [doParseModuleListLoop_mapM] at h
  cases entries : modules.mapM (parseModuleEntry env.parseStrict path) with
  | error e => rw [entries] at h; cases h
  | ok vers =>
    rw [entries] at h
    cases h
    simp only [moduleItems, sub, split, entries, except_ok_bind]

theorem parseLibs_items {listp l : List Flag} {field str : Bytes}
    (h : (parseLibs env pkg listp field str path).run freed = .ok (l, freed')) :
    l = (flagItems (libsScan switchValue) env pkg str path freed).reverse ++ listp := by
  obtain ⟨trimmed, s, sub, h⟩ := Proc.run_bind_eq_ok.mp h
  simp only [flagItems, sub]
  by_cases empty : trimmed = []
  · rw [if_pos empty] at h ⊢
    exact (Proc.run_pure_eq_ok.mp h).1.symm
  · rw [if_neg empty] at h ⊢
    cases parsed : env.shellParseArgv trimmed with
    | some argv =>
      simp only [parsed, Proc.run_pure_eq_ok] at h
      rw [← h.1]
      exact doParseLibs_scan argv listp
    | none =>
      simp only [parsed] at h
      split_ifs at h
      · simp at h
      · exact (Proc.run_pure_eq_ok.mp h).1.symm

theorem parseCflags_items {str : Bytes} (h : (parseCflags env pkg str path).run freed = .ok (pkg', freed')) :
    pkg' = { pkg with cflags :=
      (if pkg.cflags = [] then flagItems (cflagsScan switchValue) env pkg str path freed else []).reverse ++
        pkg.cflags } := by
  unfold parseCflags at h
  dsimp only at h
  by_cases given : pkg.cflags = []
  · rw [if_neg (not_not.mpr given), pure_bind] at h
    obtain ⟨trimmed, s, sub, h⟩ := Proc.run_bind_eq_ok.mp h
    simp only [if_pos given, flagItems, sub]
    by_cases empty : trimmed = []
    · rw [if_pos empty] at h ⊢
      exact (Proc.run_pure_eq_ok.mp h).1.symm
    · rw [if_neg empty] at h ⊢
      cases parsed : env.shellParseArgv trimmed with
      | some argv =>
        simp only [parsed, Proc.run_pure_eq_ok] at h
        rw [← h.1, parseCflagsLoop_scan]
      | none =>
        simp only [parsed] at h
        split_ifs at h
        · simp at h
        · rw [← (Proc.run_pure_eq_ok.mp h).1]
          cases pkg
          rfl
  · rw [if_pos given] at h
    split_ifs at h
    · simp at h
    · rw [← (Proc.run_pure_eq_ok.mp h).1, if_neg given]
      cases pkg
      rfl

/-! Name, Version, Description, URL and the variables leave the six lists alone. -/

theorem parseStringField_fieldLists {field : Bytes} {get : Package → Option Bytes}
    {set : Package → Bytes → Package} {str : Bytes}
    (h : (parseStringField field get set env pkg str path).run freed = .ok (pkg', freed'))
    (same : ∀ pkg v, (set pkg v).fieldLists = pkg.fieldLists) :
    pkg'.fieldLists = pkg.fieldLists := by
  refine (?_ : Returns (fun pkg' => pkg'.fieldLists = pkg.fieldLists) _) _ _ _ h
  unfold parseStringField
  split
  · exact returns_refuse rfl
  · exact returns_bind fun v => returns_pure (same pkg v)

theorem defineVariable_fieldLists {tag value : Bytes} :
    Returns (fun pkg' => pkg'.fieldLists = pkg.fieldLists) (defineVariable env pkg tag value path) := by
  unfold defineVariable
  split
  · exact returns_refuse rfl
  · exact returns_bind fun _ => returns_pure rfl

theorem parseVariable_fieldLists {tag p : Bytes} :
    Returns (fun pkg' => pkg'.fieldLists = pkg.fieldLists) (parseVariable env pkg tag p path) := by
  unfold parseVariable
  refine returns_ite (fun _ => returns_ite (fun _ => returns_pure rfl) fun _ => defineVariable_fieldLists)
    fun _ => ?_
  split
  · exact returns_ite (fun _ => defineVariable_fieldLists) fun _ => defineVariable_fieldLists
  · exact defineVariable_fieldLists

theorem set_fieldLists {α : Type} {x : Proc α} {g : α → Package} {l : FieldLists}
    (h : (x >>= fun a => pure (g a)).run freed = .ok (pkg', freed'))
    (step : ∀ a s, x.run freed = .ok (a, s) → (g a).fieldLists = l) :
    pkg'.fieldLists = l := by
  obtain ⟨a, s, first, h⟩ := Proc.run_bind_eq_ok.mp h
  rw [← (Proc.run_pure_eq_ok.mp h).1]
  exact step a s first

theorem parseField_fieldLists {tag p : Bytes}
    (h : (parseField env pkg tag p path).run freed = .ok (pkg', freed')) :
    pkg'.fieldLists = (fieldItems env pkg tag p path freed).reverse ++ pkg.fieldLists := by
  rw [parseField] at h
  by_cases name : tag = "Name".toList
  · rw [if_pos name] at h
    rw [parseStringField_fieldLists h fun _ _ => rfl]
    simp [fieldItems, name]
  rw [if_neg name] at h
  by_cases desc : tag = "Description".toList
  · rw [if_pos desc] at h
    rw [parseStringField_fieldLists h fun _ _ => rfl]
    simp [fieldItems, desc]
  rw [if_neg desc] at h
  by_cases version : tag = "Version".toList
  · rw [if_pos version] at h
    rw [parseStringField_fieldLists h fun _ _ => rfl]
    simp [fieldItems, version]
  rw [if_neg version] at h
  by_cases reqPriv : tag = "Requires.private".toList
  · refine set_fieldLists (if_pos reqPriv ▸ h) fun l s deps => ?_
    rw [parseDeps_items deps]
    simp only [fieldItems, reqPriv, if_true]
    rfl
  rw [if_neg reqPriv] at h
  by_cases req : tag = "Requires".toList
  · refine set_fieldLists (if_pos req ▸ h) fun l s deps => ?_
    rw [parseDeps_items deps]
    simp only [fieldItems, req, if_true]
    rfl
  rw [if_neg req] at h
  by_cases libsPriv : tag = "Libs.private".toList
  · refine set_fieldLists (if_pos libsPriv ▸ h) fun l s parsed => ?_
    rw [parseLibs_items parsed]
    simp only [fieldItems, libsPriv, if_true]
    rfl
  rw [if_neg libsPriv] at h
  by_cases libs : tag = "Libs".toList
  · refine set_fieldLists (if_pos libs ▸ h) fun l s parsed => ?_
    rw [parseLibs_items parsed]
    simp only [fieldItems, libs, if_true]
    rfl
  rw [if_neg libs] at h
  by_cases cflags : tag = "Cflags".toList ∨ tag = "CFlags".toList
  · rw [if_pos cflags] at h
    rw [parseCflags_items h]
    rcases cflags with rfl | rfl <;>
      by_cases given : pkg.cflags = [] <;>
      simp [fieldItems, given, Package.fieldLists, FieldLists.reverse, FieldLists.append_def,
        FieldLists.append, FieldLists.empty]
  rw [if_neg cflags] at h
  by_cases conflicts : tag = "Conflicts".toList
  · refine set_fieldLists (if_pos conflicts ▸ h) fun l s deps => ?_
    rw [parseDeps_items deps]
    simp only [fieldItems, conflicts, if_true]
    rfl
  rw [if_neg conflicts] at h
  have none : fieldItems env pkg tag p path freed = FieldLists.empty := by
    rw [fieldItems, if_neg reqPriv, if_neg req, if_neg libsPriv, if_neg libs,
      if_neg fun c => cflags c.1, if_neg conflicts]
  rw [none, FieldLists.reverse_empty, FieldLists.empty_append]
  split_ifs at h
  · exact parseStringField_fieldLists h fun _ _ => rfl
  · rw [← (Proc.run_pure_eq_ok.mp h).1]

theorem parseLine_fieldLists {line : Bytes}
    (h : (parseLine env pkg line path).run freed = .ok (pkg', freed')) :
    pkg'.fieldLists = (lineItems env pkg line path freed).reverse ++ pkg.fieldLists := by
  dsimp only [parseLine] at h
  dsimp only [lineItems]
  split at h
  · next p rest =>
    rw [rest]
    exact parseField_fieldLists h
  · next p rest =>
    rw [rest]
    show _ = FieldLists.empty.reverse ++ _
    rw [FieldLists.reverse_empty, FieldLists.empty_append]
    exact parseVariable_fieldLists _ _ _ h
  · next notField _ =>
    rw [← (Proc.run_pure_eq_ok.mp h).1]
    split
    · next p rest => exact absurd rest (notField p)
    · simp

theorem parseLines_fieldLists {lines : List Bytes}
    (h : (parseLines env path pkg lines).run freed = .ok (pkg', freed')) :
    pkg'.fieldLists = (linesItems env path pkg lines freed).reverse ++ pkg.fieldLists := by
  induction lines generalizing pkg freed with
  | nil =>
    obtain ⟨rfl, -⟩ := Proc.run_pure_eq_ok.mp h
    simp [linesItems]
  | cons line rest ih =>
    obtain ⟨q, s, step, h⟩ := Proc.run_bind_eq_ok.mp h
    rw [linesItems, step, ih h, parseLine_fieldLists step, FieldLists.reverse_append,
      FieldLists.append_assoc]

end Items

/-- Each of the six lists a parse returns holds the items of its lines in file order. -/
theorem parsePackageFile_fields_in_order {env : Env} {id : Nat} {key path stream : Bytes}
    {freed freed' : List Bytes} {pkg : Package}
    (h : (parsePackageFile env id key path (some stream)).run freed = .ok (some pkg, freed')) :
    pkg.fieldLists = linesItems env path
      { Package.new0 id with
        key := key, pcfiledir := some (gPathGetDirname path)
        vars := [("pcfiledir".toList, gPathGetDirname path)] } (readAllLines stream) freed := by
  obtain ⟨pk, s, run, h⟩ := Proc.run_bind_eq_ok.mp h
  obtain ⟨⟨⟩, -⟩ := Proc.run_pure_eq_ok.mp h
  have reversed : pk.fieldLists.reverse = _ := congrArg FieldLists.reverse (parseLines_fieldLists run)
  rw [FieldLists.reverse_append, FieldLists.reverse_reverse] at reversed
  exact reversed.trans (FieldLists.empty_append _)

/-- Two `Libs` and two `Requires` lines, interleaved. -/
def interleavedFields : List Char :=
  "Libs: -la\nRequires: foo\nLibs: -lb -lc\nRequires: bar >= 1\n".toList

/-- What `parse_package_file` returns for `interleavedFields` read from `/x/p.pc`. -/
def interleavedPackage : Package :=
  { Package.new0 0 with
    key := "p".toList, pcfiledir := some "/x".toList
    vars := [("pcfiledir".toList, "/x".toList)]
    requiresEntries := [⟨"foo".toList, .alwaysMatch, none⟩,
      ⟨"bar".toList, .greaterThanEqual, some "1".toList⟩]
    libs := [⟨.libsl, "-la".toList⟩, ⟨.libsl, "-lb".toList⟩, ⟨.libsl, "-lc".toList⟩] }

theorem parsePackageFile_fields_interleaved :
    (parsePackageFile relocatingEnv 0 "p".toList "/x/p.pc".toList (some interleavedFields)).run [] =
        .ok (some interleavedPackage, []) ∧
      interleavedPackage.fieldLists = linesItems relocatingEnv "/x/p.pc".toList
        { Package.new0 0 with
          key := "p".toList, pcfiledir := some (gPathGetDirname "/x/p.pc".toList)
          vars := [("pcfiledir".toList, gPathGetDirname "/x/p.pc".toList)] }
        (readAllLines interleavedFields) [] := by
  have lines : readAllLines interleavedFields =
      ["Libs: -la".toList, "Requires: foo".toList, "Libs: -lb -lc".toList,
        "Requires: bar >= 1".toList] := by
    decide
  have run : (parsePackageFile relocatingEnv 0 "p".toList "/x/p.pc".toList
      (some interleavedFields)).run [] = .ok (some interleavedPackage, []) := by
    simp only [parsePackageFile, lines]
    rfl
  exact ⟨run, parsePackageFile_fields_in_order run⟩

end PkgConfig
