import PkgConfig.Merge

/-! `verify_package`: the required fields, the version of every resolved requirement
that has a declared constraint, and the conflicts dragged in through Requires.
The conflict loop tests every pair of a transitively required package and a
transitively collected conflict entry without comparing the entry's name with the
package's key; the characterisation below says exactly when verification passes. -/

namespace PkgConfig

/-- `version_test` where the strings may be NULL; `none` is the NULL read. -/
def versionTestAt (comparison : ComparisonType) (a b : Option Bytes) : Option Bool :=
  if comparison = .alwaysMatch then some true
  else match a, b with
    | some a, some b => some (versionTest comparison a b)
    | _, _ => none

/-- The loop of `verify_package` over `pkg->requires` and their declared constraints. -/
def verifyRequiredVersions (pkg : Package) (name : Bytes) : List Package → Except Fatal Unit
  | [] => pure ()
  | req :: rest =>
    match pkg.requiredVersions.bind (·.lookup req.key) with
    | none => verifyRequiredVersions pkg name rest
    | some ver =>
      match versionTestAt ver.comparison req.version ver.version with
      | none => throw .nullDereference
      | some true => verifyRequiredVersions pkg name rest
      | some false => throw (.requiresVersion name req.key ver req.name req.version)

/-- One required package against every conflict entry. -/
def verifyConflictsOf (req : Package) : List RequiredVersion → Except Fatal Unit
  | [] => pure ()
  | ver :: rest =>
    match versionTestAt ver.comparison req.version ver.version with
    | none => throw .nullDereference
    | some true => throw (.conflict req.version req.name ver)
    | some false => verifyConflictsOf req rest

/-- The outer loop of the conflict check, over the transitive requires list. -/
def verifyConflicts (conflicts : List RequiredVersion) : List Package → Except Fatal Unit
  | [] => pure ()
  | req :: rest => do
    verifyConflictsOf req conflicts
    verifyConflicts conflicts rest

/-- `verify_package`, whose NULL-key check the model's `key : Bytes` makes moot. -/
def verifyPackage (pkg : Package) : Except Fatal Unit := do
  let some name := pkg.name | throw (.noName pkg.key)
  let some _ := pkg.version | throw (.noVersion name)
  let some _ := pkg.description | throw (.noDescription pkg.description)
  verifyRequiredVersions pkg name pkg.requires
  verifyConflicts (recursiveFillList getConflicts pkg [])
    (recursiveFillList getRequires pkg [])

theorem seq_ok_iff {x y : Except Fatal Unit} : (x >>= fun _ => y) = .ok () ↔
    x = .ok () ∧ y = .ok () := by
  cases x <;> simp [bind, Except.bind]

theorem verifyRequiredVersions_ok_iff (pkg : Package) (name : Bytes) (reqs : List Package) :
    verifyRequiredVersions pkg name reqs = .ok () ↔
      ∀ req ∈ reqs, ∀ ver, pkg.requiredVersions.bind (·.lookup req.key) = some ver →
        versionTestAt ver.comparison req.version ver.version = some true := by
  induction reqs with
  | nil => simp [verifyRequiredVersions, pure, Except.pure]
  | cons req rest ih =>
    rw [verifyRequiredVersions]
    split <;> rename_i constraint
    · simp [constraint, ih]
    · split <;> rename_i test <;> simp [test, constraint, ih, throw, throwThe, MonadExceptOf.throw]

theorem verifyConflictsOf_ok_iff (req : Package) (conflicts : List RequiredVersion) :
    verifyConflictsOf req conflicts = .ok () ↔
      ∀ ver ∈ conflicts, versionTestAt ver.comparison req.version ver.version = some false := by
  induction conflicts with
  | nil => simp [verifyConflictsOf, pure, Except.pure]
  | cons ver rest ih =>
    rw [verifyConflictsOf]
    split <;> rename_i test <;> simp [test, ih, throw, throwThe, MonadExceptOf.throw]

theorem verifyConflicts_ok_iff (conflicts : List RequiredVersion) (reqs : List Package) :
    verifyConflicts conflicts reqs = .ok () ↔
      ∀ req ∈ reqs, ∀ ver ∈ conflicts,
        versionTestAt ver.comparison req.version ver.version = some false := by
  induction reqs with
  | nil => simp [verifyConflicts, pure, Except.pure]
  | cons req rest ih =>
    rw [verifyConflicts, List.forall_mem_cons, ← verifyConflictsOf_ok_iff, ← ih]
    exact seq_ok_iff

theorem mem_recursiveFillList_getConflicts (pkg : Package) (ver : RequiredVersion) :
    ver ∈ recursiveFillList getConflicts pkg [] ↔ ∃ owner ∈ pkg.walk, ver ∈ owner.conflicts := by
  rw [recursiveFillList_eq, List.nil_append, List.mem_flatMap]
  rfl

/-- When `verify_package` returns: the conflict entry's name takes no part. -/
theorem verifyPackage_ok_iff (pkg : Package) :
    verifyPackage pkg = .ok () ↔
      pkg.name.isSome ∧ pkg.version.isSome ∧ pkg.description.isSome ∧
      (∀ req ∈ pkg.requires, ∀ ver, pkg.requiredVersions.bind (·.lookup req.key) = some ver →
        versionTestAt ver.comparison req.version ver.version = some true) ∧
      (∀ req ∈ Package.walkList pkg.requires, ∀ owner ∈ pkg.walk, ∀ ver ∈ owner.conflicts,
        versionTestAt ver.comparison req.version ver.version = some false) := by
  rcases hname : pkg.name with _ | name
  · simp [verifyPackage, hname, throw, throwThe, MonadExceptOf.throw]
  rcases hversion : pkg.version with _ | version
  · simp [verifyPackage, hname, hversion, throw, throwThe, MonadExceptOf.throw]
  rcases hdesc : pkg.description with _ | desc
  · simp [verifyPackage, hname, hversion, hdesc, throw, throwThe, MonadExceptOf.throw]
  simp only [verifyPackage, hname, hversion, hdesc, Option.isSome_some, true_and]
  rw [seq_ok_iff, verifyRequiredVersions_ok_iff, verifyConflicts_ok_iff]
  simp only [mem_recursiveFillList_getRequires, mem_recursiveFillList_getConflicts]
  constructor
  · exact fun ⟨ok, noConflict⟩ => ⟨ok, fun req reached owner visited ver declared =>
      noConflict req reached ver ⟨owner, visited, declared⟩⟩
  · exact fun ⟨ok, noConflict⟩ => ⟨ok, fun req reached ver ⟨owner, visited, declared⟩ =>
      noConflict req reached owner visited ver declared⟩

theorem verifyPackage_ok_iff_of_requires_nil {pkg : Package} (noRequires : pkg.requires = []) :
    verifyPackage pkg = .ok () ↔ pkg.name.isSome ∧ pkg.version.isSome ∧ pkg.description.isSome := by
  rcases hname : pkg.name with _ | name
  · simp [verifyPackage, hname, throw, throwThe, MonadExceptOf.throw]
  rcases hversion : pkg.version with _ | version
  · simp [verifyPackage, hname, hversion, throw, throwThe, MonadExceptOf.throw]
  rcases hdesc : pkg.description with _ | desc
  · simp [verifyPackage, hname, hversion, hdesc, throw, throwThe, MonadExceptOf.throw]
  simp [verifyPackage, hname, hversion, hdesc, noRequires, recursiveFillList_eq, getRequires,
    verifyRequiredVersions, verifyConflicts]

end PkgConfig
