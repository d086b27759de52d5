import Mathlib.Logic.Relation
import PkgConfig.Registry

/-! What runs of `get_package` do. Without the legacy fallback, every package handed out
has the fields parse.c never writes as `g_new0` left them, so no Requires is ever
resolved and every merged flag string is empty. A name that is not a file name is
interned: asking again returns the same object, and no binding of `packages` is
replaced. A file name ending in `.pc` is looked up under the name but stored under its
key, so every call loads the file afresh and rebinds the key. -/

namespace PkgConfig

theorem endsInDotpc_uninstalled (name : Bytes) :
    endsInDotpc (name ++ "-uninstalled".toList) = false := by
  have last : (name ++ "-uninstalled".toList).getLast? = some 'd' := by
    simp [List.getLast?_append]
  have : ¬ ".pc".toList <:+ name ++ "-uninstalled".toList := by
    rintro ⟨t, ht⟩
    rw [← ht, List.getLast?_append] at last
    simp at last
  simp only [endsInDotpc, this, and_false, decide_False]

theorem nameEndsInUninstalled_uninstalled (name : Bytes) :
    nameEndsInUninstalled (name ++ "-uninstalled".toList) = true := by
  have suffix : "uninstalled".toList <:+ name ++ "-uninstalled".toList :=
    (List.suffix_cons '-' _).trans (List.suffix_append name _)
  have : "-uninstalled".toList.length = 12 := rfl
  simp only [nameEndsInUninstalled, suffix, and_true, decide_eq_true_eq, List.length_append]
  omega

theorem Package.Unresolved.fields {pkg : Package} (h : pkg.Unresolved) :
    pkg.requires = [] ∧ pkg.requiredVersions = none ∧ pkg.lLibs = [] ∧ pkg.LLibs = [] ∧
      pkg.ICflags = [] ∧ pkg.lLibsMerged = none ∧ pkg.LLibsMerged = none ∧
      pkg.ICflagsMerged = none := by
  simpa only [Package.Unresolved, Package.links, Package.new0, Prod.mk.injEq] using h

theorem Package.Unresolved.merged_empty {pkg : Package} (h : pkg.Unresolved) :
    (packageGetlLibs pkg).1 = [] ∧ (packageGetLLibs pkg).1 = [] ∧
      (packageGetICflags pkg).1 = [] := by
  obtain ⟨requires, -, lLibs, LLibs, ICflags, lMerged, LMerged, IMerged⟩ := h.fields
  simp [packageGetlLibs, packageGetLLibs, packageGetICflags, packageGetCached, getMergedFromBack,
    getMerged, mergedFromBackList, mergedList, recursiveFillList_eq, getlLibs, getLLibs, getICflags, stringListStripDuplicates,
    stringListStripDuplicatesFromBack, stripDuplicatesLoop, stringListToString, requires, lLibs,
    LLibs, ICflags, lMerged, LMerged, IMerged]

/-- Every package bound in `packages` has property `P`. -/
def AllStored (P : Package → Prop) (st : Registry) : Prop :=
  ∀ key pkg, st.packages.lookup key = some pkg → P pkg

/-- A `get_package` call that returns. -/
def GetPackageStep (sys : System) (st st' : Registry) : Prop :=
  ∃ name result, getPackage sys st name = .ok (result, st')

/-- A `get_package` call that returns, on a name that is not a file name. -/
def PlainGetPackageStep (sys : System) (st st' : Registry) : Prop :=
  ∃ name result, endsInDotpc name = false ∧ getPackage sys st name = .ok (result, st')

theorem allStored_packageInit (P : Package → Prop) (sys : System) {st : Registry}
    (fresh : st.initted = false) : AllStored P (packageInit sys st) := by
  intro key pkg found
  simp [packageInit, fresh] at found

theorem allStored_insert {P : Package → Prop} {st st' : Registry} {pkg : Package} {key : Bytes}
    (inserted : st'.packages = st.packages.insert key pkg) (inv : AllStored P st) (h : P pkg) :
    AllStored P st' := by
  intro k P found
  simp only [inserted, Table.lookup_insert_eq] at found
  split at found
  · cases found
    exact h
  · exact inv k P found

/-- Every package bound under a key that ends in `uninstalled` is flagged uninstalled. -/
def UninstalledFlagged (st : Registry) : Prop :=
  ∀ key pkg, st.packages.lookup key = some pkg → "uninstalled".toList <:+ key →
    pkg.uninstalled = true

/-- Every recorded location is the `.pc` file of its key. -/
def LocationsNamed (st : Registry) : Prop :=
  ∀ key path, st.locations.lookup key = some path → key ++ ".pc".toList <:+ path

theorem strstr_uninstalled {stem path : Bytes} (suffix : "uninstalled".toList <:+ stem)
    (file : stem ++ ".pc".toList <:+ path) : strstr path "uninstalled.pc".toList = true := by
  obtain ⟨t, rfl⟩ := suffix
  have tail : "uninstalled.pc".toList <:+ t ++ "uninstalled".toList ++ ".pc".toList := ⟨t, by simp⟩
  simpa [strstr] using (tail.trans file).isInfix

theorem strstr_pcFileKey {name : Bytes} (pc : endsInDotpc name = true)
    (suffix : "uninstalled".toList <:+ pcFileKey name) :
    strstr name "uninstalled.pc".toList = true := by
  rcases List.suffix_cons_iff.1 (suffix.trans (pcFileKey_suffix name)) with slash | inStem
  · nomatch slash
  · exact strstr_uninstalled inStem (by rw [endsInDotpc_stem pc])

theorem flagged_packageInit (sys : System) {st : Registry} (fresh : st.initted = false) :
    LocationsNamed (packageInit sys st) ∧ UninstalledFlagged (packageInit sys st) :=
  ⟨fun _ _ h => packageInit_locations_suffix sys fresh h,
    fun _ _ found => by simp [packageInit, fresh] at found⟩

/-! What one `internal_get_package` call keeps: an invariant `Inv` of the tables that
both of its loads keep, with a property `Out` that every stored and every loaded package
has. The recursion through the uninstalled variant is handled here once. -/

section Invariant

variable {sys : System} (Inv : Registry → Prop) (Out : Package → Prop)
  (stored : ∀ {st key pkg}, Inv st → st.packages.lookup key = some pkg → Out pkg)
  (loadFile : ∀ {st st' name checkCompat r}, Inv st → endsInDotpc name = true →
    loadPackage sys st name (some name) true checkCompat = .ok (r, st') →
    Inv st' ∧ ∀ pkg ∈ r, Out pkg)
  (loadPlain : ∀ {st st' name checkCompat r}, Inv st →
    loadPackage sys st name (st.locations.lookup name) false checkCompat = .ok (r, st') →
    Inv st' ∧ ∀ pkg ∈ r, Out pkg)
include stored loadFile loadPlain

theorem internalGetPackageWith_invariant
    {preferred : Registry → Bytes → Except Fatal (Option Package × Registry)}
    (preferredOk : ∀ {st st' name r}, Inv st → preferred st name = .ok (r, st') →
      Inv st' ∧ ∀ pkg ∈ r, Out pkg)
    {st st' : Registry} {name : Bytes} {checkCompat : Bool} {r : Option Package}
    (inv : Inv st) (h : internalGetPackageWith sys preferred st name checkCompat = .ok (r, st')) :
    Inv st' ∧ ∀ pkg ∈ r, Out pkg := by
  unfold internalGetPackageWith at h
  split at h
  · rename_i pkg found
    cases h
    exact ⟨inv, fun _ h => by cases h; exact stored inv found⟩
  · split at h
    · exact loadFile inv ‹_› h
    · obtain ⟨⟨pkg, mid⟩, pref, h⟩ := bind_eq_ok.mp h
      have ⟨invMid, pkgOk⟩ : Inv mid ∧ ∀ P ∈ pkg, Out P := by
        split at pref
        · exact preferredOk inv pref
        · cases pref
          exact ⟨inv, fun _ h => nomatch h⟩
      dsimp only at h
      split at h
      · cases h
        exact ⟨invMid, pkgOk⟩
      · exact loadPlain invMid h

theorem internalGetPackage_invariant (depth : Nat) :
    ∀ {st st' : Registry} {name : Bytes} {checkCompat : Bool} {r : Option Package},
      Inv st → internalGetPackage sys depth st name checkCompat = .ok (r, st') →
      Inv st' ∧ ∀ pkg ∈ r, Out pkg := by
  induction depth with
  | zero =>
    exact internalGetPackageWith_invariant Inv Out stored loadFile loadPlain fun inv h => by
      cases h
      exact ⟨inv, fun _ h => nomatch h⟩
  | succ depth ih => exact internalGetPackageWith_invariant Inv Out stored loadFile loadPlain ih

theorem getPackage_run_invariant {st st' : Registry}
    (run : Relation.ReflTransGen (GetPackageStep sys) st st') (inv : Inv st) : Inv st' := by
  induction run with
  | refl => exact inv
  | tail _ step ih =>
    obtain ⟨_, _, h⟩ := step
    exact (internalGetPackage_invariant Inv Out stored loadFile loadPlain 1 ih h).1

theorem getPackage_invariant {st st' st'' : Registry} {name : Bytes} {r : Option Package}
    (run : Relation.ReflTransGen (GetPackageStep sys) st st') (inv : Inv st)
    (h : getPackage sys st' name = .ok (r, st'')) : Inv st'' ∧ ∀ pkg ∈ r, Out pkg :=
  internalGetPackage_invariant Inv Out stored loadFile loadPlain 1
    (getPackage_run_invariant Inv Out stored loadFile loadPlain run inv) h

end Invariant

section NoCompat

variable {sys : System} (noCompat : ∀ name, sys.getCompatPackage name = none)
include noCompat

theorem loadPackage_cases {st st' : Registry} {name : Bytes} {location : Option Bytes}
    {isFileName checkCompat : Bool} {r : Option Package}
    (h : loadPackage sys st name location isFileName checkCompat = .ok (r, st')) :
    (r = none ∧ st' = st) ∨
      ∃ pkg, r = some pkg ∧ pkg.key = (if isFileName then pcFileKey name else name) ∧
        pkg.Unresolved ∧ verifyPackage pkg = .ok () ∧
        (∃ loc, location = some loc ∧
          (strstr loc "uninstalled.pc".toList = true → pkg.uninstalled = true)) ∧
        ∃ freed, st' = { st with
          packages := st.packages.insert pkg.key pkg, nextId := st.nextId + 1, freed := freed } := by
  unfold loadPackage at h
  split at h
  · simp only [noCompat, ite_self] at h
    cases h
    exact .inl ⟨rfl, rfl⟩
  · obtain ⟨⟨parsed, freed⟩, parse, h⟩ := bind_eq_ok.mp h
    cases parsed with
    | none =>
      cases h
      exact .inl ⟨rfl, rfl⟩
    | some pkg =>
      obtain ⟨⟨⟩, verified, h⟩ := bind_eq_ok.mp h
      cases h
      have unresolved := parsePackageFile_links parse
      exact .inr ⟨_, rfl, rfl, unresolved, verified,
        ⟨_, rfl, fun flagged => by simp only [flagged, Bool.or_true]⟩, freed, rfl⟩

theorem loadPackage_allStored (P : Package → Prop)
    (loaded : ∀ {pkg : Package}, pkg.Unresolved → verifyPackage pkg = .ok () → P pkg)
    {st st' : Registry} {name : Bytes} {location : Option Bytes} {isFileName checkCompat : Bool}
    {r : Option Package} (inv : AllStored P st)
    (h : loadPackage sys st name location isFileName checkCompat = .ok (r, st')) :
    AllStored P st' ∧ ∀ pkg ∈ r, P pkg := by
  rcases loadPackage_cases noCompat h with ⟨rfl, rfl⟩ | ⟨pkg, rfl, -, unresolved, verified, -, _, rfl⟩
  · exact ⟨inv, fun _ h => nomatch h⟩
  · have ok := loaded unresolved verified
    exact ⟨allStored_insert rfl inv ok, fun _ h => by cases h; exact ok⟩

theorem getPackage_allStored (P : Package → Prop)
    (loaded : ∀ {pkg : Package}, pkg.Unresolved → verifyPackage pkg = .ok () → P pkg)
    {st₀ st st' : Registry} {name : Bytes} {pkg : Package} (fresh : st₀.initted = false)
    (run : Relation.ReflTransGen (GetPackageStep sys) (packageInit sys st₀) st)
    (h : getPackage sys st name = .ok (some pkg, st')) : P pkg :=
  (getPackage_invariant (AllStored P) P (fun inv found => inv _ _ found)
    (fun inv _ h => loadPackage_allStored noCompat P loaded inv h)
    (fun inv h => loadPackage_allStored noCompat P loaded inv h) run
    (allStored_packageInit P sys fresh) h).2 pkg rfl

theorem getPackage_unresolved {st₀ st st' : Registry} {name : Bytes} {pkg : Package}
    (fresh : st₀.initted = false)
    (run : Relation.ReflTransGen (GetPackageStep sys) (packageInit sys st₀) st)
    (h : getPackage sys st name = .ok (some pkg, st')) : pkg.Unresolved :=
  getPackage_allStored noCompat _ (fun unresolved _ => unresolved) fresh run h

/-- Every package `get_package` hands out passes `verify_package`. -/
theorem getPackage_verified {st₀ st st' : Registry} {name : Bytes} {pkg : Package}
    (fresh : st₀.initted = false)
    (run : Relation.ReflTransGen (GetPackageStep sys) (packageInit sys st₀) st)
    (h : getPackage sys st name = .ok (some pkg, st')) : verifyPackage pkg = .ok () :=
  getPackage_allStored noCompat _ (fun _ verified => verified) fresh run h

/-- No package `get_package` hands out has anything resolved into it. -/
theorem getPackage_never_resolved {st₀ st st' : Registry} {name : Bytes} {pkg : Package}
    (fresh : st₀.initted = false)
    (run : Relation.ReflTransGen (GetPackageStep sys) (packageInit sys st₀) st)
    (h : getPackage sys st name = .ok (some pkg, st')) :
    pkg.requires = [] ∧ pkg.requiredVersions = none ∧ pkg.lLibs = [] ∧ pkg.LLibs = [] ∧
      pkg.ICflags = [] := by
  obtain ⟨requires, versions, lLibs, LLibs, ICflags, -⟩ :=
    (getPackage_unresolved noCompat fresh run h).fields
  exact ⟨requires, versions, lLibs, LLibs, ICflags⟩

/-- Every package `get_package` hands out reports empty `-l`, `-L` and `-I` strings. -/
theorem getPackage_merged_flags_empty {st₀ st st' : Registry} {name : Bytes} {pkg : Package}
    (fresh : st₀.initted = false)
    (run : Relation.ReflTransGen (GetPackageStep sys) (packageInit sys st₀) st)
    (h : getPackage sys st name = .ok (some pkg, st')) :
    (packageGetlLibs pkg).1 = [] ∧ (packageGetLLibs pkg).1 = [] ∧ (packageGetICflags pkg).1 = [] :=
  (getPackage_unresolved noCompat fresh run h).merged_empty

theorem loadPackage_flagged {st st' : Registry} {name : Bytes} {location : Option Bytes}
    {isFileName checkCompat : Bool} {r : Option Package}
    (inv : LocationsNamed st ∧ UninstalledFlagged st)
    (h : loadPackage sys st name location isFileName checkCompat = .ok (r, st'))
    (named : ∀ loc, location = some loc →
      "uninstalled".toList <:+ (if isFileName then pcFileKey name else name) →
      strstr loc "uninstalled.pc".toList = true) :
    (LocationsNamed st' ∧ UninstalledFlagged st') ∧ ∀ pkg ∈ r, True := by
  refine ⟨?_, fun _ _ => trivial⟩
  rcases loadPackage_cases noCompat h with ⟨-, rfl⟩ | ⟨pkg, -, key, -, -, ⟨loc, isLoc, flag⟩, _, rfl⟩
  · exact inv
  · refine ⟨inv.1, fun k P found suffix => ?_⟩
    simp only [Table.lookup_insert_eq] at found
    split at found
    · next same =>
      cases found
      exact flag (named loc isLoc (by rw [← key, same]; exact suffix))
    · exact inv.2 k P found suffix

/-- Every package bound under a key ending in `uninstalled` is flagged uninstalled. -/
theorem packages_uninstalled_flagged {st₀ st : Registry} (fresh : st₀.initted = false)
    (run : Relation.ReflTransGen (GetPackageStep sys) (packageInit sys st₀) st)
    {key : Bytes} {pkg : Package} (bound : st.packages.lookup key = some pkg)
    (suffix : "uninstalled".toList <:+ key) : pkg.uninstalled = true :=
  (getPackage_run_invariant (fun st => LocationsNamed st ∧ UninstalledFlagged st) (fun _ => True)
    (fun _ _ => trivial)
    (fun inv pc h => loadPackage_flagged noCompat inv h fun _ isLoc suffix => by
      cases isLoc
      exact strstr_pcFileKey pc suffix)
    (fun inv h => loadPackage_flagged noCompat inv h fun _ isLoc suffix =>
      strstr_uninstalled suffix (inv.1 _ _ isLoc))
    run (flagged_packageInit sys fresh)).2 key pkg bound suffix

end NoCompat

/-! Concrete runs on a small file system. -/

/-- A strict system whose directory `/d` holds the given `.pc` files. -/
def demoSystem (files : List (Bytes × List Char)) : System where
  env := ⟨true, false, "prefix".toList, [], fun s => some ((s.splitOn ' ').filter (· ≠ []))⟩
  files := fun path => (files.map fun (name, contents) => ("/d/".toList ++ name, contents)).lookup path
  dirs := fun dir => if dir = "/d".toList then some (files.map Prod.fst) else none
  pkglibdir := "/usr/lib/pkgconfig".toList
  disableUninstalled := false
  getCompatPackage := fun _ => none

/-- The tables after `add_search_dir ("/d")` and `package_init`. -/
def demoStart (files : List (Bytes × List Char)) : Registry :=
  packageInit (demoSystem files) (addSearchDir Registry.empty "/d".toList)

/-- A package as `parse_package_file` builds it from a file in `/d`. -/
def loaded (id : Nat) (key : Bytes) (name version description : String) : Package :=
  { Package.new0 id with
    key := key, name := some name.toList, version := some version.toList
    description := some description.toList, pcfiledir := some "/d".toList
    vars := [("pcfiledir".toList, "/d".toList)] }

/-- `a` requires `b >= 2.0`, and `b` is version 1.9. -/
def unmetRequires : List (Bytes × List Char) :=
  [("a.pc".toList, "Requires: b >= 2.0\nName: a\nVersion: 1\nDescription: a\n".toList),
    ("b.pc".toList, "Name: b\nVersion: 1.9\nDescription: b\n".toList)]

/-- `a` as loaded from `unmetRequires`. -/
def unmetA : Package :=
  { loaded 0 "a".toList "a" "1" "a" with
    requiresEntries := [⟨"b".toList, .greaterThanEqual, some "2.0".toList⟩] }

/-- The tables after `get_package ("a")`. -/
def unmetAfterA : Registry :=
  { demoStart unmetRequires with packages := [("a".toList, unmetA)], nextId := 1 }

/-- `b` as loaded from `unmetRequires` after `a`. -/
def unmetB : Package := loaded 1 "b".toList "b" "1.9" "b"

/-- The tables after `get_package ("a")` and `get_package ("b")`. -/
def unmetAfterB : Registry :=
  { unmetAfterA with packages := [("b".toList, unmetB), ("a".toList, unmetA)], nextId := 2 }

theorem getPackage_unmetRequires_a :
    getPackage (demoSystem unmetRequires) (demoStart unmetRequires) "a".toList =
      .ok (some unmetA, unmetAfterA) := by rfl

theorem getPackage_unmetRequires_b :
    getPackage (demoSystem unmetRequires) unmetAfterA "b".toList = .ok (some unmetB, unmetAfterB) := by
  rfl

/-- `a` is returned although it requires `b >= 2.0` and `b` is version 1.9. -/
theorem getPackage_unmet_requires :
    getPackage (demoSystem unmetRequires) (demoStart unmetRequires) "a".toList =
        .ok (some unmetA, unmetAfterA) ∧
      getPackage (demoSystem unmetRequires) unmetAfterA "b".toList = .ok (some unmetB, unmetAfterB) ∧
      unmetA.requiresEntries = [⟨"b".toList, .greaterThanEqual, some "2.0".toList⟩] ∧
      unmetA.requires = [] ∧ unmetB.version = some "1.9".toList ∧
      versionTest .greaterThanEqual "1.9".toList "2.0".toList = false :=
  ⟨getPackage_unmetRequires_a, getPackage_unmetRequires_b, rfl, rfl, rfl, by decide⟩

/-- A package with one `-L` and one `-l` flag. -/
def libsOnly : List (Bytes × List Char) :=
  [("foo.pc".toList, "Libs: -L/usr/lib -lfoo\nName: foo\nVersion: 1.2\nDescription: d\n".toList)]

/-- `foo` as loaded from `libsOnly`. -/
def libsOnlyLoaded : Package :=
  { loaded 0 "foo".toList "foo" "1.2" "d" with
    libs := [⟨.libsL, "-L/usr/lib".toList⟩, ⟨.libsl, "-lfoo".toList⟩] }

/-- The tables after `get_package ("foo")`. -/
def libsOnlyAfter : Registry :=
  { demoStart libsOnly with packages := [("foo".toList, libsOnlyLoaded)], nextId := 1 }

theorem getPackage_libsOnly :
    getPackage (demoSystem libsOnly) (demoStart libsOnly) "foo".toList =
      .ok (some libsOnlyLoaded, libsOnlyAfter) := by rfl

/-- `-L/usr/lib` and `-lfoo` are parsed into `libs`, and the merged strings are empty. -/
theorem getPackage_flags_not_merged :
    getPackage (demoSystem libsOnly) (demoStart libsOnly) "foo".toList =
        .ok (some libsOnlyLoaded, libsOnlyAfter) ∧
      libsOnlyLoaded.libs = [⟨.libsL, "-L/usr/lib".toList⟩, ⟨.libsl, "-lfoo".toList⟩] ∧
      (packageGetlLibs libsOnlyLoaded).1 = [] ∧ (packageGetLLibs libsOnlyLoaded).1 = [] :=
  ⟨getPackage_libsOnly, rfl, rfl, rfl⟩

theorem getPackage_never_resolved_unmet :
    getPackage (demoSystem unmetRequires) (demoStart unmetRequires) "a".toList =
        .ok (some unmetA, unmetAfterA) ∧
      unmetA.requires = [] ∧ unmetA.requiredVersions = none ∧ unmetA.lLibs = [] ∧
      unmetA.LLibs = [] ∧ unmetA.ICflags = [] :=
  ⟨getPackage_unmetRequires_a, @getPackage_never_resolved _ (fun _ => rfl)
    (addSearchDir Registry.empty "/d".toList) _ _ _ _ rfl .refl getPackage_unmetRequires_a⟩

theorem getPackage_merged_flags_empty_libsOnly :
    getPackage (demoSystem libsOnly) (demoStart libsOnly) "foo".toList =
        .ok (some libsOnlyLoaded, libsOnlyAfter) ∧
      (packageGetlLibs libsOnlyLoaded).1 = [] ∧ (packageGetLLibs libsOnlyLoaded).1 = [] ∧
      (packageGetICflags libsOnlyLoaded).1 = [] :=
  ⟨getPackage_libsOnly, @getPackage_merged_flags_empty _ (fun _ => rfl)
    (addSearchDir Registry.empty "/d".toList) _ _ _ _ rfl .refl getPackage_libsOnly⟩

/-- `a` passes `verify_package` although the `b` it requires is too old. -/
theorem getPackage_verified_unmet :
    getPackage (demoSystem unmetRequires) (demoStart unmetRequires) "a".toList =
        .ok (some unmetA, unmetAfterA) ∧ verifyPackage unmetA = .ok () :=
  ⟨getPackage_unmetRequires_a, @getPackage_verified _ (fun _ => rfl)
    (addSearchDir Registry.empty "/d".toList) _ _ _ _ rfl .refl getPackage_unmetRequires_a⟩

/-- Only the uninstalled variant of `foo` is installed. -/
def uninstalledOnly : List (Bytes × List Char) :=
  [("foo-uninstalled.pc".toList, "Name: foo\nVersion: 1\nDescription: d\n".toList)]

/-- `foo-uninstalled` as loaded from `uninstalledOnly`. -/
def uninstalledLoaded : Package :=
  { loaded 0 "foo-uninstalled".toList "foo" "1" "d" with uninstalled := true }

/-- The tables after `get_package ("foo")`. -/
def uninstalledAfter : Registry :=
  { demoStart uninstalledOnly with
    packages := [("foo-uninstalled".toList, uninstalledLoaded)], nextId := 1 }

theorem getPackage_uninstalledOnly :
    getPackage (demoSystem uninstalledOnly) (demoStart uninstalledOnly) "foo".toList =
      .ok (some uninstalledLoaded, uninstalledAfter) := by rfl

/-- `get_package ("foo")` prefers the uninstalled variant and binds it, flagged. -/
theorem packages_uninstalled_flagged_foo :
    getPackage (demoSystem uninstalledOnly) (demoStart uninstalledOnly) "foo".toList =
        .ok (some uninstalledLoaded, uninstalledAfter) ∧
      uninstalledAfter.packages.lookup "foo-uninstalled".toList = some uninstalledLoaded ∧
      uninstalledLoaded.uninstalled = true :=
  ⟨getPackage_uninstalledOnly, rfl, @packages_uninstalled_flagged _ (fun _ => rfl)
    (addSearchDir Registry.empty "/d".toList) _ rfl (.single ⟨_, _, getPackage_uninstalledOnly⟩)
    "foo-uninstalled".toList _ rfl (by decide)⟩

/-- The package a call on a name that is not a file name returns without loading. -/
def knownPackage (sys : System) (st : Registry) (name : Bytes) : Option Package :=
  match st.packages.lookup name with
  | some pkg => some pkg
  | none =>
    if !sys.disableUninstalled && !nameEndsInUninstalled name then
      st.packages.lookup (name ++ "-uninstalled".toList)
    else none

theorem knownPackage_of_found {sys : System} {st : Registry} {name : Bytes} {pkg : Package}
    (found : st.packages.lookup name = some pkg) : knownPackage sys st name = some pkg := by
  simp only [knownPackage, found]

theorem knownPackage_of_missing {sys : System} {st : Registry} {name : Bytes}
    (missing : st.packages.lookup name = none) :
    knownPackage sys st name =
      if (!sys.disableUninstalled && !nameEndsInUninstalled name) = true then
        st.packages.lookup (name ++ "-uninstalled".toList)
      else none := by
  simp only [knownPackage, missing]

theorem internalGetPackage_uninstalled (sys : System) (st : Registry) (name : Bytes) :
    internalGetPackage sys 0 st (name ++ "-uninstalled".toList) false =
      match st.packages.lookup (name ++ "-uninstalled".toList) with
      | some pkg => pure (some pkg, st)
      | none => loadPackage sys st (name ++ "-uninstalled".toList)
          (st.locations.lookup (name ++ "-uninstalled".toList)) false false := by
  simp only [internalGetPackage, internalGetPackageWith, endsInDotpc_uninstalled,
    nameEndsInUninstalled_uninstalled, Bool.not_true, Bool.and_false, ite_self]
  cases st.packages.lookup (name ++ "-uninstalled".toList) <;> rfl

/-- A first call reads a plain name from the file the scan found first for it. -/
theorem getPackage_first_call (sys : System) (dirs : List Bytes) (name : Bytes)
    (plain : endsInDotpc name = false)
    (noVariant : firstPcFile sys (name ++ "-uninstalled".toList)
      (dirs.reverse ++ [sys.pkglibdir]) = none) :
    getPackage sys (packageInit sys (dirs.foldl addSearchDir Registry.empty)) name =
      loadPackage sys (packageInit sys (dirs.foldl addSearchDir Registry.empty)) name
        (firstPcFile sys name (dirs.reverse ++ [sys.pkglibdir])) false true := by
  obtain ⟨searched, fresh⟩ := searchDirs_foldl_addSearchDir dirs Registry.empty
  set st := packageInit sys (dirs.foldl addSearchDir Registry.empty) with hst
  have locate : ∀ key, st.locations.lookup key =
      firstPcFile sys key (dirs.reverse ++ [sys.pkglibdir]) := fun key => by
    rw [hst, lookup_packageInit sys fresh, searched]
    simp only [Registry.empty, List.append_nil]
  have empty : st.packages = [] := by
    rw [hst, packageInit, if_neg (by rw [fresh]; decide)]
  rw [getPackage, internalGetPackage, internalGetPackageWith, empty, Table.lookup_nil]
  dsimp only
  rw [if_neg (by simp [plain])]
  split_ifs
  · rw [internalGetPackage_uninstalled, empty, Table.lookup_nil]
    dsimp only
    rw [locate, noVariant, ← locate]
    rfl
  · rw [← locate]
    rfl

theorem getPackage_first_call_twoSearchDirs :
    endsInDotpc "k".toList = false ∧
      firstPcFile twoSearchDirs ("k".toList ++ "-uninstalled".toList)
        (["/a".toList, "/b".toList].reverse ++ [twoSearchDirs.pkglibdir]) = none ∧
      getPackage twoSearchDirs
          (packageInit twoSearchDirs (["/a".toList, "/b".toList].foldl addSearchDir Registry.empty))
          "k".toList =
        loadPackage twoSearchDirs
          (packageInit twoSearchDirs (["/a".toList, "/b".toList].foldl addSearchDir Registry.empty))
          "k".toList (firstPcFile twoSearchDirs "k".toList
            (["/a".toList, "/b".toList].reverse ++ [twoSearchDirs.pkglibdir])) false true :=
  ⟨by decide, by decide, getPackage_first_call _ _ _ (by decide) (by decide)⟩

theorem getPackage_known {sys : System} {st : Registry} {name : Bytes} {pkg : Package}
    (plain : endsInDotpc name = false) (known : knownPackage sys st name = some pkg) :
    getPackage sys st name = .ok (some pkg, st) := by
  unfold getPackage internalGetPackage internalGetPackageWith
  cases found : st.packages.lookup name with
  | some p =>
    rw [knownPackage_of_found found] at known
    cases known
    rfl
  | none =>
    rw [knownPackage_of_missing found] at known
    by_cases prefer : (!sys.disableUninstalled && !nameEndsInUninstalled name) = true
    · rw [if_pos prefer] at known
      simp only [plain, prefer, internalGetPackage_uninstalled, known]
      rfl
    · rw [if_neg prefer] at known
      cases known

theorem knownPackage_insert {sys : System} {st st' : Registry} {name key : Bytes}
    {pkg known : Package} (found : knownPackage sys st name = some known)
    (unbound : st.packages.lookup key = none)
    (apart : key ≠ name ∨ nameEndsInUninstalled key = true)
    (same : st'.packages = st.packages.insert key pkg) :
    knownPackage sys st' name = some known := by
  cases bound : st.packages.lookup name with
  | some p =>
    rw [knownPackage_of_found bound] at found
    cases found
    have : key ≠ name := by rintro rfl; rw [bound] at unbound; cases unbound
    exact knownPackage_of_found (by rw [same, Table.lookup_insert_of_ne _ _ this, bound])
  | none =>
    rw [knownPackage_of_missing bound] at found
    by_cases prefer : (!sys.disableUninstalled && !nameEndsInUninstalled name) = true
    · rw [if_pos prefer] at found
      have notName : key ≠ name := apart.elim id fun ends => by
        rintro rfl
        simp [ends] at prefer
      have notVariant : key ≠ name ++ "-uninstalled".toList := by
        rintro rfl; rw [found] at unbound; cases unbound
      rw [knownPackage_of_missing (by rw [same, Table.lookup_insert_of_ne _ _ notName, bound]),
        if_pos prefer, same, Table.lookup_insert_of_ne _ _ notVariant, found]
    · rw [if_neg prefer] at found
      cases found

section NoCompat

variable {sys : System} (noCompat : ∀ name, sys.getCompatPackage name = none)
include noCompat

theorem getPackage_plain_cases {st st' : Registry} {name : Bytes} {r : Option Package}
    (plain : endsInDotpc name = false) (h : getPackage sys st name = .ok (r, st')) :
    (∃ pkg, knownPackage sys st name = some pkg ∧ r = some pkg ∧ st' = st) ∨
      knownPackage sys st name = none ∧
        ((r = none ∧ st' = st) ∨
          ∃ key pkg, (key = name ∨ key = name ++ "-uninstalled".toList ∧
              (!sys.disableUninstalled && !nameEndsInUninstalled name) = true) ∧
            st.packages.lookup key = none ∧ r = some pkg ∧
            st'.packages = st.packages.insert key pkg) := by
  unfold getPackage internalGetPackage internalGetPackageWith at h
  cases found : st.packages.lookup name with
  | some pkg =>
    simp only [found] at h
    cases h
    exact .inl ⟨pkg, knownPackage_of_found found, rfl, rfl⟩
  | none =>
    simp only [found] at h
    rw [if_neg (by simp [plain])] at h
    obtain ⟨⟨pkg, mid⟩, pref, load⟩ := bind_eq_ok.mp h
    dsimp only at pref load
    have loadName : pkg = none → mid = st → (r = none ∧ st' = st) ∨
        ∃ key pkg, (key = name ∨ key = name ++ "-uninstalled".toList ∧
            (!sys.disableUninstalled && !nameEndsInUninstalled name) = true) ∧
          st.packages.lookup key = none ∧ r = some pkg ∧ st'.packages = st.packages.insert key pkg := by
      rintro rfl rfl
      rcases loadPackage_cases noCompat load with ⟨rfl, rfl⟩ | ⟨q, rfl, key, -, -, -, _, same⟩
      · exact .inl ⟨rfl, rfl⟩
      · exact .inr ⟨name, q, .inl rfl, found, rfl, by rw [same]; simp [key]⟩
    rw [knownPackage_of_missing found]
    by_cases prefer : (!sys.disableUninstalled && !nameEndsInUninstalled name) = true
    · rw [if_pos prefer, internalGetPackage_uninstalled] at pref
      rw [if_pos prefer]
      cases variant : st.packages.lookup (name ++ "-uninstalled".toList) with
      | some p =>
        simp only [variant] at pref
        cases pref
        cases load
        exact .inl ⟨p, rfl, rfl, rfl⟩
      | none =>
        simp only [variant] at pref
        rcases loadPackage_cases noCompat pref with ⟨rfl, rfl⟩ | ⟨p, rfl, key, -, -, -, _, rfl⟩
        · exact .inr ⟨rfl, loadName rfl rfl⟩
        · cases load
          exact .inr ⟨rfl, .inr ⟨_, p, .inr ⟨rfl, prefer⟩, variant, rfl, by simp [key]⟩⟩
    · rw [if_neg prefer] at pref
      cases pref
      rw [if_neg prefer]
      exact .inr ⟨rfl, loadName rfl rfl⟩

theorem lookup_plainStep {st st' : Registry} {key : Bytes} {pkg : Package}
    (step : PlainGetPackageStep sys st st') (bound : st.packages.lookup key = some pkg) :
    st'.packages.lookup key = some pkg := by
  obtain ⟨name, r, plain, h⟩ := step
  rcases getPackage_plain_cases noCompat plain h with
    ⟨_, _, _, rfl⟩ | ⟨_, ⟨_, rfl⟩ | ⟨fresh, _, _, unbound, _, same⟩⟩
  · exact bound
  · exact bound
  · have : fresh ≠ key := by rintro rfl; rw [bound] at unbound; cases unbound
    rw [same, Table.lookup_insert_of_ne _ _ this, bound]

theorem knownPackage_getPackage {st st' : Registry} {name : Bytes} {pkg : Package}
    (plain : endsInDotpc name = false) (h : getPackage sys st name = .ok (some pkg, st')) :
    knownPackage sys st' name = some pkg := by
  rcases getPackage_plain_cases noCompat plain h with
    ⟨_, known, found, rfl⟩ | ⟨unknown, ⟨found, _⟩ | ⟨key, _, which, unbound, found, same⟩⟩
  · cases found
    exact known
  · cases found
  · cases found
    have missing : st.packages.lookup name = none := by
      cases bound : st.packages.lookup name with
      | none => rfl
      | some p =>
        rw [knownPackage_of_found bound] at unknown
        cases unknown
    rcases which with rfl | ⟨rfl, prefer⟩
    · exact knownPackage_of_found (by rw [same, Table.lookup_insert])
    · have : name ++ "-uninstalled".toList ≠ name := fun h => by
        simpa using congrArg List.length h
      rw [knownPackage_of_missing (by rw [same, Table.lookup_insert_of_ne _ _ this, missing]),
        if_pos prefer, same, Table.lookup_insert]

theorem knownPackage_plainStep {st st' : Registry} {name : Bytes} {pkg : Package}
    (step : PlainGetPackageStep sys st st') (found : knownPackage sys st name = some pkg) :
    knownPackage sys st' name = some pkg := by
  obtain ⟨other, r, plain, h⟩ := step
  rcases getPackage_plain_cases noCompat plain h with
    ⟨_, _, _, rfl⟩ | ⟨unknown, ⟨_, rfl⟩ | ⟨key, _, which, unbound, _, same⟩⟩
  · exact found
  · exact found
  · refine knownPackage_insert found unbound ?_ same
    rcases which with rfl | ⟨rfl, -⟩
    · exact .inl fun h => by rw [h, found] at unknown; cases unknown
    · exact .inr (nameEndsInUninstalled_uninstalled other)

/-- Over every run of calls on plain names, a binding of `packages` is never replaced. -/
theorem plainRun_keeps_bindings {st st' : Registry} {key : Bytes} {pkg : Package}
    (run : Relation.ReflTransGen (PlainGetPackageStep sys) st st')
    (bound : st.packages.lookup key = some pkg) : st'.packages.lookup key = some pkg := by
  induction run with
  | refl => exact bound
  | tail _ step ih => exact lookup_plainStep noCompat step ih

theorem knownPackage_plainRun {st st' : Registry} {name : Bytes} {pkg : Package}
    (run : Relation.ReflTransGen (PlainGetPackageStep sys) st st')
    (found : knownPackage sys st name = some pkg) : knownPackage sys st' name = some pkg := by
  induction run with
  | refl => exact found
  | tail _ step ih => exact knownPackage_plainStep noCompat step ih

/-- Asking again for a plain name returns the same package and changes nothing. -/
theorem getPackage_plain_idempotent {st st₁ st₂ : Registry} {name : Bytes} {pkg : Package}
    (plain : endsInDotpc name = false) (first : getPackage sys st name = .ok (some pkg, st₁))
    (between : Relation.ReflTransGen (PlainGetPackageStep sys) st₁ st₂) :
    getPackage sys st₂ name = .ok (some pkg, st₂) :=
  getPackage_known plain
    (knownPackage_plainRun noCompat between (knownPackage_getPackage noCompat plain first))

end NoCompat

theorem getPackage_plain_idempotent_b :
    getPackage (demoSystem unmetRequires) unmetAfterA "b".toList = .ok (some unmetB, unmetAfterB) ∧
      getPackage (demoSystem unmetRequires) unmetAfterB "b".toList =
        .ok (some unmetB, unmetAfterB) :=
  ⟨getPackage_unmetRequires_b,
    getPackage_plain_idempotent (fun _ => rfl) (by decide) getPackage_unmetRequires_b .refl⟩

theorem plainRun_keeps_bindings_a :
    getPackage (demoSystem unmetRequires) unmetAfterA "b".toList = .ok (some unmetB, unmetAfterB) ∧
      unmetAfterA.packages.lookup "a".toList = some unmetA ∧
      unmetAfterB.packages.lookup "a".toList = some unmetA :=
  ⟨getPackage_unmetRequires_b, rfl, plainRun_keeps_bindings (fun _ => rfl)
    (.single ⟨"b".toList, _, by decide, getPackage_unmetRequires_b⟩) rfl⟩

/-- One descriptor, `/d/a.pc`. -/
def fileA : List (Bytes × List Char) :=
  [("a.pc".toList, "Name: a\nVersion: 1\nDescription: a\n".toList)]

/-- The tables after `get_package ("/d/a.pc")`. -/
def fileAFirst : Registry :=
  { demoStart fileA with packages := [("/a".toList, loaded 0 "/a".toList "a" "1" "a")], nextId := 1 }

/-- The tables after `get_package ("/d/a.pc")` twice. -/
def fileASecond : Registry :=
  { fileAFirst with
    packages := [("/a".toList, loaded 1 "/a".toList "a" "1" "a"),
      ("/a".toList, loaded 0 "/a".toList "a" "1" "a")]
    nextId := 2 }

/-- `get_package ("/d/a.pc")` twice loads the file twice, as two objects. -/
theorem getPackage_file_name_twice :
    getPackage (demoSystem fileA) (demoStart fileA) "/d/a.pc".toList =
        .ok (some (loaded 0 "/a".toList "a" "1" "a"), fileAFirst) ∧
      getPackage (demoSystem fileA) fileAFirst "/d/a.pc".toList =
        .ok (some (loaded 1 "/a".toList "a" "1" "a"), fileASecond) ∧
      fileAFirst.packages.lookup "/a".toList = some (loaded 0 "/a".toList "a" "1" "a") ∧
      fileASecond.packages.lookup "/a".toList = some (loaded 1 "/a".toList "a" "1" "a") :=
  ⟨by rfl, by rfl, rfl, rfl⟩

/-- A package loaded from `d/s.pc` is bound under `/s`, while `scan_dir` records `s`. -/
theorem internalGetPackage_file_name_key (sys : System) (depth : Nat) (st st' : Registry)
    (d s : Bytes) (checkCompat : Bool) (pkg : Package) (nonempty : s ≠ []) (noSlash : '/' ∉ s)
    (fresh : st.packages.lookup (d ++ '/' :: (s ++ ".pc".toList)) = none)
    (h : internalGetPackage sys depth st (d ++ '/' :: (s ++ ".pc".toList)) checkCompat =
      .ok (some pkg, st')) :
    pkg.key = '/' :: s ∧ st'.packages.lookup ('/' :: s) = some pkg ∧
      (scanEntries d [] [s ++ ".pc".toList]).lookup s = some (d ++ '/' :: (s ++ ".pc".toList)) := by
  have pc : endsInDotpc (d ++ '/' :: (s ++ ".pc".toList)) = true := by
    simpa using endsInDotpc_append (List.append_ne_nil_of_right_ne_nil d (List.cons_ne_nil '/' s))
  rw [internalGetPackage_file fresh pc] at h
  obtain ⟨key, bound⟩ := loadPackage_location_key h
  rw [if_pos rfl, pcFileKey_dir_stem d s noSlash] at key
  refine ⟨key, by rw [bound, ← key, Table.lookup_insert], ?_⟩
  rw [lookup_scanEntries, List.find?_cons_of_pos _ (isPcFileOf_append nonempty)]
  rfl

theorem internalGetPackage_file_name_key_a :
    internalGetPackage (demoSystem fileA) 1 (demoStart fileA) "/d/a.pc".toList true =
        .ok (some (loaded 0 "/a".toList "a" "1" "a"), fileAFirst) ∧
      (loaded 0 "/a".toList "a" "1" "a").key = '/' :: "a".toList ∧
      fileAFirst.packages.lookup ('/' :: "a".toList) = some (loaded 0 "/a".toList "a" "1" "a") ∧
      (scanEntries "/d".toList [] ["a".toList ++ ".pc".toList]).lookup "a".toList =
        some ("/d".toList ++ '/' :: ("a".toList ++ ".pc".toList)) :=
  have run : internalGetPackage (demoSystem fileA) 1 (demoStart fileA) "/d/a.pc".toList true =
      .ok (some (loaded 0 "/a".toList "a" "1" "a"), fileAFirst) := by rfl
  ⟨run, internalGetPackage_file_name_key (demoSystem fileA) 1 (demoStart fileA) fileAFirst
    "/d".toList "a".toList true _ (by decide) (by decide) rfl run⟩

end PkgConfig
