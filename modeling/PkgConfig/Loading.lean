import PkgConfig.Descriptor
import PkgConfig.LineEffects
import PkgConfig.Resolution
import PkgConfig.Strictness

/-! Loading descriptors through the registry, in each of the three ways
`internal_get_package` finds a file: the location the scan recorded for a name, the one it
recorded for the name's preferred `-uninstalled` variant, and a `.pc` path asked for. On
a file written from a `Descriptor` the package interned is the one the descriptor
describes: the `.pc` round trip carried through `internal_get_package`. Over every run of
calls, a bound package was read from the file of its key; and strict parsing refines lax
parsing through the registry. -/

namespace PkgConfig

/-- The package `internal_get_package` interns under `key` for the descriptor in `location`. -/
def Descriptor.interned (d : Descriptor) (id : Nat) (key location : Bytes) : Package :=
  { d.toPackage id location location with
    key := key, uninstalled := strstr location "uninstalled.pc".toList }

theorem knownPackage_eq_none {sys : System} {st : Registry} {name : Bytes} :
    knownPackage sys st name = none ↔ st.packages.lookup name = none ∧
      ((!sys.disableUninstalled && !nameEndsInUninstalled name) = true →
        st.packages.lookup (name ++ "-uninstalled".toList) = none) := by
  cases found : st.packages.lookup name with
  | some p => simp [knownPackage_of_found found]
  | none =>
    rw [knownPackage_of_missing found]
    split_ifs with prefer <;> simp [prefer]

theorem getPackage_located {sys : System} {st : Registry} {name location : Bytes}
    (plain : endsInDotpc name = false) (unknown : knownPackage sys st name = none)
    (noVariant : (!sys.disableUninstalled && !nameEndsInUninstalled name) = true →
      st.locations.lookup (name ++ "-uninstalled".toList) = none)
    (located : st.locations.lookup name = some location) :
    getPackage sys st name = loadPackage sys st name (some location) false true := by
  obtain ⟨missing, variantMissing⟩ := knownPackage_eq_none.1 unknown
  rw [getPackage, internalGetPackage, internalGetPackageWith, missing]
  dsimp only
  rw [if_neg (by simp [plain]), ← located]
  by_cases prefer : (!sys.disableUninstalled && !nameEndsInUninstalled name) = true
  · rw [if_pos prefer, internalGetPackage_uninstalled, variantMissing prefer]
    dsimp only
    rw [noVariant prefer]
    rfl
  · rw [if_neg prefer]
    rfl

theorem loadPackage_descriptor {sys : System} {st : Registry} {name location key : Bytes}
    {isFileName checkCompat : Bool} {d : Descriptor}
    (keyed : (if isFileName then pcFileKey name else name) = key)
    (file : sys.files location = some d.render)
    (notPrefix : ∀ k ∈ d.vars.map Assignment.name,
      ¬(sys.env.definePrefix = true ∧ k = sys.env.prefixVariable))
    (named : d.name.isSome) (versioned : d.version.isSome) (described : d.description.isSome) :
    loadPackage sys st name (some location) isFileName checkCompat =
      .ok (some (d.interned st.nextId key location),
        { st with
          packages := st.packages.insert key (d.interned st.nextId key location)
          nextId := st.nextId + 1 }) := by
  subst keyed
  have parsed : (parsePackageFile sys.env st.nextId location location (sys.files location)).run
      st.freed = .ok (some (d.toPackage st.nextId location location), st.freed) := by
    simp only [file, parsePackageFile, readAllLines_render, parseLines_render _ _ _ _ d notPrefix,
      pure_bind]
    simp [Descriptor.toPackage, Package.new0]
  have verified : verifyPackage (d.interned st.nextId
      (if isFileName then pcFileKey name else name) location) = .ok () :=
    (verifyPackage_ok_iff_of_requires_nil rfl).2 <| by
      simpa [Descriptor.interned, Descriptor.toPackage] using ⟨named, versioned, described⟩
  rw [loadPackage, parsed]
  show (verifyPackage (d.interned st.nextId
    (if isFileName then pcFileKey name else name) location) >>= fun _ => pure _) = _
  rw [verified]
  rfl

/-- A located name's descriptor is loaded, interned under the name as the next object. -/
theorem getPackage_descriptor (sys : System) (st : Registry) (name location : Bytes)
    (d : Descriptor) (plain : endsInDotpc name = false)
    (unknown : knownPackage sys st name = none)
    (noVariant : (!sys.disableUninstalled && !nameEndsInUninstalled name) = true →
      st.locations.lookup (name ++ "-uninstalled".toList) = none)
    (located : st.locations.lookup name = some location)
    (file : sys.files location = some d.render)
    (notPrefix : ∀ k ∈ d.vars.map Assignment.name,
      ¬(sys.env.definePrefix = true ∧ k = sys.env.prefixVariable))
    (named : d.name.isSome) (versioned : d.version.isSome) (described : d.description.isSome) :
    getPackage sys st name = .ok (some (d.interned st.nextId name location),
      { st with
        packages := st.packages.insert name (d.interned st.nextId name location)
        nextId := st.nextId + 1 }) := by
  rw [getPackage_located plain unknown noVariant located,
    loadPackage_descriptor (if_neg (by decide : false ≠ true)) file notPrefix named versioned
      described]

/-- `Name: foo`, `Version: 1.2`, `Description: d` and `Requires: glib-2.0 >= 2.1`. -/
def describedFoo : Descriptor where
  vars := []
  name := some ⟨"foo".toList, by decide, by decide, by decide⟩
  version := some ⟨"1.2".toList, by decide, by decide, by decide⟩
  description := some ⟨"d".toList, by decide, by decide, by decide⟩
  url := none
  requires := ⟨[glibEntry], by decide⟩
  requiresPrivate := ⟨[], by simp⟩
  conflicts := ⟨[], by simp⟩
  distinct := by decide
  notPcfiledir := by decide

/-- The directory `/d` holding `describedFoo` as `foo.pc`. -/
def describedFooFiles : List (Bytes × List Char) := [("foo.pc".toList, describedFoo.render)]

theorem getPackage_descriptor_foo :
    endsInDotpc "foo".toList = false ∧
      knownPackage (demoSystem describedFooFiles) (demoStart describedFooFiles) "foo".toList = none ∧
      (demoStart describedFooFiles).locations.lookup "foo".toList = some "/d/foo.pc".toList ∧
      getPackage (demoSystem describedFooFiles) (demoStart describedFooFiles) "foo".toList =
        .ok (some (describedFoo.interned 0 "foo".toList "/d/foo.pc".toList),
          { demoStart describedFooFiles with
            packages := [("foo".toList, describedFoo.interned 0 "foo".toList "/d/foo.pc".toList)]
            nextId := 1 }) :=
  ⟨by decide, rfl, by decide,
    getPackage_descriptor _ _ _ _ _ (by decide) rfl (by decide) (by decide) (by decide)
      (by decide) rfl rfl rfl⟩

/-- A preferred `-uninstalled` variant's descriptor is loaded and interned under its name. -/
theorem getPackage_uninstalled_descriptor (sys : System) (st : Registry) (name location : Bytes)
    (d : Descriptor) (plain : endsInDotpc name = false)
    (prefer : (!sys.disableUninstalled && !nameEndsInUninstalled name) = true)
    (unknown : knownPackage sys st name = none)
    (located : st.locations.lookup (name ++ "-uninstalled".toList) = some location)
    (file : sys.files location = some d.render)
    (notPrefix : ∀ k ∈ d.vars.map Assignment.name,
      ¬(sys.env.definePrefix = true ∧ k = sys.env.prefixVariable))
    (named : d.name.isSome) (versioned : d.version.isSome) (described : d.description.isSome) :
    getPackage sys st name =
      .ok (some (d.interned st.nextId (name ++ "-uninstalled".toList) location),
        { st with
          packages := st.packages.insert (name ++ "-uninstalled".toList)
            (d.interned st.nextId (name ++ "-uninstalled".toList) location)
          nextId := st.nextId + 1 }) := by
  obtain ⟨missing, variantMissing⟩ := knownPackage_eq_none.1 unknown
  rw [getPackage, internalGetPackage, internalGetPackageWith, missing]
  dsimp only
  rw [if_neg (by simp [plain]), if_pos prefer, internalGetPackage_uninstalled,
    variantMissing prefer]
  dsimp only
  rw [located, loadPackage_descriptor (if_neg (by decide : false ≠ true)) file notPrefix named
    versioned described]
  rfl

/-- `/d` holding `describedFoo` as `foo-uninstalled.pc`, and a `foo.pc` never read. -/
def describedFooUninstalled : List (Bytes × List Char) :=
  [("foo-uninstalled.pc".toList, describedFoo.render), ("foo.pc".toList, [])]

theorem getPackage_uninstalled_descriptor_foo :
    (!(demoSystem describedFooUninstalled).disableUninstalled &&
        !nameEndsInUninstalled "foo".toList) = true ∧
      (demoStart describedFooUninstalled).locations.lookup "foo-uninstalled".toList =
        some "/d/foo-uninstalled.pc".toList ∧
      getPackage (demoSystem describedFooUninstalled) (demoStart describedFooUninstalled)
          "foo".toList =
        .ok (some (describedFoo.interned 0 "foo-uninstalled".toList "/d/foo-uninstalled.pc".toList),
          { demoStart describedFooUninstalled with
            packages := [("foo-uninstalled".toList,
              describedFoo.interned 0 "foo-uninstalled".toList "/d/foo-uninstalled.pc".toList)]
            nextId := 1 }) ∧
      (describedFoo.interned 0 "foo-uninstalled".toList "/d/foo-uninstalled.pc".toList).uninstalled =
        true :=
  ⟨by decide, by decide,
    getPackage_uninstalled_descriptor _ _ _ _ _ (by decide) (by decide) rfl (by decide)
      (by decide) (by decide) rfl rfl rfl, by decide⟩

/-- A `.pc` path's descriptor is loaded, whatever the scan found, under the stripped key. -/
theorem getPackage_pcFile_descriptor (sys : System) (st : Registry) (path : Bytes)
    (d : Descriptor) (pc : endsInDotpc path = true) (unbound : st.packages.lookup path = none)
    (file : sys.files path = some d.render)
    (notPrefix : ∀ k ∈ d.vars.map Assignment.name,
      ¬(sys.env.definePrefix = true ∧ k = sys.env.prefixVariable))
    (named : d.name.isSome) (versioned : d.version.isSome) (described : d.description.isSome) :
    getPackage sys st path = .ok (some (d.interned st.nextId (pcFileKey path) path),
      { st with
        packages := st.packages.insert (pcFileKey path) (d.interned st.nextId (pcFileKey path) path)
        nextId := st.nextId + 1 }) := by
  rw [getPackage, internalGetPackage_file unbound pc,
    loadPackage_descriptor (if_pos rfl) file notPrefix named versioned described]

theorem getPackage_pcFile_descriptor_foo :
    endsInDotpc "/d/foo.pc".toList = true ∧ pcFileKey "/d/foo.pc".toList = "/foo".toList ∧
      getPackage (demoSystem describedFooFiles) (demoStart describedFooFiles) "/d/foo.pc".toList =
        .ok (some (describedFoo.interned 0 (pcFileKey "/d/foo.pc".toList) "/d/foo.pc".toList),
          { demoStart describedFooFiles with
            packages := [(pcFileKey "/d/foo.pc".toList,
              describedFoo.interned 0 (pcFileKey "/d/foo.pc".toList) "/d/foo.pc".toList)]
            nextId := 1 }) :=
  ⟨by decide, by decide,
    getPackage_pcFile_descriptor _ _ _ _ (by decide) rfl (by decide) (by decide) rfl rfl rfl⟩

/-! Where the packages in `packages` come from. `internal_get_package` binds a package
only after reading it from the location the scan recorded for the key, or from the `.pc`
path it was asked for; the legacy fallback binds nothing. -/

/-- Every bound package was read from its key's recorded file or from a `.pc` path. -/
def ReadFromLocations (locations : Table Bytes) (st : Registry) : Prop :=
  ∀ key pkg, st.packages.lookup key = some pkg → ∃ loc,
    (locations.lookup key = some loc ∨ endsInDotpc loc = true ∧ pcFileKey loc = key) ∧
      pkg.pcfiledir = some (gPathGetDirname loc)

theorem parsePackageFile_dir {env : Env} {id : Nat} {key path : Bytes}
    {contents : Option (List Char)} {freed freed' : List Bytes} {pkg : Package}
    (h : (parsePackageFile env id key path contents).run freed = .ok (some pkg, freed')) :
    pkg.pcfiledir = some (gPathGetDirname path) := by
  cases contents with
  | none => cases h
  | some stream =>
    obtain ⟨parsed, s, lines, done⟩ := Proc.run_bind_eq_ok.mp h
    cases done
    exact (keepsSettled_parseLines _ _ _ parsed _ lines).pcfiledir

theorem loadPackage_readFrom {sys : System} {locations : Table Bytes} {st st' : Registry}
    {name : Bytes} {location : Option Bytes} {isFileName checkCompat : Bool}
    {r : Option Package} (inv : st.locations = locations ∧ ReadFromLocations locations st)
    (h : loadPackage sys st name location isFileName checkCompat = .ok (r, st'))
    (source : ∀ loc, location = some loc →
      locations.lookup (if isFileName then pcFileKey name else name) = some loc ∨
        endsInDotpc loc = true ∧ pcFileKey loc = (if isFileName then pcFileKey name else name)) :
    (st'.locations = locations ∧ ReadFromLocations locations st') ∧ ∀ _ ∈ r, True := by
  refine ⟨?_, fun _ _ => trivial⟩
  unfold loadPackage at h
  generalize (if isFileName then pcFileKey name else name) = key at h source
  split at h
  · split at h <;> cases h <;> exact inv
  · rename_i loc
    obtain ⟨⟨parsed, freed⟩, parse, h⟩ := bind_eq_ok.mp h
    cases parsed with
    | none => cases h; exact inv
    | some pkg =>
      obtain ⟨⟨⟩, -, h⟩ := bind_eq_ok.mp h
      cases h
      refine ⟨inv.1, fun k p found => ?_⟩
      rw [Table.lookup_insert_eq] at found
      by_cases same : key = k
      · rw [if_pos same] at found
        cases found
        subst same
        exact ⟨loc, source loc rfl, @parsePackageFile_dir _ _ _ _ _ _ _ pkg parse⟩
      · rw [if_neg same] at found
        exact inv.2 k p found

/-- Over any run of calls, every bound package was read from the file recorded for its key. -/
theorem packages_read_from_locations {sys : System} {st₀ st : Registry}
    (fresh : st₀.initted = false)
    (run : Relation.ReflTransGen (GetPackageStep sys) (packageInit sys st₀) st)
    {key : Bytes} {pkg : Package} (bound : st.packages.lookup key = some pkg) :
    st.locations = (packageInit sys st₀).locations ∧ ∃ loc,
      ((packageInit sys st₀).locations.lookup key = some loc ∨
        endsInDotpc loc = true ∧ pcFileKey loc = key) ∧
      pkg.pcfiledir = some (gPathGetDirname loc) := by
  have inv := getPackage_run_invariant (fun st => st.locations = (packageInit sys st₀).locations ∧
      ReadFromLocations (packageInit sys st₀).locations st) (fun _ => True) (fun _ _ => trivial)
    (fun inv pc h => loadPackage_readFrom inv h fun _ isLoc => by
      cases isLoc
      exact .inr ⟨pc, rfl⟩)
    (fun inv h => loadPackage_readFrom inv h fun _ isLoc => .inl (by rw [← inv.1]; exact isLoc))
    run ⟨rfl, fun _ _ found => by simp [packageInit, fresh] at found⟩
  exact ⟨inv.1, inv.2 key pkg bound⟩

theorem packages_read_from_locations_libsOnly :
    libsOnlyAfter.packages.lookup "foo".toList = some libsOnlyLoaded ∧
      libsOnlyAfter.locations = (demoStart libsOnly).locations ∧ ∃ loc,
        ((demoStart libsOnly).locations.lookup "foo".toList = some loc ∨
          endsInDotpc loc = true ∧ pcFileKey loc = "foo".toList) ∧
        libsOnlyLoaded.pcfiledir = some (gPathGetDirname loc) :=
  ⟨rfl, @packages_read_from_locations (demoSystem libsOnly) (addSearchDir Registry.empty "/d".toList)
    _ rfl (.single ⟨_, _, getPackage_libsOnly⟩) _ _ rfl⟩

/-! Strict parsing refines lax parsing through the registry: `parse_strict` only adds
ways for `parse_package_file` to exit, and nothing else `internal_get_package` does
reads it. -/

/-- The same system with `parse_strict` unset. -/
def System.lax (sys : System) : System := { sys with env := sys.env.lax }

theorem loadPackage_lax {sys : System} {st : Registry} {name : Bytes} {location : Option Bytes}
    {isFileName checkCompat : Bool} :
    Agrees (loadPackage sys st name location isFileName checkCompat)
      (loadPackage sys.lax st name location isFileName checkCompat) := by
  cases location with
  | none => exact agrees_refl _
  | some location =>
    simp only [loadPackage, System.lax]
    refine agrees_bind ?_ fun _ => agrees_refl _
    unfold parsePackageFile
    split
    · exact agrees_refl _
    · exact runAgrees_bind (parseLines_lax _ _) (fun _ => runAgrees_refl _) st.freed

theorem internalGetPackageWith_lax {sys : System}
    {preferred preferred' : Registry → Bytes → Except Fatal (Option Package × Registry)}
    (agree : ∀ st name, Agrees (preferred st name) (preferred' st name))
    (st : Registry) (name : Bytes) (checkCompat : Bool) :
    Agrees (internalGetPackageWith sys preferred st name checkCompat)
      (internalGetPackageWith sys.lax preferred' st name checkCompat) := by
  unfold internalGetPackageWith
  split
  · exact agrees_refl _
  · refine agrees_ite (fun _ => loadPackage_lax) fun _ =>
      agrees_bind (agrees_ite (fun _ => agree _ _) fun _ => agrees_refl _) fun ⟨pkg, mid⟩ => ?_
    cases pkg with
    | some pkg => exact agrees_refl _
    | none => exact loadPackage_lax

theorem internalGetPackage_lax {sys : System} (depth : Nat) :
    ∀ (st : Registry) (name : Bytes) (checkCompat : Bool),
      Agrees (internalGetPackage sys depth st name checkCompat)
        (internalGetPackage sys.lax depth st name checkCompat) := by
  induction depth with
  | zero => exact internalGetPackageWith_lax fun _ _ => agrees_refl _
  | succ depth ih => exact internalGetPackageWith_lax fun st name => ih st name false

/-- A `get_package` call that returns in strict mode returns the same in lax mode. -/
theorem getPackage_lax_of_strict (sys : System) (st : Registry) (name : Bytes)
    {r : Option Package × Registry} (accepted : getPackage sys st name = .ok r) :
    getPackage sys.lax st name = .ok r :=
  internalGetPackage_lax 1 st name true r accepted

theorem getPackage_lax_of_strict_unmet :
    getPackage (demoSystem unmetRequires) (demoStart unmetRequires) "a".toList =
        .ok (some unmetA, unmetAfterA) ∧
      getPackage (demoSystem unmetRequires).lax (demoStart unmetRequires) "a".toList =
        .ok (some unmetA, unmetAfterA) :=
  ⟨getPackage_unmetRequires_a, getPackage_lax_of_strict _ _ _ getPackage_unmetRequires_a⟩

end PkgConfig
