import PkgConfig.Parse
import PkgConfig.Verify

/-! The registry of pkg.c: the search path (`add_search_dir`), the directory scan that
maps keys to files (`scan_dir`, `package_init`), and `internal_get_package`, which
interns loaded packages in `packages`. The process-wide tables are a `Registry` passed
from call to call; the file system and the configuration are a `System`. -/

namespace PkgConfig

/-- The world the registry reads: configuration, files, directories and the legacy lookup. -/
structure System where
  env : Env
  files : Bytes → Option (List Char)
  dirs : Bytes → Option (List Bytes)
  pkglibdir : Bytes
  disableUninstalled : Bool
  getCompatPackage : Bytes → Option Package

/-- The static tables of pkg.c, the next `Package` identity, and the globals freed so far. -/
structure Registry where
  packages : Table Package
  locations : Table Bytes
  searchDirs : List Bytes
  initted : Bool
  nextId : Nat
  freed : List Bytes

/-- The tables before any call. -/
def Registry.empty : Registry := ⟨[], [], [], false, 0, []⟩

/-- `add_search_dir`: the directory is prepended. -/
def addSearchDir (st : Registry) (path : Bytes) : Registry :=
  { st with searchDirs := path :: st.searchDirs }

/-- `ends_in_dotpc`. -/
def endsInDotpc (str : Bytes) : Bool := str.length > 3 ∧ ".pc".toList <:+ str

/-- `name_ends_in_uninstalled`. -/
def nameEndsInUninstalled (str : Bytes) : Bool :=
  str.length > 11 ∧ "uninstalled".toList <:+ str

/-- The loop of `scan_dir`: a `.pc` file is recorded under its stem unless already known. -/
def scanEntries (dir : Bytes) : Table Bytes → List Bytes → Table Bytes
  | locations, [] => locations
  | locations, name :: rest =>
    if endsInDotpc name then
      let pkgname := name.take (name.length - 3)
      match locations.lookup pkgname with
      | some _ => scanEntries dir locations rest
      | none => scanEntries dir (locations.insert pkgname (dir ++ '/' :: name)) rest
    else scanEntries dir locations rest

/-- `dirname` without one trailing slash, as `scan_dir` builds file names. -/
def stripTrailingSlash (dirname : Bytes) : Bytes :=
  if dirname.getLast? = some '/' then dirname.dropLast else dirname

/-- `scan_dir`: a directory that cannot be opened is skipped. -/
def scanDir (sys : System) (locations : Table Bytes) (dirname : Bytes) : Table Bytes :=
  match sys.dirs dirname with
  | none => locations
  | some entries => scanEntries (stripTrailingSlash dirname) locations entries

/-- `package_init`: on its first call, scan the search path front to back, then `PKGLIBDIR`. -/
def packageInit (sys : System) (st : Registry) : Registry :=
  if st.initted then st
  else { st with
    initted := true
    packages := []
    locations := scanDir sys (st.searchDirs.foldl (scanDir sys) []) sys.pkglibdir }

/-- Is `name` a `.pc` file whose stem is `key`? -/
def isPcFileOf (key name : Bytes) : Bool := endsInDotpc name ∧ name.take (name.length - 3) = key

/-- The path `scan_dir` records for `key` in `dirname`, if any. -/
def pcFileIn (sys : System) (key dirname : Bytes) : Option Bytes :=
  match sys.dirs dirname with
  | none => none
  | some entries =>
    (entries.find? (isPcFileOf key)).map fun name => stripTrailingSlash dirname ++ '/' :: name

/-- The file of the first directory of `dirs` holding a `.pc` file with stem `key`. -/
def firstPcFile (sys : System) (key : Bytes) : List Bytes → Option Bytes
  | [] => none
  | dirname :: rest => (pcFileIn sys key dirname).or (firstPcFile sys key rest)

theorem lookup_scanEntries (dir key : Bytes) (entries : List Bytes) :
    ∀ locations : Table Bytes, (scanEntries dir locations entries).lookup key =
      (locations.lookup key).or ((entries.find? (isPcFileOf key)).map (dir ++ '/' :: ·)) := by
  induction entries with
  | nil => simp [scanEntries]
  | cons name rest ih =>
    intro locations
    by_cases pc : endsInDotpc name = true
    · simp only [scanEntries, pc, if_true]
      by_cases stem : name.take (name.length - 3) = key
      · subst stem
        have found : isPcFileOf (name.take (name.length - 3)) name = true := by
          simp [isPcFileOf, pc]
        split <;> simp_all
      · have skipped : isPcFileOf key name = false := by simp [isPcFileOf, stem]
        split <;> simp [ih, skipped, Table.lookup_insert_of_ne _ _ stem]
    · have skipped : isPcFileOf key name = false := by simp [isPcFileOf, pc]
      simp [scanEntries, pc, skipped, ih]

theorem lookup_scanDir (sys : System) (locations : Table Bytes) (key dirname : Bytes) :
    (scanDir sys locations dirname).lookup key = (locations.lookup key).or (pcFileIn sys key dirname) := by
  unfold scanDir pcFileIn
  cases sys.dirs dirname <;> simp [lookup_scanEntries]

theorem lookup_foldl_scanDir (sys : System) (key : Bytes) :
    ∀ (dirs : List Bytes) (locations : Table Bytes),
      (dirs.foldl (scanDir sys) locations).lookup key =
        (locations.lookup key).or (firstPcFile sys key dirs)
  | [], locations => by simp [firstPcFile]
  | dirname :: rest, locations => by
    rw [List.foldl_cons, lookup_foldl_scanDir sys key rest, lookup_scanDir, firstPcFile,
      Option.or_assoc]

theorem firstPcFile_append (sys : System) (key : Bytes) (dirs more : List Bytes) :
    firstPcFile sys key (dirs ++ more) = (firstPcFile sys key dirs).or (firstPcFile sys key more) := by
  induction dirs with
  | nil => simp [firstPcFile]
  | cons dirname rest ih => simp [firstPcFile, ih, Option.or_assoc]

theorem searchDirs_foldl_addSearchDir (dirs : List Bytes) (st : Registry) :
    (dirs.foldl addSearchDir st).searchDirs = dirs.reverse ++ st.searchDirs ∧
      (dirs.foldl addSearchDir st).initted = st.initted := by
  induction dirs generalizing st with
  | nil => simp
  | cons dirname rest ih => simp [ih, addSearchDir]

theorem lookup_packageInit (sys : System) {st : Registry} (fresh : st.initted = false)
    (key : Bytes) :
    (packageInit sys st).locations.lookup key =
      firstPcFile sys key (st.searchDirs ++ [sys.pkglibdir]) := by
  simp only [packageInit, fresh, Bool.false_eq_true, if_false, lookup_scanDir,
    lookup_foldl_scanDir, Table.lookup_nil, Option.none_or, firstPcFile_append, firstPcFile,
    Option.or_none]

/-- A key is located in the first of `dn`, ..., `d1`, `PKGLIBDIR` holding its `.pc` file. -/
theorem packageInit_locations (sys : System) (dirs : List Bytes) (key : Bytes) :
    (packageInit sys (dirs.foldl addSearchDir Registry.empty)).locations.lookup key =
      firstPcFile sys key (dirs.reverse ++ [sys.pkglibdir]) := by
  obtain ⟨searched, fresh⟩ := searchDirs_foldl_addSearchDir dirs Registry.empty
  rw [lookup_packageInit sys fresh, searched]
  simp only [Registry.empty, List.append_nil]

/-- Two search directories that both hold `k.pc`. -/
def twoSearchDirs : System where
  env := ⟨true, false, "prefix".toList, [], fun _ => none⟩
  files := fun _ => none
  dirs := fun dir => if dir = "/a".toList ∨ dir = "/b".toList then some ["k.pc".toList] else none
  pkglibdir := "/usr/lib/pkgconfig".toList
  disableUninstalled := false
  getCompatPackage := fun _ => none

/-- `k.pc` in both `/a` and `/b`, added in that order, is located in `/b`. -/
theorem packageInit_last_added_first :
    (packageInit twoSearchDirs (["/a".toList, "/b".toList].foldl addSearchDir Registry.empty)).locations.lookup
      "k".toList = some "/b/k.pc".toList := by decide

theorem endsInDotpc_stem {name : Bytes} (h : endsInDotpc name = true) :
    name.take (name.length - 3) ++ ".pc".toList = name := by
  simp only [endsInDotpc, Bool.decide_and, Bool.and_eq_true, decide_eq_true_eq] at h
  obtain ⟨-, stem, rfl⟩ := h
  simp

theorem isPcFileOf_eq {key name : Bytes} (h : isPcFileOf key name = true) :
    name = key ++ ".pc".toList := by
  simp only [isPcFileOf, Bool.decide_and, Bool.and_eq_true, decide_eq_true_eq] at h
  rw [← h.2, endsInDotpc_stem h.1]

theorem endsInDotpc_append {stem : Bytes} (nonempty : stem ≠ []) :
    endsInDotpc (stem ++ ".pc".toList) = true := by
  have : 0 < stem.length := List.length_pos.2 nonempty
  simp [endsInDotpc, List.suffix_append]
  omega

theorem isPcFileOf_append {stem : Bytes} (nonempty : stem ≠ []) :
    isPcFileOf stem (stem ++ ".pc".toList) = true := by
  rw [isPcFileOf, endsInDotpc_append nonempty]
  simp

theorem pcFileIn_suffix {sys : System} {key dirname path : Bytes}
    (h : pcFileIn sys key dirname = some path) : key ++ ".pc".toList <:+ path := by
  unfold pcFileIn at h
  split at h
  · cases h
  · obtain ⟨name, found, rfl⟩ := Option.map_eq_some'.1 h
    rw [← isPcFileOf_eq (List.find?_some found)]
    exact (List.suffix_cons _ _).trans (List.suffix_append _ _)

theorem firstPcFile_suffix {sys : System} {key path : Bytes} :
    ∀ {dirs : List Bytes}, firstPcFile sys key dirs = some path → key ++ ".pc".toList <:+ path
  | [], h => nomatch h
  | dirname :: rest, h => by
    rw [firstPcFile] at h
    cases found : pcFileIn sys key dirname with
    | none => rw [found, Option.none_or] at h; exact firstPcFile_suffix h
    | some p => rw [found, Option.or_some] at h; cases h; exact pcFileIn_suffix found

theorem packageInit_locations_suffix (sys : System) {st : Registry} (fresh : st.initted = false)
    {key path : Bytes} (h : (packageInit sys st).locations.lookup key = some path) :
    key ++ ".pc".toList <:+ path :=
  firstPcFile_suffix (lookup_packageInit sys fresh key ▸ h)

/-- The key of a package loaded from a `.pc` file name: from the last `/` on, without `.pc`. -/
def pcFileKey (name : Bytes) : Bytes :=
  let stem := name.take (name.length - 3)
  match stem.reverse.span (· ≠ '/') with
  | (_, []) => stem
  | (tail, _) => '/' :: tail.reverse

theorem pcFileKey_suffix (name : Bytes) : pcFileKey name <:+ '/' :: name.take (name.length - 3) := by
  unfold pcFileKey
  generalize name.take (name.length - 3) = stem
  dsimp only
  split
  · exact List.suffix_cons _ _
  · next tail rest nonempty span =>
    rw [List.span_eq_take_drop, Prod.mk.injEq] at span
    obtain ⟨takeEq, dropEq⟩ := span
    obtain ⟨c, rest, rfl⟩ := List.exists_cons_of_ne_nil nonempty
    have slash : c = '/' := by
      have first := List.head?_dropWhile_not (fun x => decide (x ≠ '/')) stem.reverse
      rw [dropEq] at first
      simpa using first
    have whole := List.takeWhile_append_dropWhile (fun x => decide (x ≠ '/')) stem.reverse
    rw [takeEq, dropEq, slash] at whole
    have cut : stem = rest.reverse ++ '/' :: tail.reverse := by
      rw [← List.reverse_reverse stem, ← whole]
      simp
    rw [cut]
    exact (List.suffix_append _ _).trans (List.suffix_cons _ _)

theorem pcFileKey_dir_stem (d s : Bytes) (noSlash : '/' ∉ s) :
    pcFileKey (d ++ '/' :: (s ++ ".pc".toList)) = '/' :: s := by
  have stem : (d ++ '/' :: (s ++ ".pc".toList)).take
      ((d ++ '/' :: (s ++ ".pc".toList)).length - 3) = d ++ '/' :: s := by
    have split : d ++ '/' :: (s ++ ".pc".toList) = (d ++ '/' :: s) ++ ".pc".toList := by simp
    rw [split]
    exact List.take_left' (by simp; omega)
  have plain : ∀ c ∈ s.reverse, decide (c ≠ '/') = true := by
    rintro c mem
    simp only [ne_eq, decide_eq_true_eq]
    rintro rfl
    exact noSlash (List.mem_reverse.1 mem)
  simp only [pcFileKey, stem, List.span_eq_take_drop, List.reverse_append, List.reverse_cons,
    List.append_assoc, List.singleton_append, List.takeWhile_append_of_pos plain,
    List.dropWhile_append_of_pos plain]
  simp

/-- The end of `internal_get_package` once the location is looked up. -/
def loadPackage (sys : System) (st : Registry) (name : Bytes) (location : Option Bytes)
    (isFileName checkCompat : Bool) : Except Fatal (Option Package × Registry) :=
  match location with
  | none =>
    match (if checkCompat then sys.getCompatPackage name else none) with
    | some pkg => pure (some { pkg with id := st.nextId }, { st with nextId := st.nextId + 1 })
    | none => pure (none, st)
  | some location => do
    match ← (parsePackageFile sys.env st.nextId location location (sys.files location)).run st.freed with
    | (none, _) => pure (none, st)
    | (some pkg, freed) =>
      let pkg := { pkg with
        uninstalled := pkg.uninstalled || strstr location "uninstalled.pc".toList
        key := if isFileName then pcFileKey name else name }
      verifyPackage pkg
      pure (some pkg, { st with
        packages := st.packages.insert pkg.key pkg, nextId := st.nextId + 1, freed := freed })

/-- The body of `internal_get_package`; `preferred` looks up `name-uninstalled`. -/
def internalGetPackageWith (sys : System)
    (preferred : Registry → Bytes → Except Fatal (Option Package × Registry))
    (st : Registry) (name : Bytes) (checkCompat : Bool) : Except Fatal (Option Package × Registry) :=
  match st.packages.lookup name with
  | some pkg => pure (some pkg, st)
  | none =>
    if endsInDotpc name then loadPackage sys st name (some name) true checkCompat
    else
      (if !sys.disableUninstalled && !nameEndsInUninstalled name then
          preferred st (name ++ "-uninstalled".toList)
        else pure (none, st)) >>= fun (pkg, st) =>
      match pkg with
      | some pkg => pure (some pkg, st)
      | none => loadPackage sys st name (st.locations.lookup name) false checkCompat

/-- `internal_get_package`, its recursion on `name-uninstalled` bounded by `depth`. -/
def internalGetPackage (sys : System) :
    Nat → Registry → Bytes → Bool → Except Fatal (Option Package × Registry)
  | 0 => internalGetPackageWith sys fun st _ => pure (none, st)
  | depth + 1 => internalGetPackageWith sys fun st name => internalGetPackage sys depth st name false

/-- `get_package`. -/
def getPackage (sys : System) (st : Registry) (name : Bytes) :
    Except Fatal (Option Package × Registry) :=
  internalGetPackage sys 1 st name true

theorem internalGetPackage_depth (sys : System) (depth : Nat) (st : Registry) (name : Bytes)
    (checkCompat : Bool) (ends : nameEndsInUninstalled name = true) :
    internalGetPackage sys depth st name checkCompat =
      internalGetPackage sys 0 st name checkCompat := by
  cases depth <;> simp [internalGetPackage, internalGetPackageWith, ends]

theorem internalGetPackage_file {sys : System} {depth : Nat} {st : Registry} {name : Bytes}
    {checkCompat : Bool} (fresh : st.packages.lookup name = none) (pc : endsInDotpc name = true) :
    internalGetPackage sys depth st name checkCompat =
      loadPackage sys st name (some name) true checkCompat := by
  cases depth <;> simp only [internalGetPackage, internalGetPackageWith, fresh, pc, if_true]

theorem loadPackage_location_key {sys : System} {st st' : Registry} {name loc : Bytes}
    {isFileName checkCompat : Bool} {pkg : Package}
    (h : loadPackage sys st name (some loc) isFileName checkCompat = .ok (some pkg, st')) :
    pkg.key = (if isFileName then pcFileKey name else name) ∧
      st'.packages = st.packages.insert pkg.key pkg := by
  obtain ⟨⟨parsed, freed⟩, -, h⟩ := bind_eq_ok.mp h
  cases parsed with
  | none => cases h
  | some parsed =>
    obtain ⟨⟨⟩, -, h⟩ := bind_eq_ok.mp h
    cases h
    exact ⟨rfl, rfl⟩

end PkgConfig
