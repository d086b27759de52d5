import Mathlib.Data.List.Dedup
import PkgConfig.Package

/-! The merger of pkg.c: `recursive_fill_list` walks a package and its requires in
depth-first pre-order, the two `string_list_strip_duplicates` passes keep the first or
the last occurrence of each string, and the `get_merged` family joins the result.
The main result here is that the from-back merge of `-l` flags puts every library
before the libraries it depends on, over every descriptor graph. -/

namespace PkgConfig

/-- `get_l_libs`. -/
def getlLibs (pkg : Package) : List Bytes := pkg.lLibs

/-- `get_L_libs`. -/
def getLLibs (pkg : Package) : List Bytes := pkg.LLibs

/-- `get_I_cflags`. -/
def getICflags (pkg : Package) : List Bytes := pkg.ICflags

/-- `get_conflicts`. -/
def getConflicts (pkg : Package) : List RequiredVersion := pkg.conflicts

/-- `get_requires`. -/
def getRequires (pkg : Package) : List Package := pkg.requires

mutual
/-- `recursive_fill_list`: append `func pkg`, then recurse over `pkg->requires`. -/
def recursiveFillList {α : Type} (func : Package → List α) : Package → List α → List α
  | pkg@{ requires := reqs, .. }, listp => recursiveFillLists func reqs (listp ++ func pkg)

/-- The `while (tmp != NULL)` loop calling `recursive_fill_list` on each package. -/
def recursiveFillLists {α : Type} (func : Package → List α) : List Package → List α → List α
  | [], listp => listp
  | pkg :: rest, listp => recursiveFillLists func rest (recursiveFillList func pkg listp)
end

mutual
/-- The packages `recursive_fill_list` visits from `pkg`, in order. -/
def Package.walk : Package → List Package
  | pkg@{ requires := reqs, .. } => pkg :: Package.walkList reqs

/-- The packages visited from each package of a list, in order. -/
def Package.walkList : List Package → List Package
  | [] => []
  | pkg :: rest => pkg.walk ++ Package.walkList rest
end

@[simp] theorem Package.walk_eq (pkg : Package) :
    pkg.walk = pkg :: Package.walkList pkg.requires := by
  cases pkg; rfl

@[simp] theorem Package.walkList_nil : Package.walkList [] = [] := rfl

@[simp] theorem Package.walkList_cons (pkg : Package) (rest : List Package) :
    Package.walkList (pkg :: rest) = pkg.walk ++ Package.walkList rest := rfl

mutual
theorem recursiveFillList_eq {α : Type} (func : Package → List α) :
    ∀ (pkg : Package) (listp : List α),
      recursiveFillList func pkg listp = listp ++ pkg.walk.flatMap func
  | pkg@{ requires := reqs, .. }, listp => by
    rw [recursiveFillList, recursiveFillLists_eq func reqs, Package.walk_eq]
    simp

theorem recursiveFillLists_eq {α : Type} (func : Package → List α) :
    ∀ (pkgs : List Package) (listp : List α),
      recursiveFillLists func pkgs listp = listp ++ (Package.walkList pkgs).flatMap func
  | [], listp => by simp [recursiveFillLists]
  | pkg :: rest, listp => by
    rw [recursiveFillLists, recursiveFillLists_eq func rest, recursiveFillList_eq func pkg]
    simp
end

mutual
theorem Package.walk_last_visit :
    ∀ (root P Q : Package), P ∈ root.walk → Q ∈ Package.walkList P.requires →
      ∃ W1 W2, root.walk = W1 ++ P :: W2 ∧ P ∉ W2 ∧ Q ∈ W2
  | { requires := reqs, .. }, P, Q, reached, dependency => by
    rw [Package.walk_eq] at reached ⊢
    by_cases below : P ∈ Package.walkList reqs
    · obtain ⟨W1, W2, split, last, after⟩ :=
        Package.walkList_last_visit reqs P Q below dependency
      exact ⟨_ :: W1, W2, by rw [split]; rfl, last, after⟩
    · have top := List.mem_cons.1 reached
      obtain top | below' := top
      · subst top
        exact ⟨[], _, rfl, below, dependency⟩
      · exact absurd below' below

theorem Package.walkList_last_visit :
    ∀ (pkgs : List Package) (P Q : Package), P ∈ Package.walkList pkgs →
      Q ∈ Package.walkList P.requires →
      ∃ W1 W2, Package.walkList pkgs = W1 ++ P :: W2 ∧ P ∉ W2 ∧ Q ∈ W2
  | [], _, _, reached, _ => by simp at reached
  | pkg :: rest, P, Q, reached, dependency => by
    rw [Package.walkList_cons] at reached ⊢
    by_cases later : P ∈ Package.walkList rest
    · obtain ⟨W1, W2, split, last, after⟩ :=
        Package.walkList_last_visit rest P Q later dependency
      exact ⟨pkg.walk ++ W1, W2, by rw [split, List.append_assoc], last, after⟩
    · have here : P ∈ pkg.walk := by simpa [later] using reached
      obtain ⟨W1, W2, split, last, after⟩ := Package.walk_last_visit pkg P Q here dependency
      exact ⟨W1, W2 ++ Package.walkList rest, by rw [split]; simp, by simp [last, later],
        List.mem_append_left _ after⟩
end

mutual
theorem Package.mem_walk_iff :
    ∀ (pkg x : Package), x ∈ pkg.walk ↔ x = pkg ∨ ∃ y ∈ pkg.walk, x ∈ y.requires
  | { requires := reqs, .. }, x => by
    simp [Package.mem_walkList_iff reqs x]

theorem Package.mem_walkList_iff :
    ∀ (pkgs : List Package) (x : Package),
      x ∈ Package.walkList pkgs ↔ x ∈ pkgs ∨ ∃ y ∈ Package.walkList pkgs, x ∈ y.requires
  | [], x => by simp
  | pkg :: rest, x => by
    rw [Package.walkList_cons, List.mem_append, Package.mem_walk_iff pkg x,
      Package.mem_walkList_iff rest x]
    simp only [List.mem_cons, List.mem_append, or_and_right, exists_or]
    exact or_or_or_comm
end

theorem mem_recursiveFillList_getRequires (pkg x : Package) :
    x ∈ recursiveFillList getRequires pkg [] ↔ x ∈ Package.walkList pkg.requires := by
  simp [recursiveFillList_eq, getRequires, Package.mem_walkList_iff pkg.requires x]

/-- The loop of `string_list_strip_duplicates`; `nodups` is what the hash table holds. -/
def stripDuplicatesLoop : List Bytes → List Bytes → List Bytes
  | nodups, [] => nodups
  | nodups, s :: rest => stripDuplicatesLoop (if s ∈ nodups then nodups else s :: nodups) rest

/-- `string_list_strip_duplicates`: the first occurrence of each string survives. -/
def stringListStripDuplicates (list : List Bytes) : List Bytes :=
  (stripDuplicatesLoop [] list).reverse

/-- `string_list_strip_duplicates_from_back`: the loop over the reversed list. -/
def stringListStripDuplicatesFromBack (list : List Bytes) : List Bytes :=
  stripDuplicatesLoop [] list.reverse

/-- `string_list_to_string`: each string followed by one space. -/
def stringListToString (list : List Bytes) : Bytes := list.flatMap (· ++ [' '])

theorem stripDuplicatesLoop_append (nodups l1 l2 : List Bytes) :
    stripDuplicatesLoop nodups (l1 ++ l2) =
      stripDuplicatesLoop (stripDuplicatesLoop nodups l1) l2 := by
  induction l1 generalizing nodups with
  | nil => rfl
  | cons s rest ih => exact ih _

theorem stripDuplicatesLoop_suffix (nodups l : List Bytes) :
    ∃ fresh, stripDuplicatesLoop nodups l = fresh ++ nodups := by
  induction l generalizing nodups with
  | nil => exact ⟨[], rfl⟩
  | cons s rest ih =>
    by_cases seen : s ∈ nodups
    · obtain ⟨fresh, eq⟩ := ih nodups
      exact ⟨fresh, by simp [stripDuplicatesLoop, seen, eq]⟩
    · obtain ⟨fresh, eq⟩ := ih (s :: nodups)
      exact ⟨fresh ++ [s], by simp [stripDuplicatesLoop, seen, eq]⟩

@[simp] theorem mem_stripDuplicatesLoop (nodups l : List Bytes) (s : Bytes) :
    s ∈ stripDuplicatesLoop nodups l ↔ s ∈ l ∨ s ∈ nodups := by
  induction l generalizing nodups with
  | nil => simp [stripDuplicatesLoop]
  | cons t rest ih =>
    by_cases seen : t ∈ nodups <;> simp only [stripDuplicatesLoop, seen, ih] <;>
      by_cases st : s = t <;> simp_all

theorem stripDuplicatesLoop_reverse (nodups l : List Bytes) :
    stripDuplicatesLoop nodups l.reverse = l.dedup.filter (· ∉ nodups) ++ nodups := by
  induction l with
  | nil => simp [stripDuplicatesLoop]
  | cons s rest ih =>
    rw [List.reverse_cons, stripDuplicatesLoop_append, ih]
    by_cases later : s ∈ rest
    · simp [stripDuplicatesLoop, List.dedup_cons_of_mem later, later]
    · by_cases seen : s ∈ nodups
      · simp [stripDuplicatesLoop, List.dedup_cons_of_not_mem later, seen]
      · simp [stripDuplicatesLoop, List.dedup_cons_of_not_mem later, seen, later]

theorem stringListStripDuplicatesFromBack_eq_dedup (list : List Bytes) :
    stringListStripDuplicatesFromBack list = list.dedup := by
  simpa using stripDuplicatesLoop_reverse [] list

/-- The strings of a list, each kept only at its first occurrence. -/
def firstOccurrences : List Bytes → List Bytes
  | [] => []
  | s :: rest => s :: (firstOccurrences rest).filter (· ≠ s)

/-- The strings of a list, each kept only at its last occurrence. -/
def lastOccurrences : List Bytes → List Bytes
  | [] => []
  | s :: rest => if s ∈ rest then lastOccurrences rest else s :: lastOccurrences rest

/-- The list a merge hands on: each string of `walk` once, at the occurrence `keep` picks. -/
def MergedFrom (keep : List Bytes → List Bytes) (walk out : List Bytes) : Prop :=
  out = keep walk ∧ out.Nodup ∧ (∀ s, s ∈ out ↔ s ∈ walk) ∧ out.Sublist walk

theorem lastOccurrences_eq_dedup (l : List Bytes) : lastOccurrences l = l.dedup := by
  induction l with
  | nil => rfl
  | cons s rest ih =>
    by_cases later : s ∈ rest
    · rw [lastOccurrences, if_pos later, ih, List.dedup_cons_of_mem later]
    · rw [lastOccurrences, if_neg later, ih, List.dedup_cons_of_not_mem later]

theorem stripDuplicatesLoop_eq (nodups l : List Bytes) :
    stripDuplicatesLoop nodups l = ((firstOccurrences l).filter (· ∉ nodups)).reverse ++ nodups := by
  induction l generalizing nodups with
  | nil => rfl
  | cons s rest ih =>
    by_cases seen : s ∈ nodups
    · simp [stripDuplicatesLoop, seen, ih, firstOccurrences, List.filter_filter]
      exact List.filter_congr fun x _ => by by_cases same : x = s <;> simp [same, seen]
    · simp [stripDuplicatesLoop, seen, ih, firstOccurrences, List.filter_filter]
      exact List.filter_congr fun x _ => Bool.and_comm _ _

theorem firstOccurrences_spec (l : List Bytes) :
    (firstOccurrences l).Nodup ∧ (∀ s, s ∈ firstOccurrences l ↔ s ∈ l) ∧
      (firstOccurrences l).Sublist l := by
  induction l with
  | nil => simp [firstOccurrences]
  | cons s rest ih =>
    obtain ⟨nodup, mem, sub⟩ := ih
    refine ⟨List.nodup_cons.2 ⟨by simp, nodup.filter _⟩, fun t => ?_,
      ((List.filter_sublist _).trans sub).cons₂ s⟩
    by_cases same : t = s <;> simp [firstOccurrences, same, mem]

theorem firstOccurrences_mergedFrom (walk : List Bytes) :
    MergedFrom firstOccurrences walk (stringListStripDuplicates walk) := by
  have strip : stringListStripDuplicates walk = firstOccurrences walk := by
    simp [stringListStripDuplicates, stripDuplicatesLoop_eq]
  rw [strip]
  exact ⟨rfl, firstOccurrences_spec walk⟩

theorem lastOccurrences_mergedFrom (walk : List Bytes) :
    MergedFrom lastOccurrences walk (stringListStripDuplicatesFromBack walk) := by
  rw [stringListStripDuplicatesFromBack_eq_dedup]
  exact ⟨(lastOccurrences_eq_dedup walk).symm, List.nodup_dedup walk, fun _ => List.mem_dedup,
    List.dedup_sublist walk⟩

theorem stripDuplicatesFromBack_before {M N : List Bytes} {f g : Bytes}
    (early : f ∈ M) (notLate : f ∉ N) (late : g ∈ N) :
    List.Sublist [f, g] (stringListStripDuplicatesFromBack (M ++ N)) := by
  rw [stringListStripDuplicatesFromBack, List.reverse_append, stripDuplicatesLoop_append]
  obtain ⟨fresh, eq⟩ := stripDuplicatesLoop_suffix (stripDuplicatesLoop [] N.reverse) M.reverse
  have inFresh : f ∈ fresh := by
    have := (mem_stripDuplicatesLoop (stripDuplicatesLoop [] N.reverse) M.reverse f).2
      (.inl (List.mem_reverse.2 early))
    simpa [eq, notLate] using this
  rw [eq]
  exact List.Sublist.append (List.singleton_sublist.2 inFresh)
    (List.singleton_sublist.2 (by simpa using late))

/-- The list `get_multi_merged_from_back` hands to `string_list_to_string`. -/
def multiMergedFromBackList (pkgs : List Package) (func : Package → List Bytes) : List Bytes :=
  stringListStripDuplicatesFromBack (recursiveFillLists func pkgs [])

/-- The list `get_multi_merged` hands to `string_list_to_string`. -/
def multiMergedList (pkgs : List Package) (func : Package → List Bytes) : List Bytes :=
  stringListStripDuplicates (recursiveFillLists func pkgs [])

/-- The list `get_merged_from_back` hands to `string_list_to_string`. -/
def mergedFromBackList (pkg : Package) (func : Package → List Bytes) : List Bytes :=
  stringListStripDuplicatesFromBack (recursiveFillList func pkg [])

/-- The list `get_merged` hands to `string_list_to_string`. -/
def mergedList (pkg : Package) (func : Package → List Bytes) : List Bytes :=
  stringListStripDuplicates (recursiveFillList func pkg [])

/-- `get_multi_merged_from_back`. -/
def getMultiMergedFromBack (pkgs : List Package) (func : Package → List Bytes) : Bytes :=
  stringListToString (multiMergedFromBackList pkgs func)

/-- `get_multi_merged`. -/
def getMultiMerged (pkgs : List Package) (func : Package → List Bytes) : Bytes :=
  stringListToString (multiMergedList pkgs func)

/-- `get_merged_from_back`. -/
def getMergedFromBack (pkg : Package) (func : Package → List Bytes) : Bytes :=
  stringListToString (mergedFromBackList pkg func)

/-- `get_merged`. -/
def getMerged (pkg : Package) (func : Package → List Bytes) : Bytes :=
  stringListToString (mergedList pkg func)

/-- Each merge joins a list holding each string of the walk once, in walk order. -/
theorem merged_lists_occurrences (func : Package → List Bytes) (pkgs : List Package)
    (pkg : Package) :
    (getMultiMerged pkgs func = stringListToString (multiMergedList pkgs func) ∧
      MergedFrom firstOccurrences ((Package.walkList pkgs).flatMap func) (multiMergedList pkgs func)) ∧
    (getMultiMergedFromBack pkgs func = stringListToString (multiMergedFromBackList pkgs func) ∧
      MergedFrom lastOccurrences ((Package.walkList pkgs).flatMap func)
        (multiMergedFromBackList pkgs func)) ∧
    (getMerged pkg func = stringListToString (mergedList pkg func) ∧
      MergedFrom firstOccurrences (pkg.walk.flatMap func) (mergedList pkg func)) ∧
    (getMergedFromBack pkg func = stringListToString (mergedFromBackList pkg func) ∧
      MergedFrom lastOccurrences (pkg.walk.flatMap func) (mergedFromBackList pkg func)) := by
  simp only [getMultiMerged, getMultiMergedFromBack, getMerged, getMergedFromBack, multiMergedList,
    multiMergedFromBackList, mergedList, mergedFromBackList, recursiveFillLists_eq,
    recursiveFillList_eq, List.nil_append, true_and]
  exact ⟨firstOccurrences_mergedFrom _, lastOccurrences_mergedFrom _,
    firstOccurrences_mergedFrom _, lastOccurrences_mergedFrom _⟩

/-- The memoised accessors: the merged string is computed once and kept in `cache`. -/
def packageGetCached (cache : Package → Option Bytes) (store : Package → Bytes → Package)
    (merge : Package → Bytes) (pkg : Package) : Bytes × Package :=
  match cache pkg with
  | some merged => (merged, pkg)
  | none => (merge pkg, store pkg (merge pkg))

/-- `package_get_l_libs`. -/
def packageGetlLibs : Package → Bytes × Package :=
  packageGetCached Package.lLibsMerged (fun pkg merged => { pkg with lLibsMerged := some merged })
    fun pkg => getMergedFromBack pkg getlLibs

/-- `packages_get_l_libs`. -/
def packagesGetlLibs (pkgs : List Package) : Bytes := getMultiMergedFromBack pkgs getlLibs

/-- `package_get_L_libs`. -/
def packageGetLLibs : Package → Bytes × Package :=
  packageGetCached Package.LLibsMerged (fun pkg merged => { pkg with LLibsMerged := some merged })
    fun pkg => getMerged pkg getLLibs

/-- `packages_get_L_libs`. -/
def packagesGetLLibs (pkgs : List Package) : Bytes := getMultiMerged pkgs getLLibs

/-- `package_get_I_cflags`. -/
def packageGetICflags : Package → Bytes × Package :=
  packageGetCached Package.ICflagsMerged
    (fun pkg merged => { pkg with ICflagsMerged := some merged }) fun pkg => getMerged pkg getICflags

/-- `packages_get_I_cflags`. -/
def packagesGetICflags (pkgs : List Package) : Bytes := getMultiMerged pkgs getICflags

/-- `packages_get_other_libs` and `packages_get_other_cflags`: each string and a space. -/
def packagesGetOther (field : Package → Option Bytes) : List Package → Bytes
  | [] => []
  | pkg :: rest =>
    (match field pkg with
      | some other => other ++ [' ']
      | none => []) ++ packagesGetOther field rest

/-- `packages_get_other_libs`. -/
def packagesGetOtherLibs (pkgs : List Package) : Bytes := packagesGetOther Package.otherLibs pkgs

/-- `packages_get_other_cflags`. -/
def packagesGetOtherCflags (pkgs : List Package) : Bytes :=
  packagesGetOther Package.otherCflags pkgs

/-- `packages_get_all_libs`: other libs, then `-L`, then `-l`. -/
def packagesGetAllLibs (pkgs : List Package) : Bytes :=
  packagesGetOtherLibs pkgs ++ packagesGetLLibs pkgs ++ packagesGetlLibs pkgs

/-- `packages_get_all_cflags`: other cflags, then `-I`. -/
def packagesGetAllCflags (pkgs : List Package) : Bytes :=
  packagesGetOtherCflags pkgs ++ packagesGetICflags pkgs

/-- In the from-back `-l` merge a library only `P` lists precedes those `P` depends on. -/
theorem multiMergedFromBackList_dependency_order (pkgs : List Package) (P Q : Package)
    (f g : Bytes) (reached : P ∈ Package.walkList pkgs)
    (dependency : Q ∈ Package.walkList P.requires) (own : f ∈ P.lLibs)
    (unique : ∀ R ∈ Package.walkList pkgs, R ≠ P → f ∉ R.lLibs) (needed : g ∈ Q.lLibs) :
    List.Sublist [f, g] (multiMergedFromBackList pkgs getlLibs) ∧
      (multiMergedFromBackList pkgs getlLibs).Nodup := by
  refine ⟨?_, by simpa only [multiMergedFromBackList, stringListStripDuplicatesFromBack_eq_dedup]
    using List.nodup_dedup _⟩
  obtain ⟨W1, W2, split, last, after⟩ := Package.walkList_last_visit pkgs P Q reached dependency
  have notLate : f ∉ W2.flatMap getlLibs := by
    simp only [List.mem_flatMap, not_exists, not_and]
    intro R member
    exact unique R (by simp [split, member]) (fun same => last (same ▸ member))
  rw [multiMergedFromBackList, recursiveFillLists_eq, split, List.nil_append,
    List.flatMap_append, List.flatMap_cons, ← List.append_assoc]
  exact stripDuplicatesFromBack_before (List.mem_append_right _ own)
    notLate (List.mem_flatMap.2 ⟨Q, after, needed⟩)

/-- `glib`, at the bottom of a diamond. -/
def diamondGlib : Package := { Package.new0 2 with key := "glib".toList, lLibs := ["-lglib".toList] }

/-- `gtk`, which requires `glib`. -/
def diamondGtk : Package :=
  { Package.new0 1 with key := "gtk".toList, lLibs := ["-lgtk".toList], requires := [diamondGlib] }

/-- `app`, which requires `gtk` and `glib`. -/
def diamondApp : Package :=
  { Package.new0 0 with
    key := "app".toList, lLibs := ["-lapp".toList], requires := [diamondGtk, diamondGlib] }

theorem multiMergedFromBackList_diamond :
    diamondGtk ∈ Package.walkList [diamondApp] ∧
      diamondGlib ∈ Package.walkList diamondGtk.requires ∧ "-lgtk".toList ∈ diamondGtk.lLibs ∧
      (∀ R ∈ Package.walkList [diamondApp], R ≠ diamondGtk → "-lgtk".toList ∉ R.lLibs) ∧
      "-lglib".toList ∈ diamondGlib.lLibs ∧
      (List.Sublist ["-lgtk".toList, "-lglib".toList] (multiMergedFromBackList [diamondApp] getlLibs) ∧
        (multiMergedFromBackList [diamondApp] getlLibs).Nodup) :=
  have walk : Package.walkList [diamondApp] = [diamondApp, diamondGtk, diamondGlib, diamondGlib] :=
    rfl
  have reached : diamondGtk ∈ Package.walkList [diamondApp] := by
    rw [walk]
    exact List.mem_cons_of_mem _ (List.mem_cons_self _ _)
  have dependency : diamondGlib ∈ Package.walkList diamondGtk.requires := List.mem_singleton_self _
  have unique : ∀ R ∈ Package.walkList [diamondApp], R ≠ diamondGtk → "-lgtk".toList ∉ R.lLibs := by
    rw [walk]
    intro R member other
    simp only [List.mem_cons, List.not_mem_nil, or_false] at member
    rcases member with rfl | rfl | rfl | rfl
    · decide
    · exact absurd rfl other
    · decide
    · decide
  ⟨reached, dependency, by decide, unique, by decide,
    multiMergedFromBackList_dependency_order [diamondApp] diamondGtk diamondGlib _ _ reached dependency
      (by decide) unique (by decide)⟩

end PkgConfig
