import PkgConfig.CString

/-! The version comparator of pkg.c: `rpmvercmp`, copied from rpm, behind
`compare_versions`, and the constraint predicate `version_test`. Beside it, a
comparison that leaves its loop as soon as one side is used up after the separators are
skipped. -/

namespace PkgConfig

/-- `ComparisonType` of a `RequiredVersion`. -/
inductive ComparisonType
  | lessThan | greaterThan | lessThanEqual | greaterThanEqual | equal | notEqual | alwaysMatch
  deriving DecidableEq, Repr

/-- The maximal digit run (`isnum`) or letter run at the front of `s`, and what follows it. -/
def segment (isnum : Bool) (s : Bytes) : Bytes × Bytes :=
  if isnum then (s.takeWhile Char.isDigit, s.dropWhile Char.isDigit)
  else (s.takeWhile Char.isAlpha, s.dropWhile Char.isAlpha)

/-- Two segments of one type: digit runs by length without leading zeros, else bytewise. -/
def compareSegments (isnum : Bool) (seg1 seg2 : Bytes) : Int :=
  if isnum then
    let one := seg1.dropWhile (· = '0')
    let two := seg2.dropWhile (· = '0')
    if one.length > two.length then 1
    else if two.length > one.length then -1
    else strcmp one two
  else strcmp seg1 seg2

/-- The end of `rpmvercmp` after its loop: the side with bytes left wins. -/
def rpmvercmpRest (one two : Bytes) : Int :=
  if one = [] ∧ two = [] then 0 else if one = [] then -1 else 1

/-- The `while (*one && *two)` loop of `rpmvercmp`, with fuel `one.length`. -/
def rpmvercmpLoop : Nat → Bytes → Bytes → Int
  | 0, one, two => rpmvercmpRest one two
  | fuel + 1, one, two =>
    if one = [] ∨ two = [] then rpmvercmpRest one two else
      let one := one.dropWhile (fun c => !c.isAlphanum)
      let two := two.dropWhile (fun c => !c.isAlphanum)
      let isnum := (one.head?.map Char.isDigit).getD false
      let (seg1, rest1) := segment isnum one
      let (seg2, rest2) := segment isnum two
      if seg1 = [] then -1
      else if seg2 = [] then -1
      else
        let rc := compareSegments isnum seg1 seg2
        if rc ≠ 0 then rc else rpmvercmpLoop fuel rest1 rest2

/-- `rpmvercmp`: 1 when `a` is newer, 0 when the same version, -1 when `b` is newer. -/
def rpmvercmp (a b : Bytes) : Int :=
  if strcmp a b = 0 then 0 else rpmvercmpLoop a.length a b

/-- `compare_versions`. -/
def compareVersions (a b : Bytes) : Int := rpmvercmp a b

/-- `version_test`. -/
def versionTest (comparison : ComparisonType) (a b : Bytes) : Bool :=
  match comparison with
  | .lessThan => compareVersions a b < 0
  | .greaterThan => compareVersions a b > 0
  | .lessThanEqual => compareVersions a b ≤ 0
  | .greaterThanEqual => compareVersions a b ≥ 0
  | .equal => compareVersions a b = 0
  | .notEqual => compareVersions a b ≠ 0
  | .alwaysMatch => true

/-- `comparison_to_str`. -/
def comparisonToStr : ComparisonType → Bytes
  | .lessThan => ['<']
  | .greaterThan => ['>']
  | .lessThanEqual => ['<', '=']
  | .greaterThanEqual => ['>', '=']
  | .equal => ['=']
  | .notEqual => ['!', '=']
  | .alwaysMatch => "(any)".toList

/-- A loop that leaves as soon as either side is used up after skipping separators. -/
def specCompareLoop : Nat → Bytes → Bytes → Int
  | 0, a, b => rpmvercmpRest a b
  | fuel + 1, a, b =>
    let a := a.dropWhile (fun c => !c.isAlphanum)
    let b := b.dropWhile (fun c => !c.isAlphanum)
    if a = [] ∨ b = [] then rpmvercmpRest a b else
      let isnum := (a.head?.map Char.isDigit).getD false
      let (seg1, rest1) := segment isnum a
      let (seg2, rest2) := segment isnum b
      if seg1 = [] ∨ seg2 = [] then -1
      else
        let rc := compareSegments isnum seg1 seg2
        if rc ≠ 0 then rc else specCompareLoop fuel rest1 rest2

/-- The comparison with that loop. -/
def specCompareVersions (a b : Bytes) : Int :=
  if a = b then 0 else specCompareLoop a.length a b

/-- `rpmvercmp` does not check after skipping separators that both sides have bytes left. -/
theorem compareVersions_trailing_separator :
    compareVersions "1.2.3".toList "1.2-".toList = -1 ∧
      specCompareVersions "1.2.3".toList "1.2-".toList = 1 := by
  decide

/-- The same slip both ways: two versions that each compare older than the other. -/
theorem compareVersions_not_antisymmetric :
    compareVersions "1.2.3".toList "1.2-".toList = -1 ∧
      compareVersions "1.2-".toList "1.2.3".toList = -1 ∧
      versionTest .lessThan "1.2.3".toList "1.2-".toList = true ∧
      versionTest .greaterThan "1.2-".toList "1.2.3".toList = false := by
  decide

end PkgConfig
