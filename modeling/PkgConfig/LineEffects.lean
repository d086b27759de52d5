import PkgConfig.Parse

/-! What one line of a descriptor can change in the package being parsed. A value an
earlier line set stays: Name, Version, Description and URL are refused the second time,
a variable is not defined again (only the prefix variable that `define_prefix` overrides
can change), and the Cflags are left alone once a field has added one. No line writes the
package's identity, key or directory. Every line keeps this relation, and so does the
run of `parse_line` over a file. -/

namespace PkgConfig

/-- What `pkg'` keeps of `pkg`, a package later in the same parse. -/
structure Package.Keeps (env : Env) (pkg pkg' : Package) : Prop where
  id : pkg'.id = pkg.id
  key : pkg'.key = pkg.key
  pcfiledir : pkg'.pcfiledir = pkg.pcfiledir
  name : ∀ v, pkg.name = some v → pkg'.name = some v
  version : ∀ v, pkg.version = some v → pkg'.version = some v
  description : ∀ v, pkg.description = some v → pkg'.description = some v
  url : ∀ v, pkg.url = some v → pkg'.url = some v
  vars : ∀ k v, ¬(env.definePrefix = true ∧ k = env.prefixVariable) →
    pkg.vars.lookup k = some v → pkg'.vars.lookup k = some v
  cflags : pkg.cflags ≠ [] → pkg'.cflags = pkg.cflags

namespace Package.Keeps

variable {env : Env}

theorem refl (pkg : Package) : pkg.Keeps env pkg :=
  ⟨rfl, rfl, rfl, fun _ h => h, fun _ h => h, fun _ h => h, fun _ h => h, fun _ _ _ h => h,
    fun _ => rfl⟩

theorem trans {a b c : Package} (ab : a.Keeps env b) (bc : b.Keeps env c) : a.Keeps env c where
  id := bc.id.trans ab.id
  key := bc.key.trans ab.key
  pcfiledir := bc.pcfiledir.trans ab.pcfiledir
  name v h := bc.name v (ab.name v h)
  version v h := bc.version v (ab.version v h)
  description v h := bc.description v (ab.description v h)
  url v h := bc.url v (ab.url v h)
  vars k v fixed h := bc.vars k v fixed (ab.vars k v fixed h)
  cflags added := (bc.cflags (ab.cflags added ▸ added)).trans (ab.cflags added)

theorem of_settled {pkg pkg' : Package} (sameId : pkg'.id = pkg.id) (sameKey : pkg'.key = pkg.key)
    (sameDir : pkg'.pcfiledir = pkg.pcfiledir) (sameName : pkg'.name = pkg.name)
    (sameVersion : pkg'.version = pkg.version)
    (sameDescription : pkg'.description = pkg.description) (sameUrl : pkg'.url = pkg.url)
    (sameVars : pkg'.vars = pkg.vars) (sameCflags : pkg'.cflags = pkg.cflags) :
    pkg.Keeps env pkg' :=
  ⟨sameId, sameKey, sameDir, fun _ => sameName.trans, fun _ => sameVersion.trans,
    fun _ => sameDescription.trans, fun _ => sameUrl.trans, fun _ _ _ h => sameVars ▸ h,
    fun _ => sameCflags⟩

end Package.Keeps

/-- A parse step that returns a package keeping what `pkg` has. -/
def KeepsSettled (env : Env) (pkg : Package) : Proc Package → Prop := Returns (pkg.Keeps env)

section Steps

variable {env : Env} {pkg : Package} {path : Bytes}

theorem parseStringField_keeps {field : Bytes} {get : Package → Option Bytes}
    {set : Package → Bytes → Package} {str : Bytes}
    (fresh : get pkg = none → ∀ v, pkg.Keeps env (set pkg v)) :
    KeepsSettled env pkg (parseStringField field get set env pkg str path) := by
  unfold parseStringField
  split
  · exact returns_refuse (.refl pkg)
  · next unset => exact returns_bind fun v => returns_pure (fresh unset v)

theorem parseName_keeps {str : Bytes} : KeepsSettled env pkg (parseName env pkg str path) :=
  parseStringField_keeps fun unset _ => ⟨rfl, rfl, rfl, fun _ h => (nomatch unset.symm.trans h),
    fun _ h => h, fun _ h => h, fun _ h => h, fun _ _ _ h => h, fun _ => rfl⟩

theorem parseVersion_keeps {str : Bytes} : KeepsSettled env pkg (parseVersion env pkg str path) :=
  parseStringField_keeps fun unset _ => ⟨rfl, rfl, rfl, fun _ h => h,
    fun _ h => (nomatch unset.symm.trans h), fun _ h => h, fun _ h => h, fun _ _ _ h => h, fun _ => rfl⟩

theorem parseDescription_keeps {str : Bytes} :
    KeepsSettled env pkg (parseDescription env pkg str path) :=
  parseStringField_keeps fun unset _ => ⟨rfl, rfl, rfl, fun _ h => h, fun _ h => h,
    fun _ h => (nomatch unset.symm.trans h), fun _ h => h, fun _ _ _ h => h, fun _ => rfl⟩

theorem parseUrl_keeps {str : Bytes} : KeepsSettled env pkg (parseUrl env pkg str path) :=
  parseStringField_keeps fun unset _ => ⟨rfl, rfl, rfl, fun _ h => h, fun _ h => h, fun _ h => h,
    fun _ h => (nomatch unset.symm.trans h), fun _ _ _ h => h, fun _ => rfl⟩

theorem parseCflags_keeps {str : Bytes} : KeepsSettled env pkg (parseCflags env pkg str path) := by
  have fresh : pkg.cflags = [] → ∀ l, pkg.Keeps env { pkg with cflags := l } := fun none _ =>
    ⟨rfl, rfl, rfl, fun _ h => h, fun _ h => h, fun _ h => h, fun _ h => h, fun _ _ _ h => h,
      fun added => absurd none added⟩
  unfold parseCflags
  refine returns_ite (fun _ => returns_refuse (.refl pkg)) fun added => ?_
  rw [not_not] at added
  refine returns_bind fun _ => returns_bind fun trimmed =>
    returns_ite (fun _ => returns_pure (fresh added _)) fun _ => ?_
  split
  · exact returns_pure (fresh added _)
  · exact returns_refuse (.refl pkg)

theorem defineVariable_keeps {tag value : Bytes} :
    KeepsSettled env pkg (defineVariable env pkg tag value path) := by
  unfold defineVariable
  split
  · exact returns_refuse (.refl pkg)
  · next undefined =>
    refine returns_bind fun v => returns_pure ⟨rfl, rfl, rfl, fun _ h => h, fun _ h => h, fun _ h => h,
      fun _ h => h, fun k w _ h => ?_, fun _ => rfl⟩
    have other : tag ≠ k := by
      rintro rfl
      exact nomatch undefined.symm.trans h
    exact (Table.lookup_insert_of_ne pkg.vars v other).trans h

theorem parseVariable_keeps {tag p : Bytes} :
    KeepsSettled env pkg (parseVariable env pkg tag p path) := by
  unfold parseVariable
  refine returns_ite (fun prefixVar => returns_ite (fun _ => returns_pure ?_)
    fun _ => defineVariable_keeps) fun _ => ?_
  · refine ⟨rfl, rfl, rfl, fun _ h => h, fun _ h => h, fun _ h => h, fun _ h => h,
      fun k v fixed h => ?_, fun _ => rfl⟩
    have other : tag ≠ k := by
      rintro rfl
      exact fixed prefixVar
    exact (Table.lookup_insert_of_ne pkg.vars _ other).trans h
  · split
    · exact returns_ite (fun _ => defineVariable_keeps) fun _ => defineVariable_keeps
    · exact defineVariable_keeps

theorem parseField_keeps {tag p : Bytes} : KeepsSettled env pkg (parseField env pkg tag p path) := by
  unfold parseField
  repeat' first
    | exact parseName_keeps
    | exact parseVersion_keeps
    | exact parseDescription_keeps
    | exact parseUrl_keeps
    | exact parseCflags_keeps
    | exact returns_bind fun _ => returns_pure (.of_settled rfl rfl rfl rfl rfl rfl rfl rfl rfl)
    | exact returns_pure (.refl pkg)
    | refine returns_ite (fun _ => ?_) fun _ => ?_

theorem parseLine_keeps {line : Bytes} : KeepsSettled env pkg (parseLine env pkg line path) := by
  unfold parseLine
  dsimp only
  split
  · exact parseField_keeps
  · exact parseVariable_keeps
  · exact returns_pure (.refl pkg)

end Steps

theorem keepsSettled_parseLines {env : Env} {path : Bytes} (lines : List Bytes) :
    ∀ pkg, KeepsSettled env pkg (parseLines env path pkg lines) := by
  induction lines with
  | nil => exact fun pkg => returns_pure (.refl pkg)
  | cons line rest ih =>
    intro pkg
    exact returns_bind_of parseLine_keeps fun mid keeps s a s' h => keeps.trans (ih mid s a s' h)

/-- No line of a parse changes a value an earlier line set. -/
theorem parseLines_keeps {env : Env} {path : Bytes} (lines : List Bytes) {pkg pkg' : Package}
    {freed freed' : List Bytes} (h : (parseLines env path pkg lines).run freed = .ok (pkg', freed')) :
    pkg.Keeps env pkg' :=
  keepsSettled_parseLines lines pkg freed pkg' freed' h

/-- A lax parser without `define_prefix`. -/
def laxEnv : Env := ⟨false, false, "prefix".toList, [], fun _ => none⟩

/-- A package that already has a name. -/
def namedA : Package := { Package.new0 0 with name := some ['a'] }

/-- A second name, and a variable defined twice. -/
def secondNameLines : List Bytes := ["Name: b".toList, "x=1".toList, "x=2".toList]

theorem parseLines_keeps_secondName :
    (parseLines laxEnv [] namedA secondNameLines).run [] =
        .ok ({ namedA with vars := [(['x'], ['1'])] }, []) ∧
      namedA.Keeps laxEnv { namedA with vars := [(['x'], ['1'])] } :=
  have run : (parseLines laxEnv [] namedA secondNameLines).run [] =
      .ok ({ namedA with vars := [(['x'], ['1'])] }, []) := rfl
  ⟨run, parseLines_keeps _ run⟩

/-- A parsed package's `pcfiledir` variable is its file's directory, whatever the file says. -/
theorem parsePackageFile_pcfiledir {env : Env} {id : Nat} {key path stream : Bytes}
    {freed freed' : List Bytes} {pkg : Package}
    (notPrefix : ¬(env.definePrefix = true ∧ "pcfiledir".toList = env.prefixVariable))
    (h : (parsePackageFile env id key path (some stream)).run freed = .ok (some pkg, freed')) :
    pkg.vars.lookup "pcfiledir".toList = some (gPathGetDirname path) ∧
      pkg.pcfiledir = some (gPathGetDirname path) := by
  obtain ⟨parsed, s, lines, done⟩ := Proc.run_bind_eq_ok.mp h
  cases done
  have keeps := keepsSettled_parseLines _ _ _ parsed _ lines
  exact ⟨keeps.vars _ _ notPrefix (by simp [Table.lookup]), keeps.pcfiledir⟩

/-- A descriptor that assigns `pcfiledir`. -/
def pcfiledirAssigned : List Char := "pcfiledir=/elsewhere\n".toList

theorem parsePackageFile_pcfiledir_assigned :
    ¬(laxEnv.definePrefix = true ∧ "pcfiledir".toList = laxEnv.prefixVariable) ∧
      (parsePackageFile laxEnv 0 "p".toList "/usr/lib/pkgconfig/p.pc".toList
          (some pcfiledirAssigned)).run [] =
        .ok (some { Package.new0 0 with
          key := "p".toList, pcfiledir := some "/usr/lib/pkgconfig".toList
          vars := [("pcfiledir".toList, "/usr/lib/pkgconfig".toList)] }, []) ∧
      [("pcfiledir".toList, "/usr/lib/pkgconfig".toList)].lookup "pcfiledir".toList =
        some (gPathGetDirname "/usr/lib/pkgconfig/p.pc".toList) := by
  have lines : readAllLines pcfiledirAssigned = ["pcfiledir=/elsewhere".toList] := by decide
  have parsed : (parsePackageFile laxEnv 0 "p".toList "/usr/lib/pkgconfig/p.pc".toList
      (some pcfiledirAssigned)).run [] = .ok (some { Package.new0 0 with
        key := "p".toList, pcfiledir := some "/usr/lib/pkgconfig".toList
        vars := [("pcfiledir".toList, "/usr/lib/pkgconfig".toList)] }, []) := by
    simp only [parsePackageFile, lines]
    rfl
  exact ⟨by decide, parsed, (parsePackageFile_pcfiledir (by decide) parsed).1⟩

end PkgConfig
