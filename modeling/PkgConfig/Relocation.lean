import PkgConfig.Descriptor
import PkgConfig.Flags

/-! `define_prefix` over a whole descriptor. Installed in a directory named `pkgconfig`,
a descriptor whose first variable is the prefix variable is read with that variable set
to the grandparent of the directory, and every later variable whose value starts with
the prefix as written and a separator has that part replaced by the new prefix. The
rewritten values go through `trim_and_sub` like any other, so the new prefix must not
hold a `$`; its whitespace is escaped, so it cannot be trimmed away. -/

namespace PkgConfig

/-- What relocation does to a value written after the prefix variable. -/
def relocateValue (orig new v : Bytes) : Bytes :=
  if orig ≠ [] ∧ orig <+: v ∧ (v.drop orig.length).head? = some '/' then
    new ++ v.drop orig.length
  else v

theorem head_of_dropWhile_eq_self {p : Char → Bool} {s : Bytes} (same : s.dropWhile p = s) :
    ∀ c ∈ s.head?, p c = false := by
  cases s with
  | nil => simp
  | cons c t =>
    rintro d ⟨⟩
    cases drop : p c
    · rfl
    · rw [List.dropWhile_cons_of_pos (by simp [drop])] at same
      have longer := congrArg List.length same
      have shorter := (List.dropWhile_suffix p : t.dropWhile p <:+ t).length_le
      simp only [List.length_cons] at longer
      omega

theorem trimAndSub_relocated {env : Env} {pkg : Package} {path new suffix : Bytes}
    (noDollar : '$' ∉ new ++ suffix) (escaped : new.dropWhile isspace = new)
    (slash : suffix.head? = some '/') (last : ∀ c ∈ suffix.getLast?, isspace c = false) :
    trimAndSub env pkg (new ++ suffix) path = pure (new ++ suffix) := by
  have nonempty : suffix ≠ [] := by rintro rfl; cases slash
  refine trimAndSub_eq_self noDollar ?_ (by rwa [List.getLast?_append_of_ne_nil _ nonempty])
  cases new with
  | nil => rw [List.nil_append, slash]; rintro c ⟨⟩; rfl
  | cons n ns => exact fun c mem => head_of_dropWhile_eq_self escaped c mem

section Lines

variable {env : Env} {pkg : Package} {path : Bytes}

theorem parseVariable_prefixVariable {tag v : Bytes} (define : env.definePrefix = true)
    (named : tag = env.prefixVariable)
    (pkgconfig : gAsciiStrcaseeq (gPathGetBasename (pkg.pcfiledir.getD [])) "pkgconfig".toList) :
    parseVariable env pkg tag v path = pure { pkg with
      origPrefix := some v
      vars := pkg.vars.insert tag (relocatedPrefix (pkg.pcfiledir.getD [])) } := by
  simp only [parseVariable, define, named, pkgconfig, true_and, if_true]

theorem parseVariable_relocated {tag orig new : Bytes} (define : env.definePrefix = true)
    (other : tag ≠ env.prefixVariable) (origSet : pkg.origPrefix = some orig)
    (newSet : pkg.vars.lookup env.prefixVariable = some new) (fresh : pkg.vars.lookup tag = none)
    (noDollar : '$' ∉ new) (escaped : new.dropWhile isspace = new) (v : PlainValue) :
    parseVariable env pkg tag v.text path =
      pure { pkg with vars := pkg.vars.insert tag (relocateValue orig new v.text) } := by
  have plain : '$' ∉ v.text := fun mem => by simpa [plainByte] using v.plain _ mem
  by_cases moved : orig ≠ [] ∧ orig <+: v.text ∧ (v.text.drop orig.length).head? = some '/'
  · have pre := moved.2.1
    have slash := moved.2.2
    have nonempty : v.text.drop orig.length ≠ [] := by
      intro empty; rw [empty] at slash; cases slash
    have last := v.last
    rw [← List.prefix_iff_eq_append.1 pre, List.getLast?_append_of_ne_nil _ nonempty] at last
    have value := @trimAndSub_relocated env pkg path _ _
      (by simpa [not_or] using ⟨noDollar, fun mem => plain (List.mem_of_mem_drop mem)⟩)
      escaped slash last
    simp only [parseVariable, define, true_and, if_neg other, origSet, if_pos moved, newSet,
      Option.getD_some, defineVariable, fresh, value, relocateValue, pure_bind]
  · simp only [parseVariable, define, true_and, if_neg other, origSet, if_neg moved,
      defineVariable, fresh, trimAndSub_plain, relocateValue, pure_bind]

end Lines

/-- `define_prefix` over a descriptor in a `pkgconfig` directory whose first variable is it. -/
theorem parsePackageFile_relocated (env : Env) (id : Nat) (key path : Bytes) (d : Descriptor)
    (first : Assignment) (rest : List Assignment) (vars : d.vars = first :: rest)
    (define : env.definePrefix = true) (named : first.name = env.prefixVariable)
    (pkgconfig : gAsciiStrcaseeq (gPathGetBasename (gPathGetDirname path)) "pkgconfig".toList)
    (noDollar : '$' ∉ relocatedPrefix (gPathGetDirname path)) :
    parsePackageFile env id key path (some d.render) = pure (some { d.toPackage id key path with
      origPrefix := some first.value.text
      vars := (rest.map fun a =>
          (a.name, relocateValue first.value.text (relocatedPrefix (gPathGetDirname path))
            a.value.text)).reverse ++
        [(first.name, relocatedPrefix (gPathGetDirname path)),
          ("pcfiledir".toList, gPathGetDirname path)] }) := by
  let new := relocatedPrefix (gPathGetDirname path)
  let start : Package := { Package.new0 id with
    key := key, pcfiledir := some (gPathGetDirname path),
    vars := [("pcfiledir".toList, gPathGetDirname path)] }
  have escaped : new.dropWhile isspace = new := dropWhile_isspace_strdupEscapeShell _
  obtain ⟨notFirst, distinct⟩ :=
    List.nodup_cons.1 (by simpa only [vars, List.map_cons] using d.distinct)
  have notPcfiledir : "pcfiledir".toList ∉ first.name :: rest.map Assignment.name := by
    simpa only [vars, List.map_cons] using d.notPcfiledir
  have firstLine := (@parseLine_assignment env start path first).trans
    (@parseVariable_prefixVariable env start path _ first.value.text define named pkgconfig)
  have otherName : ∀ a ∈ rest, a.name ≠ env.prefixVariable := fun a mem same =>
    notFirst (by rw [named, ← same]; exact List.mem_map_of_mem _ mem)
  have defined := @parseLines_defines env path
    (fun a => relocateValue first.value.text new a.value.text)
    (fun q => q.origPrefix = some first.value.text ∧ q.vars.lookup env.prefixVariable = some new)
    rest { start with origPrefix := some first.value.text, vars := start.vars.insert first.name new }
    (fun q a mem ⟨origSet, newSet⟩ unset => (parseLine_assignment a).trans
      (parseVariable_relocated define (otherName a mem) origSet newSet unset noDollar escaped
        a.value))
    (fun q a mem ⟨origSet, newSet⟩ =>
      ⟨origSet, by rw [Table.lookup_insert_of_ne _ _ (otherName a mem), newSet]⟩)
    distinct ⟨rfl, by rw [← named]; exact Table.lookup_insert _ _ _⟩ fun k mem => by
      have notPrefix : first.name ≠ k := fun same => notFirst (same ▸ mem)
      have other : "pcfiledir".toList ≠ k := fun same =>
        notPcfiledir (List.mem_cons_of_mem _ (same ▸ mem))
      rw [Table.lookup_insert_of_ne _ _ notPrefix, Table.lookup, if_neg other]
      rfl
  have assigned := (@parseLines_cons_of_ok env start path first.line (rest.map Assignment.line) _
    first.plain_line firstLine).trans defined
  simp only [parsePackageFile, readAllLines_render, Descriptor.lines, vars, List.map_cons]
  rw [parseLines_append, parseLines_append, assigned, pure_bind,
    parseLines_textLines d ⟨rfl, rfl, rfl, rfl⟩, pure_bind, parseLines_moduleLines d, pure_bind]
  simp [Descriptor.toPackage, start, Package.new0, vars, named, new, Table.insert]

/-- `prefix=/usr`. -/
def usrPrefix : Assignment := ⟨"prefix".toList, ⟨"/usr".toList, by decide, by decide, by decide⟩, by decide⟩

/-- `libdir=/usr/lib`, relocated, and `docdir=/usrdoc`, which is not under the prefix. -/
def usrDirs : List Assignment :=
  [⟨"libdir".toList, ⟨"/usr/lib".toList, by decide, by decide, by decide⟩, by decide⟩,
    ⟨"docdir".toList, ⟨"/usrdoc".toList, by decide, by decide, by decide⟩, by decide⟩]

/-- A descriptor with those variables and `Name: foo`. -/
def usrDescriptor : Descriptor where
  vars := usrPrefix :: usrDirs
  name := some ⟨"foo".toList, by decide, by decide, by decide⟩
  version := none
  description := none
  url := none
  requires := ⟨[], by simp⟩
  requiresPrivate := ⟨[], by simp⟩
  conflicts := ⟨[], by simp⟩
  distinct := by decide
  notPcfiledir := by decide

example : usrDirs.map (fun a => relocateValue "/usr".toList "/opt/foo".toList a.value.text) =
    ["/opt/foo/lib".toList, "/usrdoc".toList] := by
  decide

theorem parsePackageFile_relocated_opt :
    usrDescriptor.vars = usrPrefix :: usrDirs ∧ relocatingPrefixEnv.definePrefix = true ∧
      usrPrefix.name = relocatingPrefixEnv.prefixVariable ∧
      gAsciiStrcaseeq (gPathGetBasename (gPathGetDirname "/opt/foo/lib/pkgconfig/foo.pc".toList))
        "pkgconfig".toList = true ∧
      '$' ∉ relocatedPrefix (gPathGetDirname "/opt/foo/lib/pkgconfig/foo.pc".toList) ∧
      parsePackageFile relocatingPrefixEnv 0 "foo".toList "/opt/foo/lib/pkgconfig/foo.pc".toList
          (some usrDescriptor.render) =
        pure (some { usrDescriptor.toPackage 0 "foo".toList "/opt/foo/lib/pkgconfig/foo.pc".toList with
          origPrefix := some usrPrefix.value.text
          vars := (usrDirs.map fun a =>
              (a.name, relocateValue usrPrefix.value.text
                (relocatedPrefix (gPathGetDirname "/opt/foo/lib/pkgconfig/foo.pc".toList))
                a.value.text)).reverse ++
            [(usrPrefix.name, relocatedPrefix (gPathGetDirname "/opt/foo/lib/pkgconfig/foo.pc".toList)),
              ("pcfiledir".toList, gPathGetDirname "/opt/foo/lib/pkgconfig/foo.pc".toList)] }) :=
  ⟨rfl, rfl, rfl, by decide, by decide,
    parsePackageFile_relocated _ _ _ _ _ _ _ rfl rfl rfl (by decide) (by decide)⟩

end PkgConfig
