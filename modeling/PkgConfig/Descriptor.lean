import PkgConfig.Parse

/-! The `.pc` format read back. A descriptor is written as text: one `name=value` line
per variable, then one `Tag: value` line per field, each line ended by a newline. Its
values are plain, with no byte that `read_one_line` (`\`, `#`, the line ends),
`parse_line` (a NUL, which ends the C string) or `trim_and_sub` (`$`) treats specially and
no whitespace at either end, and a module list
is its entries joined by `, `. Such a text is read by `parse_package_file` into the
package the descriptor describes, in strict and in lax mode, as long as `define_prefix`
does not relocate one of its variables. Libs and Cflags go through `g_shell_parse_argv`,
which the model takes as a parameter, and are not written here. -/

namespace PkgConfig

/-- A byte that `read_one_line`, `parse_line` and `trim_and_sub` all pass through as it is. -/
def plainByte (c : Char) : Bool :=
  c != '\x00' && c != '$' && c != '#' && c != '\\' && c != '\n' && c != '\r'

/-- A value that reads back as itself. -/
structure PlainValue where
  text : Bytes
  plain : ∀ c ∈ text, plainByte c = true
  head : ∀ c ∈ text.head?, isspace c = false
  last : ∀ c ∈ text.getLast?, isspace c = false

/-- A variable assignment, under a name that `parse_line` reads as its identifier. -/
structure Assignment where
  name : Bytes
  value : PlainValue
  ident : ∀ c ∈ name, isTagChar c = true

/-- A module list whose entries are written in plain bytes. -/
structure ModuleLine where
  entries : List ModuleEntry
  plain : ∀ e ∈ entries, ∀ c ∈ e.render, plainByte c = true

/-- A descriptor: distinct variables other than `pcfiledir`, four text fields, three lists. -/
structure Descriptor where
  vars : List Assignment
  name : Option PlainValue
  version : Option PlainValue
  description : Option PlainValue
  url : Option PlainValue
  requires : ModuleLine
  requiresPrivate : ModuleLine
  conflicts : ModuleLine
  distinct : (vars.map Assignment.name).Nodup
  notPcfiledir : "pcfiledir".toList ∉ vars.map Assignment.name

/-- The entries with their separators: `, ` after each but the last. -/
def joinEntries : List ModuleEntry → List (ModuleEntry × Bytes)
  | [] => []
  | [e] => [(e, [])]
  | e :: f :: rest => (e, [',', ' ']) :: joinEntries (f :: rest)

theorem isspace_eq_false_of_isTagChar {c : Char} (ident : isTagChar c = true) :
    isspace c = false := by
  cases space : isspace c
  · rfl
  · simp only [isspace, Bool.or_eq_true, decide_eq_true_eq, or_assoc] at space
    rcases space with rfl | rfl | rfl | rfl | rfl | rfl <;> exact absurd ident (by decide)

theorem plainByte_of_isTagChar {c : Char} (ident : isTagChar c = true) : plainByte c = true := by
  cases plain : plainByte c
  · simp only [plainByte, Bool.and_eq_false_iff, bne_eq_false_iff_eq, beq_iff_eq, or_assoc]
      at plain
    rcases plain with rfl | rfl | rfl | rfl | rfl | rfl <;> exact absurd ident (by decide)
  · rfl

theorem trimString_eq_self {s : Bytes} (head : ∀ c ∈ s.head?, isspace c = false)
    (last : ∀ c ∈ s.getLast?, isspace c = false) : trimString s = s := by
  rw [trimString, dropWhile_eq_self head, dropWhile_eq_self (by rwa [List.head?_reverse]),
    List.reverse_reverse]

theorem trimAndSub_eq_self {env : Env} {pkg : Package} {s path : Bytes} (noDollar : '$' ∉ s)
    (head : ∀ c ∈ s.head?, isspace c = false) (last : ∀ c ∈ s.getLast?, isspace c = false) :
    trimAndSub env pkg s path = pure s := by
  simpa [trimAndSub, trimString_eq_self head last] using
    @trimAndSubLoop_plain env pkg path [] s [] noDollar

theorem trimAndSub_plain {env : Env} {pkg : Package} {path : Bytes} (v : PlainValue) :
    trimAndSub env pkg v.text path = pure v.text :=
  trimAndSub_eq_self (fun mem => by simpa [plainByte] using v.plain _ mem) v.head v.last

namespace ModuleEntry

theorem last_render (e : ModuleEntry) : ∀ c ∈ e.render.getLast?, isspace c = false := by
  intro c mem
  rcases hc : e.constraint with _ | ⟨op, version⟩
  · simp only [ModuleEntry.render, ModuleEntry.constraintText, hc, List.append_nil] at mem
    exact isspace_eq_false_of_plain (e.name_plain c (List.mem_of_mem_getLast? mem))
  · obtain ⟨-, versioned, plain⟩ := e.constraint_ok op version hc
    have whole : e.render = (e.name ++ ' ' :: comparisonToStr op ++ [' ']) ++ version := by
      simp [ModuleEntry.render, ModuleEntry.constraintText, hc]
    rw [whole, List.getLast?_append_of_ne_nil _ versioned] at mem
    exact isspace_eq_false_of_plain (plain c (List.mem_of_mem_getLast? mem))

end ModuleEntry

theorem renderModuleList_joinEntries_cons (e : ModuleEntry) (rest : List ModuleEntry) :
    ∃ t, renderModuleList (joinEntries (e :: rest)) = e.name ++ t := by
  cases rest <;> simp [joinEntries, renderModuleList, ModuleEntry.render]

theorem separatorRuns_joinEntries : ∀ es : List ModuleEntry, SeparatorRuns (joinEntries es)
  | [] => trivial
  | [_] => by simp [joinEntries, SeparatorRuns]
  | _ :: f :: rest => by
    simp only [joinEntries, SeparatorRuns]
    exact ⟨by decide, by simp, separatorRuns_joinEntries (f :: rest)⟩

theorem map_joinEntries {β : Type} (f : ModuleEntry → β) :
    ∀ es : List ModuleEntry, (joinEntries es).map (fun p => f p.1) = es.map f
  | [] => rfl
  | [_] => rfl
  | _ :: g :: rest => by simp [joinEntries, map_joinEntries f (g :: rest)]

theorem plain_joinEntries : ∀ es : List ModuleEntry, (∀ e ∈ es, ∀ c ∈ e.render, plainByte c = true) →
    ∀ c ∈ renderModuleList (joinEntries es), plainByte c = true
  | [], _ => by simp [joinEntries, renderModuleList]
  | [e], plain => by simpa [joinEntries, renderModuleList] using plain e (by simp)
  | e :: f :: rest, plain => by
    simp only [joinEntries, renderModuleList, List.mem_append]
    rintro c ((mem | mem) | mem)
    · exact plain e (by simp) c mem
    · revert c mem; decide
    · exact plain_joinEntries (f :: rest) (fun e' mem' => plain e' (List.mem_cons_of_mem _ mem')) c mem

theorem head_joinEntries :
    ∀ es : List ModuleEntry, ∀ c ∈ (renderModuleList (joinEntries es)).head?, isspace c = false
  | [] => by simp [joinEntries, renderModuleList]
  | e :: rest => by
    obtain ⟨t, eq⟩ := renderModuleList_joinEntries_cons e rest
    obtain ⟨n, ns, hname⟩ := List.exists_cons_of_ne_nil e.name_ne_nil
    rw [eq, hname]
    simpa using isspace_eq_false_of_plain (e.name_plain n (by simp [hname]))

theorem last_joinEntries :
    ∀ es : List ModuleEntry, ∀ c ∈ (renderModuleList (joinEntries es)).getLast?, isspace c = false
  | [] => by simp [joinEntries, renderModuleList]
  | [e] => by simpa [joinEntries, renderModuleList] using e.last_render
  | e :: f :: rest => by
    obtain ⟨t, eq⟩ := renderModuleList_joinEntries_cons f rest
    have nonempty : renderModuleList (joinEntries (f :: rest)) ≠ [] := by
      simp [eq, f.name_ne_nil]
    rw [joinEntries, renderModuleList, List.getLast?_append_of_ne_nil _ nonempty]
    exact last_joinEntries (f :: rest)

/-- The text of a module list: its entries joined by `, `. -/
def ModuleLine.value (l : ModuleLine) : PlainValue where
  text := renderModuleList (joinEntries l.entries)
  plain := plain_joinEntries l.entries l.plain
  head := head_joinEntries l.entries
  last := last_joinEntries l.entries

/-- `name=value`. -/
def Assignment.line (a : Assignment) : Bytes := a.name ++ '=' :: a.value.text

/-- `Tag: value`. -/
def fieldLine (tag value : Bytes) : Bytes := tag ++ ':' :: ' ' :: value

/-- The line of a text field, when the descriptor has one. -/
def optionalLine (tag : Bytes) : Option PlainValue → List Bytes
  | none => []
  | some v => [fieldLine tag v.text]

/-- The lines of the text fields a descriptor has. -/
def Descriptor.textLines (d : Descriptor) : List Bytes :=
  optionalLine "Name".toList d.name ++ optionalLine "Version".toList d.version ++
    optionalLine "Description".toList d.description ++ optionalLine "URL".toList d.url

/-- The lines of the three module lists. -/
def Descriptor.moduleLines (d : Descriptor) : List Bytes :=
  [fieldLine "Requires".toList d.requires.value.text,
    fieldLine "Requires.private".toList d.requiresPrivate.value.text,
    fieldLine "Conflicts".toList d.conflicts.value.text]

/-- The lines of a descriptor: the variables in order, then the fields. -/
def Descriptor.lines (d : Descriptor) : List Bytes :=
  d.vars.map Assignment.line ++ d.textLines ++ d.moduleLines

/-- The text of a descriptor: each line followed by a newline. -/
def Descriptor.render (d : Descriptor) : List Char := d.lines.flatMap (· ++ ['\n'])

/-- The package `parse_package_file` allocates for a descriptor as `id`, `key` and `path`. -/
def Descriptor.toPackage (d : Descriptor) (id : Nat) (key path : Bytes) : Package :=
  { Package.new0 id with
    key := key
    pcfiledir := some (gPathGetDirname path)
    vars := (d.vars.map fun a => (a.name, a.value.text)).reverse ++
      [("pcfiledir".toList, gPathGetDirname path)]
    name := d.name.map PlainValue.text
    version := d.version.map PlainValue.text
    description := d.description.map PlainValue.text
    url := d.url.map PlainValue.text
    requiresEntries := d.requires.entries.map ModuleEntry.toRequiredVersion
    requiresPrivateEntries := d.requiresPrivate.entries.map ModuleEntry.toRequiredVersion
    conflicts := d.conflicts.entries.map ModuleEntry.toRequiredVersion }

theorem plainByte_iff {c : Char} :
    plainByte c = true ↔ c ≠ '\x00' ∧ c ≠ '$' ∧ c ≠ '#' ∧ c ≠ '\\' ∧ c ≠ '\n' ∧ c ≠ '\r' := by
  simp [plainByte, and_assoc]

theorem nul_not_mem_of_plain {l : Bytes} (plain : ∀ c ∈ l, plainByte c = true) : '\x00' ∉ l :=
  fun mem => absurd (plain _ mem) (by decide)

theorem plain_tagged {tag body : Bytes} {sep : Char} (ident : ∀ c ∈ tag, isTagChar c = true)
    (sepPlain : plainByte sep = true) (bodyPlain : ∀ c ∈ body, plainByte c = true) :
    ∀ c ∈ tag ++ sep :: body, plainByte c = true := by
  simp only [List.mem_append, List.mem_cons]
  rintro c (mem | rfl | mem)
  exacts [plainByte_of_isTagChar (ident c mem), sepPlain, bodyPlain c mem]

theorem Assignment.plain_line (a : Assignment) : ∀ c ∈ a.line, plainByte c = true :=
  plain_tagged a.ident rfl a.value.plain

theorem plain_fieldLine {tag : Bytes} (ident : ∀ c ∈ tag, isTagChar c = true) (v : PlainValue) :
    ∀ c ∈ fieldLine tag v.text, plainByte c = true :=
  plain_tagged ident rfl (List.forall_mem_cons.2 ⟨rfl, v.plain⟩)

theorem Descriptor.plain_lines (d : Descriptor) : ∀ l ∈ d.lines, ∀ c ∈ l, plainByte c = true := by
  have optional : ∀ tag o, (∀ c ∈ tag, isTagChar c = true) →
      ∀ l ∈ optionalLine tag o, ∀ c ∈ l, plainByte c = true := by
    rintro tag (_ | v) ident l mem
    · cases mem
    · obtain rfl := List.mem_singleton.1 mem
      exact plain_fieldLine ident v
  simp only [Descriptor.lines, Descriptor.textLines, Descriptor.moduleLines, List.mem_append,
    List.mem_map, List.mem_cons, List.not_mem_nil, or_false]
  rintro l ((⟨a, -, rfl⟩ | ((mem | mem) | mem) | mem) | rfl | rfl | rfl)
  · exact a.plain_line
  all_goals first
    | exact plain_fieldLine (by decide) _
    | exact optional _ _ (by decide) l mem

theorem specLinesFrom_line {started : Bool} {rest : List Char} (noCR : '\r' ∉ rest) :
    ∀ (line acc : Bytes), (∀ c ∈ line, plainByte c = true) →
      specLinesFrom started false acc (line ++ '\n' :: rest) =
        (acc ++ line) :: specLinesFrom false false [] rest
  | [], acc, _ => by
    rw [List.nil_append, specLinesFrom.eq_12 _ _ _ _ fun _ h => noCR (by simp [h]),
      List.append_nil]
  | c :: line, acc, plain => by
    obtain ⟨-, -, hash, backslash, lf, cr⟩ := plainByte_iff.1 (plain c (List.mem_cons_self _ _))
    rw [List.cons_append, specLinesFrom_cons cr lf fun _ => ⟨backslash, hash⟩, if_neg (by simp),
      specLinesFrom_line noCR line _ fun d mem => plain d (List.mem_cons_of_mem _ mem)]
    simp

theorem cr_not_mem_flatMap {lines : List Bytes} (plain : ∀ l ∈ lines, ∀ c ∈ l, plainByte c = true) :
    '\r' ∉ lines.flatMap (· ++ ['\n']) := by
  simp only [List.mem_flatMap, List.mem_append, List.mem_singleton, not_exists, not_and]
  rintro l mem (cr | cr)
  · exact absurd (plain l mem _ cr) (by decide)
  · exact absurd cr (by decide)

theorem specLinesFrom_lines : ∀ lines : List Bytes, (∀ l ∈ lines, ∀ c ∈ l, plainByte c = true) →
    specLinesFrom false false [] (lines.flatMap (· ++ ['\n'])) = lines
  | [], _ => rfl
  | line :: rest, plain => by
    have restPlain : ∀ l ∈ rest, ∀ c ∈ l, plainByte c = true :=
      fun l mem => plain l (List.mem_cons_of_mem _ mem)
    rw [List.flatMap_cons, List.append_assoc, List.singleton_append,
      specLinesFrom_line (cr_not_mem_flatMap restPlain) line [] (plain line (List.mem_cons_self _ _)),
      specLinesFrom_lines rest restPlain, List.nil_append]

theorem readAllLines_render (d : Descriptor) : readAllLines d.render = d.lines := by
  rw [Descriptor.render, readAllLines_eq_specLogicalLines _ (cr_not_mem_flatMap d.plain_lines),
    specLogicalLines, specLinesFrom_lines _ d.plain_lines]

theorem trimString_tagged {tag body : Bytes} {sep : Char} (ident : ∀ c ∈ tag, isTagChar c = true)
    (notSpace : isspace sep = false) :
    trimString (tag ++ sep :: body) = tag ++ sep :: (body.reverse.dropWhile isspace).reverse := by
  have head : ∀ c ∈ (tag ++ sep :: body).head?, isspace c = false := by
    cases tag with
    | nil => simpa using notSpace
    | cons t _ => simpa using isspace_eq_false_of_isTagChar (ident t (List.mem_cons_self _ _))
  have tail : (body.reverse ++ sep :: tag.reverse).dropWhile isspace =
      body.reverse.dropWhile isspace ++ sep :: tag.reverse := by
    rw [List.dropWhile_append]
    split
    · rename_i empty
      rw [List.isEmpty_iff.1 empty, List.dropWhile_cons_of_neg (by simp [notSpace])]
      rfl
    · rfl
  rw [trimString, dropWhile_eq_self head, List.reverse_append, List.reverse_cons,
    List.append_assoc, List.singleton_append, tail]
  simp

section Lines

variable {env : Env} {pkg : Package} {path : Bytes}

theorem parseLine_assignment (a : Assignment) :
    parseLine env pkg a.line path = parseVariable env pkg a.name a.value.text path := by
  have value : (a.value.text.reverse.dropWhile isspace).reverse = a.value.text := by
    rw [dropWhile_eq_self (by rw [List.head?_reverse]; exact a.value.last), List.reverse_reverse]
  have notTag : isTagChar '=' = false := by decide
  simp only [parseLine, Assignment.line, trimString_tagged a.ident (by decide : isspace '=' = false),
    value, takeWhile_word _ a.ident notTag, dropWhile_word _ a.ident notTag,
    List.dropWhile_cons_of_neg (by decide : ¬isspace '=' = true), dropWhile_eq_self a.value.head]

theorem parseLine_field {tag : Bytes} (ident : ∀ c ∈ tag, isTagChar c = true) (v : PlainValue) :
    parseLine env pkg (fieldLine tag v.text) path = parseField env pkg tag v.text path := by
  have value : ((' ' :: v.text).reverse.dropWhile isspace).reverse.dropWhile isspace = v.text := by
    cases last : v.text.getLast? with
    | none => rw [List.getLast?_eq_none_iff.1 last]; rfl
    | some b =>
      have head : ∀ c ∈ ((' ' :: v.text).reverse).head?, isspace c = false := by
        simpa [List.head?_append, List.head?_reverse, last] using v.last b last
      rw [@dropWhile_eq_self isspace _ head, List.reverse_reverse,
        List.dropWhile_cons_of_pos (by decide), dropWhile_eq_self v.head]
  have notTag : isTagChar ':' = false := by decide
  simp only [parseLine, fieldLine, trimString_tagged ident (by decide : isspace ':' = false),
    takeWhile_word _ ident notTag, dropWhile_word _ ident notTag,
    List.dropWhile_cons_of_neg (by decide : ¬isspace ':' = true), value]

theorem parseLines_cons_of_ok {line : Bytes} {rest : List Bytes} {pkg' : Package}
    (plain : ∀ c ∈ line, plainByte c = true) (step : parseLine env pkg line path = pure pkg') :
    parseLines env path pkg (line :: rest) = parseLines env path pkg' rest := by
  rw [parseLines, cString_eq_self (nul_not_mem_of_plain plain), step, pure_bind]

theorem parseLines_append (xs ys : List Bytes) : ∀ pkg : Package,
    parseLines env path pkg (xs ++ ys) =
      parseLines env path pkg xs >>= fun pkg' => parseLines env path pkg' ys := by
  induction xs with
  | nil => intro pkg; rw [List.nil_append, parseLines, pure_bind]
  | cons x xs ih =>
    intro pkg
    rw [List.cons_append, parseLines, parseLines, bind_assoc]
    simp only [ih]

theorem parseVariable_plain {tag : Bytes}
    (notPrefix : ¬(env.definePrefix = true ∧ tag = env.prefixVariable))
    (noOrig : pkg.origPrefix = none) (fresh : pkg.vars.lookup tag = none) (v : PlainValue) :
    parseVariable env pkg tag v.text path = pure { pkg with vars := pkg.vars.insert tag v.text } := by
  simp only [parseVariable, if_neg notPrefix, noOrig, defineVariable, fresh, trimAndSub_plain,
    pure_bind]

theorem parseLines_defines (value : Assignment → Bytes) (Inv : Package → Prop) :
    ∀ (vars : List Assignment) (pkg : Package),
    (∀ q, ∀ a ∈ vars, Inv q → q.vars.lookup a.name = none →
      parseLine env q a.line path = pure { q with vars := q.vars.insert a.name (value a) }) →
    (∀ q, ∀ a ∈ vars, Inv q → Inv { q with vars := q.vars.insert a.name (value a) }) →
    (vars.map Assignment.name).Nodup → Inv pkg →
    (∀ k ∈ vars.map Assignment.name, pkg.vars.lookup k = none) →
    parseLines env path pkg (vars.map Assignment.line) =
      pure { pkg with vars := (vars.map fun a => (a.name, value a)).reverse ++ pkg.vars }
  | [], pkg, _, _, _, _, _ => by cases pkg; rfl
  | a :: rest, pkg, step, keep, distinct, inv, fresh => by
    obtain ⟨new, distinct⟩ := List.nodup_cons.1 distinct
    have here := List.mem_cons_self a rest
    rw [List.map_cons, parseLines_cons_of_ok a.plain_line
        (step pkg a here inv (fresh _ (List.mem_map_of_mem _ here))),
      parseLines_defines value Inv rest _ (fun q b mem => step q b (List.mem_cons_of_mem _ mem))
        (fun q b mem => keep q b (List.mem_cons_of_mem _ mem)) distinct (keep pkg a here inv)
        fun k mem => ?_]
    · simp [Table.insert]
    · have other : a.name ≠ k := fun same => new (same ▸ mem)
      rw [Table.lookup_insert_of_ne _ _ other]
      exact fresh k (List.mem_cons_of_mem _ mem)

theorem parseStringField_plain {field : Bytes} {get : Package → Option Bytes}
    {set : Package → Bytes → Package} (unset : get pkg = none) (v : PlainValue) :
    parseStringField field get set env pkg v.text path = pure (set pkg v.text) := by
  simp only [parseStringField, unset, trimAndSub_plain, pure_bind]

theorem parseLines_optionalLine (tag : Bytes) (get : Package → Option Bytes)
    (set : Package → Option Bytes → Package) (ident : ∀ c ∈ tag, isTagChar c = true)
    (dispatch : ∀ pkg p, parseField env pkg tag p path =
      parseStringField tag get (fun pkg v => set pkg (some v)) env pkg p path)
    (unset : get pkg = none) (same : set pkg none = pkg) :
    ∀ o : Option PlainValue,
      parseLines env path pkg (optionalLine tag o) = pure (set pkg (o.map PlainValue.text))
  | none => by rw [Option.map_none', same]; rfl
  | some v => by
    rw [optionalLine, parseLines_cons_of_ok (plain_fieldLine ident v) ((parseLine_field ident v).trans
      ((dispatch _ _).trans (parseStringField_plain unset v)))]
    rfl

theorem parseLines_textLines (d : Descriptor)
    (unset : pkg.name = none ∧ pkg.version = none ∧ pkg.description = none ∧ pkg.url = none) :
    parseLines env path pkg d.textLines = pure { pkg with
      name := d.name.map PlainValue.text, version := d.version.map PlainValue.text,
      description := d.description.map PlainValue.text, url := d.url.map PlainValue.text } := by
  cases pkg
  obtain ⟨rfl, rfl, rfl, rfl⟩ := unset
  rw [Descriptor.textLines, parseLines_append, parseLines_append, parseLines_append,
    parseLines_optionalLine "Name".toList Package.name (fun pkg o => { pkg with name := o })
      (by decide) (fun _ _ => rfl) rfl rfl d.name, pure_bind,
    parseLines_optionalLine "Version".toList Package.version
      (fun pkg o => { pkg with version := o }) (by decide) (fun _ _ => rfl) rfl rfl d.version,
    pure_bind,
    parseLines_optionalLine "Description".toList Package.description
      (fun pkg o => { pkg with description := o }) (by decide) (fun _ _ => rfl) rfl rfl
      d.description, pure_bind,
    parseLines_optionalLine "URL".toList Package.url (fun pkg o => { pkg with url := o })
      (by decide) (fun _ _ => rfl) rfl rfl d.url]

theorem parseDeps_moduleLine (l : ModuleLine) (listp : List RequiredVersion) :
    parseDeps env pkg listp l.value.text path =
      pure ((l.entries.map ModuleEntry.toRequiredVersion).reverse ++ listp) := by
  have split : splitModuleList l.value.text = pure ((joinEntries l.entries).map (·.1.render)) := by
    simpa [splitModuleList, ModuleLine.value] using
      splitModuleListLoop_renderModuleList (joinEntries l.entries) (separatorRuns_joinEntries _) [] []
  simp only [parseDeps, doParseModuleList, trimAndSub_plain, split, pure_bind, except_pure_eq,
    except_ok_bind, doParseModuleListLoop_render, Proc.liftM_ok]
  rw [map_joinEntries]

theorem parseLine_moduleLine (tag : Bytes) (get : Package → List RequiredVersion)
    (set : Package → List RequiredVersion → Package) (ident : ∀ c ∈ tag, isTagChar c = true)
    (dispatch : ∀ pkg p, parseField env pkg tag p path =
      (do return set pkg (← parseDeps env pkg (get pkg) p path)))
    (l : ModuleLine) :
    parseLine env pkg (fieldLine tag l.value.text) path =
      pure (set pkg ((l.entries.map ModuleEntry.toRequiredVersion).reverse ++ get pkg)) := by
  rw [parseLine_field ident, dispatch, parseDeps_moduleLine, pure_bind]

theorem parseLines_moduleLines (d : Descriptor) :
    parseLines env path pkg d.moduleLines = pure { pkg with
      requiresEntries :=
        (d.requires.entries.map ModuleEntry.toRequiredVersion).reverse ++ pkg.requiresEntries
      requiresPrivateEntries := (d.requiresPrivate.entries.map ModuleEntry.toRequiredVersion).reverse ++
        pkg.requiresPrivateEntries
      conflicts := (d.conflicts.entries.map ModuleEntry.toRequiredVersion).reverse ++ pkg.conflicts } := by
  rw [Descriptor.moduleLines,
    parseLines_cons_of_ok (plain_fieldLine (by decide) d.requires.value)
      (parseLine_moduleLine "Requires".toList Package.requiresEntries
        (fun pkg l => { pkg with requiresEntries := l }) (by decide) (fun _ _ => rfl) d.requires),
    parseLines_cons_of_ok (plain_fieldLine (by decide) d.requiresPrivate.value)
      (parseLine_moduleLine "Requires.private".toList
        Package.requiresPrivateEntries (fun pkg l => { pkg with requiresPrivateEntries := l })
        (by decide) (fun _ _ => rfl) d.requiresPrivate),
    parseLines_cons_of_ok (plain_fieldLine (by decide) d.conflicts.value)
      (parseLine_moduleLine "Conflicts".toList Package.conflicts
        (fun pkg l => { pkg with conflicts := l }) (by decide) (fun _ _ => rfl) d.conflicts)]
  rfl

end Lines

theorem parseLines_render (env : Env) (id : Nat) (key path : Bytes) (d : Descriptor)
    (notPrefix : ∀ k ∈ d.vars.map Assignment.name,
      ¬(env.definePrefix = true ∧ k = env.prefixVariable)) :
    parseLines env path { Package.new0 id with
        key := key, pcfiledir := some (gPathGetDirname path),
        vars := [("pcfiledir".toList, gPathGetDirname path)] } d.lines =
      pure { d.toPackage id key path with
        requiresEntries := (d.requires.entries.map ModuleEntry.toRequiredVersion).reverse
        requiresPrivateEntries := (d.requiresPrivate.entries.map ModuleEntry.toRequiredVersion).reverse
        conflicts := (d.conflicts.entries.map ModuleEntry.toRequiredVersion).reverse } := by
  let start : Package := { Package.new0 id with
    key := key, pcfiledir := some (gPathGetDirname path),
    vars := [("pcfiledir".toList, gPathGetDirname path)] }
  have fresh : ∀ k ∈ d.vars.map Assignment.name, start.vars.lookup k = none := fun k mem => by
    have other : "pcfiledir".toList ≠ k := fun same => d.notPcfiledir (same ▸ mem)
    rw [Table.lookup, if_neg other]
    rfl
  have defined := @parseLines_defines env path (fun a => a.value.text) (fun q => q.origPrefix = none)
    d.vars start (fun q a mem noOrig unset => (parseLine_assignment a).trans
      (parseVariable_plain (notPrefix _ (List.mem_map_of_mem _ mem)) noOrig unset a.value))
    (fun _ _ _ noOrig => noOrig) d.distinct rfl fresh
  rw [Descriptor.lines, parseLines_append, parseLines_append, defined, pure_bind,
    parseLines_textLines d ⟨rfl, rfl, rfl, rfl⟩, pure_bind, parseLines_moduleLines d]
  simp [Descriptor.toPackage, start, Package.new0]

/-- The `.pc` round trip: from every state a descriptor's text parses to what it describes. -/
theorem parsePackageFile_render (env : Env) (id : Nat) (key path : Bytes) (d : Descriptor)
    (notPrefix : ∀ k ∈ d.vars.map Assignment.name,
      ¬(env.definePrefix = true ∧ k = env.prefixVariable)) :
    parsePackageFile env id key path (some d.render) = pure (some (d.toPackage id key path)) := by
  simp only [parsePackageFile, readAllLines_render, parseLines_render env id key path d notPrefix,
    pure_bind]
  simp [Descriptor.toPackage, Package.new0]

/-- `define_prefix` on, with the prefix variable `prefix`. -/
def relocatingPrefixEnv : Env := ⟨true, true, "prefix".toList, [], fun _ => none⟩

/-- `libdir=/usr/lib`, `Name: foo`, `Version: 1.0` and `Requires: glib-2.0 >= 2.1`. -/
def fooDescriptor : Descriptor where
  vars := [⟨"libdir".toList, ⟨"/usr/lib".toList, by decide, by decide, by decide⟩, by decide⟩]
  name := some ⟨"foo".toList, by decide, by decide, by decide⟩
  version := some ⟨"1.0".toList, by decide, by decide, by decide⟩
  description := none
  url := none
  requires := ⟨[glibEntry], by decide⟩
  requiresPrivate := ⟨[], by simp⟩
  conflicts := ⟨[], by simp⟩
  distinct := by decide
  notPcfiledir := by decide

example : fooDescriptor.render =
    "libdir=/usr/lib\nName: foo\nVersion: 1.0\nRequires: glib-2.0 >= 2.1\nRequires.private: \nConflicts: \n".toList := by
  decide

theorem parsePackageFile_render_foo :
    (∀ k ∈ fooDescriptor.vars.map Assignment.name,
      ¬(relocatingPrefixEnv.definePrefix = true ∧ k = relocatingPrefixEnv.prefixVariable)) ∧
    parsePackageFile relocatingPrefixEnv 0 "foo".toList "/usr/lib/pkgconfig/foo.pc".toList
        (some fooDescriptor.render) =
      pure (some (fooDescriptor.toPackage 0 "foo".toList "/usr/lib/pkgconfig/foo.pc".toList)) :=
  ⟨by decide, parsePackageFile_render _ _ _ _ _ (by decide)⟩

end PkgConfig
