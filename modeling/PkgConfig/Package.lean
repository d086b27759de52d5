import PkgConfig.Version

/-! The data model shared by parse.c and pkg.c: `Flag`, `RequiredVersion`, `Package`,
and the ways the process ends early (`exit (1)`, a failed assertion, a NULL or
out-of-bounds read). A `Package` owns the packages of its `requires` list, so a
descriptor graph is the unfolding of an acyclic graph into a tree; the `id` field is
the identity of the `Package *` that `g_new0` allocated. -/

namespace PkgConfig

/-- `FlagType`. -/
inductive FlagType
  | cflagsI | cflagsOther | libsl | libsL | libsOther
  deriving DecidableEq, Repr

/-- `Flag`: a classified, shell-escaped argument. -/
structure Flag where
  type : FlagType
  arg : Bytes
  deriving DecidableEq, Repr

/-- `RequiredVersion`; `version` is NULL when the entry names no version. -/
structure RequiredVersion where
  name : Bytes
  comparison : ComparisonType
  version : Option Bytes
  deriving DecidableEq, Repr

/-- `Package`, with every field that parse.c or pkg.c reads or writes. -/
structure Package where
  id : Nat
  key : Bytes
  name : Option Bytes
  version : Option Bytes
  description : Option Bytes
  url : Option Bytes
  pcfiledir : Option Bytes
  vars : Table Bytes
  origPrefix : Option Bytes
  requiresEntries : List RequiredVersion
  requiresPrivateEntries : List RequiredVersion
  conflicts : List RequiredVersion
  requiredVersions : Option (Table RequiredVersion)
  requires : List Package
  cflags : List Flag
  libs : List Flag
  libsPrivate : List Flag
  lLibs : List Bytes
  LLibs : List Bytes
  ICflags : List Bytes
  otherLibs : Option Bytes
  otherCflags : Option Bytes
  lLibsMerged : Option Bytes
  LLibsMerged : Option Bytes
  ICflagsMerged : Option Bytes
  uninstalled : Bool
  deriving Repr

/-- `g_new0 (Package, 1)` as the object `id`: every pointer NULL, every list empty. -/
def Package.new0 (id : Nat) : Package where
  id := id
  key := []
  name := none
  version := none
  description := none
  url := none
  pcfiledir := none
  vars := []
  origPrefix := none
  requiresEntries := []
  requiresPrivateEntries := []
  conflicts := []
  requiredVersions := none
  requires := []
  cflags := []
  libs := []
  libsPrivate := []
  lLibs := []
  LLibs := []
  ICflags := []
  otherLibs := none
  otherCflags := none
  lLibsMerged := none
  LLibsMerged := none
  ICflagsMerged := none
  uninstalled := false

/-- The fields pkg.c reads and parse.c never writes: the resolution and the merges. -/
def Package.links (pkg : Package) :=
  (pkg.requires, pkg.requiredVersions, pkg.lLibs, pkg.LLibs, pkg.ICflags, pkg.lLibsMerged,
    pkg.LLibsMerged, pkg.ICflagsMerged)

/-- A package whose `links` are still as `g_new0` left them. -/
def Package.Unresolved (pkg : Package) : Prop := pkg.links = (Package.new0 pkg.id).links

/-- How the process ends before a call returns, with what its diagnostic cites. -/
inductive Fatal
  /-- "Package '%s' has no Name: field" (the key). -/
  | noName (key : Bytes)
  /-- "Package '%s' has no Version: field" (the name). -/
  | noVersion (name : Bytes)
  /-- "Package '%s' has no Description: field" (the description). -/
  | noDescription (description : Option Bytes)
  /-- "Package '%s' requires '%s %s %s' but version of %s is %s". -/
  | requiresVersion (name key : Bytes) (ver : RequiredVersion) (reqName reqVersion : Option Bytes)
  /-- "Version %s of %s creates a conflict." -/
  | conflict (reqVersion reqName : Option Bytes) (ver : RequiredVersion)
  /-- "%s field occurs twice in '%s'". -/
  | fieldTwice (field path : Bytes)
  /-- "Variable '%s' not defined in '%s'". -/
  | undefinedVariable (varname path : Bytes)
  /-- "Unknown version comparison operator". -/
  | unknownOperator (op name path : Bytes)
  /-- "Comparison operator but no version". -/
  | noVersionAfterOperator (name path : Bytes)
  /-- "Couldn't parse %s field into an argument vector". -/
  | argvParse (field : Bytes)
  /-- "Duplicate definition of variable '%s' in '%s'". -/
  | duplicateVariable (tag path : Bytes)
  /-- "Variable '%s' defined twice globally". -/
  | globalTwice (varname : Bytes)
  /-- A `g_assert` or `g_assert_not_reached` fails. -/
  | assertion
  /-- A NULL string is read (undefined behaviour). -/
  | nullDereference
  /-- A string is read past its terminating NUL (undefined behaviour). -/
  | readPastEnd
  /-- A byte is written outside its buffer (undefined behaviour). -/
  | outOfBoundsWrite
  /-- The storage of a global is used after a caller of `package_get_var` freed it. -/
  | useAfterFree (varname : Bytes)
  deriving Repr

theorem bind_eq_ok {α β : Type} {x : Except Fatal α} {f : α → Except Fatal β} {b : β} :
    x >>= f = .ok b ↔ ∃ a, x = .ok a ∧ f a = .ok b := by
  cases x <;> simp [bind, Except.bind]

@[simp] theorem except_pure_eq {α : Type} (a : α) : (pure a : Except Fatal α) = .ok a := rfl

@[simp] theorem except_ok_bind {α β : Type} (a : α) (f : α → Except Fatal β) :
    (Except.ok a >>= f) = f a := rfl

@[simp] theorem except_error_bind {α β : Type} (e : Fatal) (f : α → Except Fatal β) :
    (Except.error e >>= f) = .error e := rfl

/-- A step of the process, over the names of the globals whose storage has been freed. -/
abbrev Proc := StateT (List Bytes) (Except Fatal)

@[simp] theorem Proc.run_throw {α : Type} (e : Fatal) (s : List Bytes) :
    (throw e : Proc α).run s = .error e := rfl

theorem Proc.run_pure_eq_ok {α : Type} {a b : α} {s s' : List Bytes} :
    (pure a : Proc α).run s = .ok (b, s') ↔ a = b ∧ s = s' := by
  simp only [StateT.run_pure, except_pure_eq, Except.ok.injEq, Prod.mk.injEq]

theorem Proc.run_bind_eq_ok {α β : Type} {x : Proc α} {f : α → Proc β} {s s'' : List Bytes}
    {b : β} : (x >>= f).run s = .ok (b, s'') ↔
      ∃ a s', x.run s = .ok (a, s') ∧ (f a).run s' = .ok (b, s'') := by
  simp only [StateT.run_bind, bind_eq_ok, Prod.exists]

theorem Proc.run_lift_eq_ok {α : Type} {x : Except Fatal α} {s s' : List Bytes} {a : α} :
    (liftM x : Proc α).run s = .ok (a, s') ↔ x = .ok a ∧ s = s' := by
  cases x <;> simp [liftM, StateT.run_monadLift, and_comm, eq_comm]

@[simp] theorem Proc.liftM_ok {α : Type} (a : α) : (liftM (Except.ok a : Except Fatal α) : Proc α) = pure a :=
  rfl

/-- Whatever `r` returns, from any state, satisfies `P`. -/
def Returns {α : Type} (P : α → Prop) (r : Proc α) : Prop :=
  ∀ s a s', r.run s = .ok (a, s') → P a

section Returns

variable {α β : Type} {P : β → Prop}

theorem returns_pure {b : β} (h : P b) : Returns P (pure b) := by
  rintro _ _ _ ⟨⟩
  exact h

theorem returns_throw (e : Fatal) : Returns P (throw e) := by
  rintro _ _ _ ⟨⟩

theorem returns_ite {c : Prop} [Decidable c] {a b : Proc β} (ha : c → Returns P a)
    (hb : ¬c → Returns P b) : Returns P (if c then a else b) := by
  by_cases hc : c
  · rw [if_pos hc]; exact ha hc
  · rw [if_neg hc]; exact hb hc

theorem returns_refuse {strict : Bool} {e : Fatal} {b : β} (h : P b) :
    Returns P (if strict = true then throw e else pure b) :=
  returns_ite (fun _ => returns_throw e) fun _ => returns_pure h

theorem returns_bind_of {Q : α → Prop} {x : Proc α} {f : α → Proc β} (hx : Returns Q x)
    (hf : ∀ a, Q a → Returns P (f a)) : Returns P (x >>= f) := by
  intro s b s'' h
  obtain ⟨a, s', first, later⟩ := Proc.run_bind_eq_ok.mp h
  exact hf a (hx s a s' first) s' b s'' later

theorem returns_bind {x : Proc α} {f : α → Proc β} (hf : ∀ a, Returns P (f a)) :
    Returns P (x >>= f) := by
  intro s b s'' h
  obtain ⟨a, s', -, later⟩ := Proc.run_bind_eq_ok.mp h
  exact hf a s' b s'' later

end Returns

end PkgConfig
