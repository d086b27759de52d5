import PkgConfig.Parse

/-! Strict and lax parsing. `parse_strict` only decides whether a malformed line exits or
is let through: a second `Name`, `Version`, `Description`, `URL` or `Cflags` field, a
variable defined twice, an undefined variable, an unknown operator or a missing version
in a module list, an argument list that `g_shell_parse_argv` refuses. So lax mode reads
every file that strict mode reads, into the same package. -/

namespace PkgConfig

/-- The same configuration with `parse_strict` off. -/
def Env.lax (env : Env) : Env := { env with parseStrict := false }

/-- Whatever `r` returns, `r'` returns too. -/
def Agrees {α : Type} (r r' : Except Fatal α) : Prop := ∀ a, r = .ok a → r' = .ok a

/-- Whatever `r` returns from a state, `r'` returns from it too. -/
def RunAgrees {α : Type} (r r' : Proc α) : Prop := ∀ s, Agrees (r.run s) (r'.run s)

section Agrees

variable {α β : Type}

theorem agrees_refl (r : Except Fatal α) : Agrees r r := fun _ h => h

theorem agrees_throw (e : Fatal) (r' : Except Fatal α) : Agrees (throw e) r' := by
  rintro _ ⟨⟩

theorem agrees_bind {x x' : Except Fatal α} {f f' : α → Except Fatal β} (hx : Agrees x x')
    (hf : ∀ a, Agrees (f a) (f' a)) : Agrees (x >>= f) (x' >>= f') := by
  intro b h
  obtain ⟨a, first, later⟩ := bind_eq_ok.mp h
  exact bind_eq_ok.mpr ⟨a, hx a first, hf a b later⟩

theorem agrees_ite {c : Prop} [Decidable c] {a a' b b' : Except Fatal α}
    (ha : c → Agrees a a') (hb : ¬c → Agrees b b') :
    Agrees (if c then a else b) (if c then a' else b') := by
  by_cases hc : c
  · rw [if_pos hc, if_pos hc]; exact ha hc
  · rw [if_neg hc, if_neg hc]; exact hb hc

theorem agrees_strict {strict : Bool} {e : Fatal} {t' r : Except Fatal α} :
    Agrees (if strict = true then throw e else r) (if false = true then t' else r) := by
  cases strict
  · exact agrees_refl r
  · exact agrees_throw e _

theorem runAgrees_refl (r : Proc α) : RunAgrees r r := fun _ => agrees_refl _

theorem runAgrees_throw (e : Fatal) (r' : Proc α) : RunAgrees (throw e) r' := fun _ _ h => nomatch h

theorem runAgrees_lift {x x' : Except Fatal α} (h : Agrees x x') :
    RunAgrees (liftM x : Proc α) (liftM x') := fun _ =>
  agrees_bind h fun _ => agrees_refl _

theorem runAgrees_bind {x x' : Proc α} {f f' : α → Proc β} (hx : RunAgrees x x')
    (hf : ∀ a, RunAgrees (f a) (f' a)) : RunAgrees (x >>= f) (x' >>= f') := fun s =>
  agrees_bind (hx s) fun p => hf p.1 p.2

theorem runAgrees_ite {c : Prop} [Decidable c] {a a' b b' : Proc α}
    (ha : c → RunAgrees a a') (hb : ¬c → RunAgrees b b') :
    RunAgrees (if c then a else b) (if c then a' else b') := by
  by_cases hc : c
  · rw [if_pos hc, if_pos hc]; exact ha hc
  · rw [if_neg hc, if_neg hc]; exact hb hc

theorem runAgrees_strict {strict : Bool} {e : Fatal} {t' r : Proc α} :
    RunAgrees (if strict = true then throw e else r) (if false = true then t' else r) := by
  cases strict
  · exact runAgrees_refl r
  · exact runAgrees_throw e _

end Agrees

section Steps

variable {env : Env} {pkg : Package} {path : Bytes}

theorem substituteVariable_lax (varname subst : Bytes) :
    RunAgrees (substituteVariable env pkg path varname subst)
      (substituteVariable env.lax pkg path varname subst) := by
  unfold substituteVariable
  dsimp only [Env.lax]
  cases packageGetVar env.globals pkg varname with
  | some varval => exact runAgrees_refl _
  | none => exact runAgrees_strict

theorem trimAndSubLoop_lax (varname : Option Bytes) (subst : Bytes) (rest : List Char) :
    RunAgrees (trimAndSubLoop env pkg path varname subst rest)
      (trimAndSubLoop env.lax pkg path varname subst rest) := by
  induction varname, subst, rest using trimAndSubLoop.induct env pkg path with
  | case1 varname subst =>
    rw [trimAndSubLoop.eq_1, trimAndSubLoop.eq_1]
    exact runAgrees_bind (substituteVariable_lax _ _) fun _ => runAgrees_throw _ _
  | case2 subst => exact runAgrees_refl _
  | case3 varname subst rest ih =>
    rw [trimAndSubLoop.eq_3, trimAndSubLoop.eq_3]
    exact runAgrees_bind (substituteVariable_lax _ _) ih
  | case4 varname subst c rest notClose ih =>
    rw [trimAndSubLoop.eq_4 _ _ _ _ _ _ _ notClose, trimAndSubLoop.eq_4 _ _ _ _ _ _ _ notClose]
    exact ih
  | case5 subst rest ih => rw [trimAndSubLoop.eq_5, trimAndSubLoop.eq_5]; exact ih
  | case6 subst rest ih => rw [trimAndSubLoop.eq_6, trimAndSubLoop.eq_6]; exact ih
  | case7 subst c rest notDollar notBrace ih =>
    rw [trimAndSubLoop.eq_7 _ _ _ _ _ _ notDollar notBrace,
      trimAndSubLoop.eq_7 _ _ _ _ _ _ notDollar notBrace]
    exact ih

theorem trimAndSub_lax (str : Bytes) :
    RunAgrees (trimAndSub env pkg str path) (trimAndSub env.lax pkg str path) :=
  trimAndSubLoop_lax _ _ _

theorem parseModuleEntry_lax (strict : Bool) (module : Bytes) :
    Agrees (parseModuleEntry strict path module) (parseModuleEntry false path module) := by
  unfold parseModuleEntry
  refine agrees_ite (fun _ => agrees_refl _) fun _ => ?_
  split
  · exact agrees_strict
  · exact agrees_ite (fun _ => agrees_strict) fun _ => agrees_refl _

theorem doParseModuleListLoop_lax (strict : Bool) :
    ∀ (modules : List Bytes) (listp : List RequiredVersion),
      Agrees (doParseModuleListLoop strict path modules listp)
        (doParseModuleListLoop false path modules listp)
  | [], _ => agrees_refl _
  | module :: rest, listp => agrees_bind (parseModuleEntry_lax strict module) fun ver =>
    doParseModuleListLoop_lax strict rest (ver :: listp)

theorem parseDeps_lax (listp : List RequiredVersion) (str : Bytes) :
    RunAgrees (parseDeps env pkg listp str path) (parseDeps env.lax pkg listp str path) :=
  runAgrees_bind (trimAndSub_lax str) fun _ => runAgrees_lift <|
    agrees_bind (agrees_refl _) fun split => doParseModuleListLoop_lax _ split listp

theorem parseLibs_lax (listp : List Flag) (field str : Bytes) :
    RunAgrees (parseLibs env pkg listp field str path) (parseLibs env.lax pkg listp field str path) := by
  refine runAgrees_bind (trimAndSub_lax str) fun trimmed =>
    runAgrees_ite (fun _ => runAgrees_refl _) fun _ => ?_
  simp only [Env.lax]
  split
  · exact runAgrees_refl _
  · exact runAgrees_strict

theorem parseCflags_lax (str : Bytes) :
    RunAgrees (parseCflags env pkg str path) (parseCflags env.lax pkg str path) := by
  unfold parseCflags
  dsimp only
  refine runAgrees_ite (fun _ => runAgrees_strict) fun _ =>
    runAgrees_bind (runAgrees_refl _) fun _ => runAgrees_bind (trimAndSub_lax str) fun trimmed =>
      runAgrees_ite (fun _ => runAgrees_refl _) fun _ => ?_
  simp only [Env.lax]
  split
  · exact runAgrees_refl _
  · exact runAgrees_strict

theorem parseStringField_lax {field : Bytes} {get : Package → Option Bytes}
    {set : Package → Bytes → Package} (str : Bytes) :
    RunAgrees (parseStringField field get set env pkg str path)
      (parseStringField field get set env.lax pkg str path) := by
  unfold parseStringField
  split
  · exact runAgrees_strict
  · exact runAgrees_bind (trimAndSub_lax str) fun _ => runAgrees_refl _

theorem defineVariable_lax (tag value : Bytes) :
    RunAgrees (defineVariable env pkg tag value path) (defineVariable env.lax pkg tag value path) := by
  unfold defineVariable
  split
  · exact runAgrees_strict
  · exact runAgrees_bind (trimAndSub_lax value) fun _ => runAgrees_refl _

theorem parseVariable_lax (tag p : Bytes) :
    RunAgrees (parseVariable env pkg tag p path) (parseVariable env.lax pkg tag p path) := by
  unfold parseVariable
  refine runAgrees_ite (fun _ => runAgrees_ite (fun _ => runAgrees_refl _) fun _ => defineVariable_lax _ _)
    fun _ => ?_
  split
  · exact runAgrees_ite (fun _ => defineVariable_lax _ _) fun _ => defineVariable_lax _ _
  · exact defineVariable_lax _ _

theorem parseField_lax (tag p : Bytes) :
    RunAgrees (parseField env pkg tag p path) (parseField env.lax pkg tag p path) := by
  have deps : ∀ listp (set : List RequiredVersion → Package),
      RunAgrees (parseDeps env pkg listp p path >>= fun l => pure (set l))
        (parseDeps env.lax pkg listp p path >>= fun l => pure (set l)) := fun listp _ =>
    runAgrees_bind (parseDeps_lax listp p) fun _ => runAgrees_refl _
  have libs : ∀ listp field (set : List Flag → Package),
      RunAgrees (parseLibs env pkg listp field p path >>= fun l => pure (set l))
        (parseLibs env.lax pkg listp field p path >>= fun l => pure (set l)) := fun listp field _ =>
    runAgrees_bind (parseLibs_lax listp field p) fun _ => runAgrees_refl _
  unfold parseField
  exact runAgrees_ite (fun _ => parseStringField_lax p) fun _ =>
    runAgrees_ite (fun _ => parseStringField_lax p) fun _ =>
    runAgrees_ite (fun _ => parseStringField_lax p) fun _ =>
    runAgrees_ite (fun _ => deps _ _) fun _ => runAgrees_ite (fun _ => deps _ _) fun _ =>
    runAgrees_ite (fun _ => libs _ _ _) fun _ => runAgrees_ite (fun _ => libs _ _ _) fun _ =>
    runAgrees_ite (fun _ => parseCflags_lax p) fun _ => runAgrees_ite (fun _ => deps _ _) fun _ =>
    runAgrees_ite (fun _ => parseStringField_lax p) fun _ => runAgrees_refl _

theorem parseLine_lax (line : Bytes) :
    RunAgrees (parseLine env pkg line path) (parseLine env.lax pkg line path) := by
  unfold parseLine
  dsimp only
  split
  · exact parseField_lax _ _
  · exact parseVariable_lax _ _
  · exact runAgrees_refl _

end Steps

theorem parseLines_lax {env : Env} {path : Bytes} :
    ∀ (pkg : Package) (lines : List Bytes),
      RunAgrees (parseLines env path pkg lines) (parseLines env.lax path pkg lines)
  | _, [] => runAgrees_refl _
  | _, line :: rest => runAgrees_bind (parseLine_lax (cString line)) fun mid => parseLines_lax mid rest

/-- What strict parsing reads, from any state, lax parsing reads the same way. -/
theorem parsePackageFile_lax_of_strict (env : Env) (id : Nat) (key path : Bytes)
    (contents : Option (List Char)) {freed freed' : List Bytes} {r : Option Package}
    (accepted : (parsePackageFile env id key path contents).run freed = .ok (r, freed')) :
    (parsePackageFile env.lax id key path contents).run freed = .ok (r, freed') := by
  revert accepted
  unfold parsePackageFile
  split
  · exact runAgrees_refl _ freed (r, freed')
  · exact runAgrees_bind (parseLines_lax _ _) (fun _ => runAgrees_refl _) freed (r, freed')

/-- What lax parsing can end with: a read past the end, or a use of a freed global. -/
def LaxFault (globals : Table Bytes) (e : Fatal) : Prop :=
  e = .readPastEnd ∨ ∃ varname, e = .useAfterFree varname ∧ (globals.lookup varname).isSome

/-- Every error `r` can end with, from any state, satisfies `Q`. -/
def Fails {α : Type} (Q : Fatal → Prop) (r : Proc α) : Prop := ∀ s e, r.run s = .error e → Q e

section Fails

variable {α β : Type} {Q : Fatal → Prop}

theorem fails_pure (a : α) : Fails Q (pure a) := fun _ _ h => nomatch h

theorem fails_bind {x : Proc α} {f : α → Proc β} (hx : Fails Q x) (hf : ∀ a, Fails Q (f a)) :
    Fails Q (x >>= f) := by
  intro s e h
  rw [StateT.run_bind] at h
  cases first : x.run s with
  | error e' =>
    rw [first] at h
    cases h
    exact hx s _ first
  | ok p =>
    rw [first] at h
    exact hf p.1 p.2 e h

theorem fails_ite {c : Prop} [Decidable c] {a b : Proc α} (ha : c → Fails Q a)
    (hb : ¬c → Fails Q b) : Fails Q (if c then a else b) := by
  by_cases hc : c
  · rw [if_pos hc]; exact ha hc
  · rw [if_neg hc]; exact hb hc

theorem fails_lax {t r : Proc α} (h : Fails Q r) : Fails Q (if false = true then t else r) := h

theorem fails_liftM_ok {x : Except Fatal α} {a : α} (ok : x = .ok a) : Fails Q (liftM x : Proc α) := by
  rw [ok, Proc.liftM_ok]
  exact fails_pure a

end Fails

section LaxSteps

variable {env : Env} {pkg : Package} {path : Bytes} (lax : env.parseStrict = false)
include lax

theorem substituteVariable_faults (varname subst : Bytes) :
    Fails (LaxFault env.globals) (substituteVariable env pkg path varname subst) := by
  unfold substituteVariable
  split
  · next varval found =>
    refine fails_bind ?_ fun _ => fails_pure _
    cases varval with
    | copy value => exact fails_pure _
    | global value =>
      intro freed e h
      rw [readThenFree_global_run] at h
      split_ifs at h
      cases h
      exact .inr ⟨varname, rfl, by simp [packageGetVar_global_iff.1 found]⟩
  · rw [lax]
    exact fails_lax (fails_pure _)

theorem trimAndSubLoop_faults (varname : Option Bytes) (subst : Bytes) (rest : List Char) :
    Fails (LaxFault env.globals) (trimAndSubLoop env pkg path varname subst rest) := by
  induction varname, subst, rest using trimAndSubLoop.induct env pkg path with
  | case1 varname subst =>
    rw [trimAndSubLoop.eq_1]
    exact fails_bind (substituteVariable_faults lax _ _) fun _ _ _ h => by
      cases h
      exact .inl rfl
  | case2 subst => exact fails_pure _
  | case3 varname subst rest ih =>
    rw [trimAndSubLoop.eq_3]
    exact fails_bind (substituteVariable_faults lax _ _) ih
  | case4 varname subst c rest notClose ih => rwa [trimAndSubLoop.eq_4 _ _ _ _ _ _ _ notClose]
  | case5 subst rest ih => rwa [trimAndSubLoop.eq_5]
  | case6 subst rest ih => rwa [trimAndSubLoop.eq_6]
  | case7 subst c rest notDollar notBrace ih =>
    rwa [trimAndSubLoop.eq_7 _ _ _ _ _ _ notDollar notBrace]

theorem trimAndSub_faults (str : Bytes) : Fails (LaxFault env.globals) (trimAndSub env pkg str path) :=
  trimAndSubLoop_faults lax _ _ _

omit lax in
theorem parseModuleEntry_lax_ok {module : Bytes} (start : ModuleStart module) :
    ∃ ver, parseModuleEntry false path module = .ok ver := by
  obtain ⟨c, t, rfl, plain⟩ := start
  have named : (c :: t).takeWhile (fun c => !isspace c) ≠ [] := by
    simp [List.takeWhile_cons, isspace_eq_false_of_plain plain]
  simp only [parseModuleEntry, if_neg named, Bool.false_eq_true, if_false]
  split
  · exact ⟨_, rfl⟩
  · split_ifs <;> exact ⟨_, rfl⟩

omit lax in
theorem doParseModuleListLoop_lax_ok : ∀ (modules : List Bytes) (listp : List RequiredVersion),
    (∀ m ∈ modules, ModuleStart m) → ∃ vers, doParseModuleListLoop false path modules listp = .ok vers
  | [], listp, _ => ⟨listp, rfl⟩
  | m :: rest, listp, starts => by
    obtain ⟨ver, entry⟩ := @parseModuleEntry_lax_ok path _ (starts m (List.mem_cons_self _ _))
    rw [doParseModuleListLoop, entry]
    exact doParseModuleListLoop_lax_ok rest _ fun m' mem => starts m' (List.mem_cons_of_mem _ mem)

theorem parseDeps_faults (listp : List RequiredVersion) (str : Bytes) :
    Fails (LaxFault env.globals) (parseDeps env pkg listp str path) := by
  refine fails_bind (trimAndSub_faults lax str) fun trimmed => ?_
  obtain ⟨modules, split, starts⟩ := splitModuleList_modules trimmed
  obtain ⟨vers, loop⟩ := @doParseModuleListLoop_lax_ok path modules listp starts
  exact @fails_liftM_ok _ _ _ vers (by rw [lax, doParseModuleList, split, pure_bind, loop])

theorem parseLibs_faults (listp : List Flag) (field str : Bytes) :
    Fails (LaxFault env.globals) (parseLibs env pkg listp field str path) := by
  refine fails_bind (trimAndSub_faults lax str) fun trimmed =>
    fails_ite (fun _ => fails_pure _) fun _ => ?_
  rw [lax]
  split
  · exact fails_pure _
  · exact fails_lax (fails_pure _)

theorem parseCflags_faults (str : Bytes) :
    Fails (LaxFault env.globals) (parseCflags env pkg str path) := by
  unfold parseCflags
  dsimp only
  rw [lax]
  refine fails_ite (fun _ => fails_lax (fails_pure _)) fun _ =>
    fails_bind (fails_pure _) fun _ => fails_bind (trimAndSub_faults lax str)
      fun trimmed => fails_ite (fun _ => fails_pure _) fun _ => ?_
  split
  · exact fails_pure _
  · exact fails_lax (fails_pure _)

theorem parseStringField_faults {field : Bytes} {get : Package → Option Bytes}
    {set : Package → Bytes → Package} (str : Bytes) :
    Fails (LaxFault env.globals) (parseStringField field get set env pkg str path) := by
  unfold parseStringField
  rw [lax]
  split
  · exact fails_lax (fails_pure _)
  · exact fails_bind (trimAndSub_faults lax str) fun _ => fails_pure _

theorem defineVariable_faults (tag value : Bytes) :
    Fails (LaxFault env.globals) (defineVariable env pkg tag value path) := by
  unfold defineVariable
  rw [lax]
  split
  · exact fails_lax (fails_pure _)
  · exact fails_bind (trimAndSub_faults lax value) fun _ => fails_pure _

theorem parseVariable_faults (tag p : Bytes) :
    Fails (LaxFault env.globals) (parseVariable env pkg tag p path) := by
  unfold parseVariable
  refine fails_ite (fun _ => fails_ite (fun _ => fails_pure _)
    fun _ => defineVariable_faults lax _ _) fun _ => ?_
  split
  · exact fails_ite (fun _ => defineVariable_faults lax _ _) fun _ => defineVariable_faults lax _ _
  · exact defineVariable_faults lax _ _

theorem parseField_faults (tag p : Bytes) :
    Fails (LaxFault env.globals) (parseField env pkg tag p path) := by
  have deps : ∀ listp (set : List RequiredVersion → Package),
      Fails (LaxFault env.globals) (parseDeps env pkg listp p path >>= fun l => pure (set l)) :=
    fun listp _ => fails_bind (parseDeps_faults lax listp p) fun _ => fails_pure _
  have libs : ∀ listp field (set : List Flag → Package),
      Fails (LaxFault env.globals) (parseLibs env pkg listp field p path >>= fun l => pure (set l)) :=
    fun listp field _ => fails_bind (parseLibs_faults lax listp field p) fun _ => fails_pure _
  unfold parseField
  exact fails_ite (fun _ => parseStringField_faults lax p) fun _ =>
    fails_ite (fun _ => parseStringField_faults lax p) fun _ =>
    fails_ite (fun _ => parseStringField_faults lax p) fun _ =>
    fails_ite (fun _ => deps _ _) fun _ => fails_ite (fun _ => deps _ _) fun _ =>
    fails_ite (fun _ => libs _ _ _) fun _ => fails_ite (fun _ => libs _ _ _) fun _ =>
    fails_ite (fun _ => parseCflags_faults lax p) fun _ =>
    fails_ite (fun _ => deps _ _) fun _ =>
    fails_ite (fun _ => parseStringField_faults lax p) fun _ => fails_pure _

theorem parseLine_faults (line : Bytes) :
    Fails (LaxFault env.globals) (parseLine env pkg line path) := by
  unfold parseLine
  dsimp only
  split
  · exact parseField_faults lax _ _
  · exact parseVariable_faults lax _ _
  · exact fails_pure _

theorem parseLines_faults : ∀ (pkg : Package) (lines : List Bytes),
    Fails (LaxFault env.globals) (parseLines env path pkg lines)
  | _, [] => fails_pure _
  | _, line :: rest => fails_bind (parseLine_faults lax (cString line)) fun mid =>
    parseLines_faults mid rest

end LaxSteps

/-- In lax mode `parse_package_file` stops only on a read past the end or a freed global. -/
theorem parsePackageFile_lax_error (env : Env) (lax : env.parseStrict = false) (id : Nat)
    (key path : Bytes) (contents : Option (List Char)) {freed : List Bytes} {e : Fatal}
    (failed : (parsePackageFile env id key path contents).run freed = .error e) :
    e = .readPastEnd ∨ ∃ varname, e = .useAfterFree varname ∧ (env.globals.lookup varname).isSome := by
  have faults : Fails (LaxFault env.globals) (parsePackageFile env id key path contents) := by
    unfold parsePackageFile
    split
    · exact fails_pure _
    · exact fails_bind (parseLines_faults lax _ _) fun _ => fails_pure _
  exact faults freed e failed

/-- A strict parser without `define_prefix`. -/
def strictEnv : Env := ⟨true, false, "prefix".toList, [], fun _ => none⟩

/-- `Name: foo`, read from `/p/foo.pc`. -/
def fooNamed : Package :=
  { Package.new0 0 with
    key := "foo".toList, name := some "foo".toList, pcfiledir := some "/p".toList
    vars := [("pcfiledir".toList, "/p".toList)] }

theorem parsePackageFile_lax_of_strict_foo :
    (parsePackageFile strictEnv 0 "foo".toList "/p/foo.pc".toList
        (some "Name: foo\n".toList)).run [] = .ok (some fooNamed, []) ∧
      (parsePackageFile strictEnv.lax 0 "foo".toList "/p/foo.pc".toList
        (some "Name: foo\n".toList)).run [] = .ok (some fooNamed, []) := by
  have lines : readAllLines "Name: foo\n".toList = ["Name: foo".toList] := by decide
  have accepted : (parsePackageFile strictEnv 0 "foo".toList "/p/foo.pc".toList
      (some "Name: foo\n".toList)).run [] = .ok (some fooNamed, []) := by
    simp only [parsePackageFile, lines]
    rfl
  exact ⟨accepted, parsePackageFile_lax_of_strict _ _ _ _ _ accepted⟩

/-- A lax parser with the global `prefix`, as `--define-variable=prefix=/usr` sets it. -/
def laxPrefixEnv : Env := ⟨false, false, "prefix".toList, [("prefix".toList, "/usr".toList)],
  fun _ => none⟩

/-- Two variables that both refer to the global `prefix`. -/
def prefixTwice : List Char := "a=$\x7bprefix\x7d\nb=$\x7bprefix\x7d\n".toList

theorem parsePackageFile_lax_error_prefixTwice :
    laxPrefixEnv.parseStrict = false ∧
      (parsePackageFile laxPrefixEnv 0 "foo".toList "/p/foo.pc".toList (some prefixTwice)).run [] =
        .error (.useAfterFree "prefix".toList) ∧
      (Fatal.useAfterFree "prefix".toList = .readPastEnd ∨ ∃ varname,
        Fatal.useAfterFree "prefix".toList = .useAfterFree varname ∧
          (laxPrefixEnv.globals.lookup varname).isSome) := by
  have lines : readAllLines prefixTwice = ["a=$\x7bprefix\x7d".toList, "b=$\x7bprefix\x7d".toList] := by
    decide
  have failed : (parsePackageFile laxPrefixEnv 0 "foo".toList "/p/foo.pc".toList
      (some prefixTwice)).run [] = .error (.useAfterFree "prefix".toList) := by
    simp only [parsePackageFile, lines]
    rfl
  exact ⟨rfl, failed, parsePackageFile_lax_error _ rfl _ _ _ _ failed⟩

end PkgConfig
