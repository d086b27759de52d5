import PkgConfig.Package

/-! The module-list tokenizer of parse.c: `split_module_list`, a six-state machine that
cuts a Requires or Conflicts value into modules, and `do_parse_module_list`, which
reads each module as a name, an operator and a version. The main result is the round
trip: rendering well-formed entries with any runs of commas and whitespace between them
and parsing the result gives the entries back. -/

namespace PkgConfig

/-- `MODULE_SEPARATOR`. -/
def moduleSeparator (c : Char) : Bool := c = ',' || isspace c

/-- `OPERATOR_CHAR`. -/
def operatorChar (c : Char) : Bool := c = '<' || c = '>' || c = '!' || c = '='

/-- The lookahead of `IN_MODULE_NAME`: is the byte after the whitespace an operator? -/
def operatorAhead (rest : List Char) : Bool :=
  ((rest.dropWhile isspace).head?.map operatorChar).getD false

/-- `ModuleSplitState`. -/
inductive ModuleSplitState
  | outsideModule | inModuleName | beforeOperator | inOperator | afterOperator | inModuleVersion
  deriving DecidableEq, Repr

/-- The `switch (state)` of `split_module_list` on the byte `c`, followed by `rest`. -/
def splitTransition (state : ModuleSplitState) (c : Char) (rest : List Char) :
    Except Fatal ModuleSplitState :=
  match state with
  | .outsideModule => pure (if moduleSeparator c then .outsideModule else .inModuleName)
  | .inModuleName =>
    if isspace c then
      pure (if operatorAhead rest then .beforeOperator else .outsideModule)
    else pure (if moduleSeparator c then .outsideModule else .inModuleName)
  | .beforeOperator =>
    if isspace c then pure .beforeOperator
    else if operatorChar c then pure .inOperator
    else throw .assertion
  | .inOperator => pure (if operatorChar c then .inOperator else .afterOperator)
  | .afterOperator => pure (if isspace c then .afterOperator else .inModuleVersion)
  | .inModuleVersion => pure (if moduleSeparator c then .outsideModule else .inModuleVersion)

/-- The loop of `split_module_list` from `last_state`, the bytes since `start` and `p`. -/
def splitModuleListLoop :
    ModuleSplitState → Bytes → List Char → List Bytes → Except Fatal (List Bytes)
  | lastState, module, [], retval =>
    pure (if lastState ≠ .outsideModule then (module :: retval).reverse else retval.reverse)
  | lastState, module, c :: rest, retval => do
    let state ← splitTransition lastState c rest
    let module := if lastState = .outsideModule ∧ state ≠ .outsideModule then [] else module
    if state = .outsideModule ∧ lastState ≠ .outsideModule then
      splitModuleListLoop state [c] rest (module :: retval)
    else splitModuleListLoop state (module ++ [c]) rest retval

/-- `split_module_list`. -/
def splitModuleList (str : Bytes) : Except Fatal (List Bytes) :=
  splitModuleListLoop .outsideModule [] str []

/-- The `strcmp` chain of `do_parse_module_list` on an operator. -/
def comparisonOfOperator (op : Bytes) : Option ComparisonType :=
  if op = ['='] then some .equal
  else if op = ['>', '='] then some .greaterThanEqual
  else if op = ['<', '='] then some .lessThanEqual
  else if op = ['>'] then some .greaterThan
  else if op = ['<'] then some .lessThan
  else if op = ['!', '='] then some .notEqual
  else none

/-- The body of the loop of `do_parse_module_list` on one module: name, operator, version. -/
def parseModuleEntry (strict : Bool) (path module : Bytes) : Except Fatal RequiredVersion :=
  let name := module.takeWhile (fun c => !isspace c)
  let afterName := (module.dropWhile (fun c => !isspace c)).dropWhile isspace
  let op := afterName.takeWhile (fun c => !isspace c)
  let afterOp := (afterName.dropWhile (fun c => !isspace c)).dropWhile isspace
  let version := afterOp.takeWhile (fun c => !moduleSeparator c)
  let ver : RequiredVersion := ⟨name, .alwaysMatch, none⟩
  if name = [] then throw .assertion
  else match (if op = [] then some .alwaysMatch else comparisonOfOperator op) with
    | none => if strict then throw (.unknownOperator op name path) else pure ver
    | some comparison =>
      if comparison ≠ .alwaysMatch ∧ version = [] then
        if strict then throw (.noVersionAfterOperator name path)
        else pure { ver with comparison, version := some ['0'] }
      else pure { ver with comparison, version := if version = [] then none else some version }

/-- The loop of `do_parse_module_list`: each module's entry is prepended to `listp`. -/
def doParseModuleListLoop (strict : Bool) (path : Bytes) :
    List Bytes → List RequiredVersion → Except Fatal (List RequiredVersion)
  | [], listp => pure listp
  | module :: rest, listp => do
    let ver ← parseModuleEntry strict path module
    doParseModuleListLoop strict path rest (ver :: listp)

/-- `do_parse_module_list`. -/
def doParseModuleList (strict : Bool) (listp : List RequiredVersion) (str path : Bytes) :
    Except Fatal (List RequiredVersion) := do
  let split ← splitModuleList str
  doParseModuleListLoop strict path split listp

/-- `parse_module_list`, without the `owner` of each entry. -/
def parseModuleList (strict : Bool) (str path : Bytes) : Except Fatal (List RequiredVersion) :=
  do return (← doParseModuleList strict [] str path).reverse

/-- An entry of a module list: a plain name, and an operator with a plain version. -/
structure ModuleEntry where
  name : Bytes
  constraint : Option (ComparisonType × Bytes)
  name_ne_nil : name ≠ []
  name_plain : ∀ c ∈ name, moduleSeparator c = false
  name_head : ∀ c ∈ name.head?, operatorChar c = false
  constraint_ok : ∀ op version, constraint = some (op, version) →
    op ≠ .alwaysMatch ∧ version ≠ [] ∧ ∀ c ∈ version, moduleSeparator c = false

/-- What follows the name: nothing, or ` op version`. -/
def ModuleEntry.constraintText (e : ModuleEntry) : Bytes :=
  match e.constraint with
  | none => []
  | some (op, version) => ' ' :: comparisonToStr op ++ ' ' :: version

/-- `name` or `name op version`, with single spaces. -/
def ModuleEntry.render (e : ModuleEntry) : Bytes := e.name ++ e.constraintText

/-- The `RequiredVersion` an entry stands for. -/
def ModuleEntry.toRequiredVersion (e : ModuleEntry) : RequiredVersion :=
  match e.constraint with
  | none => ⟨e.name, .alwaysMatch, none⟩
  | some (op, version) => ⟨e.name, op, some version⟩

/-- Entries, each followed by its run of separators. -/
def renderModuleList : List (ModuleEntry × Bytes) → Bytes
  | [] => []
  | (e, sep) :: rest => e.render ++ sep ++ renderModuleList rest

/-- Every run consists of separators, and only the last may be empty. -/
def SeparatorRuns : List (ModuleEntry × Bytes) → Prop
  | [] => True
  | (_, sep) :: rest =>
    (∀ c ∈ sep, moduleSeparator c = true) ∧ (sep = [] → rest = []) ∧ SeparatorRuns rest

theorem splitModuleListLoop_cons {lastState state : ModuleSplitState} {c : Char}
    {rest : List Char} (module : Bytes) (retval : List Bytes)
    (step : splitTransition lastState c rest = pure state) :
    splitModuleListLoop lastState module (c :: rest) retval =
      let module := if lastState = .outsideModule ∧ state ≠ .outsideModule then [] else module
      if state = .outsideModule ∧ lastState ≠ .outsideModule then
        splitModuleListLoop state [c] rest (module :: retval)
      else splitModuleListLoop state (module ++ [c]) rest retval := by
  simp only [splitModuleListLoop, step]
  rfl

theorem splitModuleListLoop_enter {c : Char} {rest : List Char} (module : Bytes)
    (retval : List Bytes)
    (step : splitTransition .outsideModule c rest = pure .inModuleName) :
    splitModuleListLoop .outsideModule module (c :: rest) retval =
      splitModuleListLoop .inModuleName [c] rest retval := by
  simp [splitModuleListLoop_cons module retval step]

theorem splitModuleListLoop_move {lastState S : ModuleSplitState} {c : Char}
    {rest : List Char} (module : Bytes) (retval : List Bytes)
    (inside : lastState ≠ .outsideModule) (stillInside : S ≠ .outsideModule)
    (step : splitTransition lastState c rest = pure S) :
    splitModuleListLoop lastState module (c :: rest) retval =
      splitModuleListLoop S (module ++ [c]) rest retval := by
  simp [splitModuleListLoop_cons module retval step, inside, stillInside]

theorem splitModuleListLoop_leave {lastState : ModuleSplitState} {c : Char}
    {rest : List Char} (module : Bytes) (retval : List Bytes)
    (inside : lastState ≠ .outsideModule)
    (step : splitTransition lastState c rest = pure .outsideModule) :
    splitModuleListLoop lastState module (c :: rest) retval =
      splitModuleListLoop .outsideModule [c] rest (module :: retval) := by
  simp [splitModuleListLoop_cons module retval step, inside]

theorem splitModuleListLoop_stay {S : ModuleSplitState} {P : Char → Bool}
    (stays : ∀ c rest, P c = true → splitTransition S c rest = pure S) :
    ∀ (w : List Char), (∀ c ∈ w, P c = true) → ∀ (module rest : List Char) retval,
      splitModuleListLoop S module (w ++ rest) retval =
        splitModuleListLoop S (module ++ w) rest retval
  | [], _, module, rest, retval => by simp
  | c :: w, kept, module, rest, retval => by
    rw [List.cons_append, splitModuleListLoop_cons module retval
      (stays c _ (kept c (List.mem_cons_self c w)))]
    simp only [and_not_self, if_false]
    rw [splitModuleListLoop_stay stays w (fun d hd => kept d (List.mem_cons_of_mem c hd))]
    simp

@[simp] theorem isspace_space : isspace ' ' = true := rfl

@[simp] theorem operatorChar_space : operatorChar ' ' = false := rfl

@[simp] theorem isspace_comma : isspace ',' = false := rfl

@[simp] theorem operatorChar_comma : operatorChar ',' = false := rfl

theorem isspace_eq_false_of_plain {c : Char} (plain : moduleSeparator c = false) :
    isspace c = false := by
  simp only [moduleSeparator, Bool.or_eq_false_iff] at plain
  exact plain.2

theorem moduleSeparator_eq_false_of_operator {c : Char} (op : operatorChar c = true) :
    moduleSeparator c = false := by
  simp only [operatorChar, Bool.or_eq_true, decide_eq_true_eq] at op
  rcases op with ((rfl | rfl) | rfl) | rfl <;> rfl

theorem comparisonToStr_operator {op : ComparisonType} (ne : op ≠ .alwaysMatch) :
    ∃ o os, comparisonToStr op = o :: os ∧ ∀ c ∈ o :: os, operatorChar c = true := by
  cases op <;> first | exact absurd rfl ne | exact ⟨_, _, rfl, by decide⟩

/-- The state the machine is in after an entry: still in the name, or in the version. -/
def ModuleEntry.endState (e : ModuleEntry) : ModuleSplitState :=
  match e.constraint with
  | none => .inModuleName
  | some _ => .inModuleVersion

theorem splitModuleListLoop_name {name : Bytes} (module tail : List Char) (retval : List Bytes)
    (named : name ≠ []) (plain : ∀ c ∈ name, moduleSeparator c = false) :
    splitModuleListLoop .outsideModule module (name ++ tail) retval =
      splitModuleListLoop .inModuleName name tail retval := by
  obtain ⟨n, ns, rfl⟩ := List.exists_cons_of_ne_nil named
  have nameStays : ∀ c rest, (!moduleSeparator c) = true →
      splitTransition .inModuleName c rest = pure .inModuleName := fun c rest h => by
    simp only [Bool.not_eq_true'] at h
    simp [splitTransition, h, isspace_eq_false_of_plain h]
  rw [List.cons_append, splitModuleListLoop_enter module retval
      (by simp [splitTransition, plain n (List.mem_cons_self n ns)]),
    splitModuleListLoop_stay nameStays ns
      (fun c mem => by simp [plain c (List.mem_cons_of_mem n mem)])]
  rfl

theorem splitModuleListLoop_operator {ops version : Bytes} (module tail : List Char)
    (retval : List Bytes) (operators : ops ≠ [] ∧ ∀ c ∈ ops, operatorChar c = true)
    (versioned : version ≠ []) (versionPlain : ∀ c ∈ version, moduleSeparator c = false) :
    splitModuleListLoop .inModuleName module (' ' :: (ops ++ ' ' :: (version ++ tail))) retval =
      splitModuleListLoop .inModuleVersion (module ++ ' ' :: (ops ++ ' ' :: version)) tail
        retval := by
  obtain ⟨⟨o, os, rfl⟩, opChars⟩ := And.imp_left List.exists_cons_of_ne_nil operators
  obtain ⟨v, vs, rfl⟩ := List.exists_cons_of_ne_nil versioned
  have isOp : operatorChar o = true := opChars o (List.mem_cons_self o os)
  have opStart : isspace o = false :=
    isspace_eq_false_of_plain (moduleSeparator_eq_false_of_operator isOp)
  have vPlain : moduleSeparator v = false := versionPlain v (List.mem_cons_self v vs)
  simp only [List.cons_append, List.append_assoc]
  rw [splitModuleListLoop_move _ retval (by decide) (by decide) (S := .beforeOperator) (by
      simp [splitTransition, operatorAhead, opStart, isOp]),
    splitModuleListLoop_move _ retval (by decide) (by decide) (S := .inOperator) (by
      simp [splitTransition, opStart, isOp]),
    splitModuleListLoop_stay (S := .inOperator) (P := operatorChar)
      (fun c rest h => by simp [splitTransition, h]) os
      (fun c mem => opChars c (List.mem_cons_of_mem o mem)),
    splitModuleListLoop_move _ retval (by decide) (by decide) (S := .afterOperator) (by
      simp [splitTransition]),
    splitModuleListLoop_move _ retval (by decide) (by decide) (S := .inModuleVersion) (by
      simp [splitTransition, isspace_eq_false_of_plain vPlain]),
    splitModuleListLoop_stay (S := .inModuleVersion) (P := fun c => !moduleSeparator c)
      (fun c rest h => by simp only [Bool.not_eq_true'] at h; simp [splitTransition, h]) vs
      (fun c mem => by simp [versionPlain c (List.mem_cons_of_mem v mem)])]
  simp

theorem splitModuleListLoop_entry (e : ModuleEntry) (module tail : List Char)
    (retval : List Bytes) :
    splitModuleListLoop .outsideModule module (e.render ++ tail) retval =
      splitModuleListLoop e.endState e.render tail retval := by
  rw [ModuleEntry.render, List.append_assoc,
    splitModuleListLoop_name module _ retval e.name_ne_nil e.name_plain]
  rcases hc : e.constraint with _ | ⟨op, version⟩
  · simp [ModuleEntry.constraintText, ModuleEntry.endState, hc]
  obtain ⟨ne, versioned, versionPlain⟩ := e.constraint_ok op version hc
  obtain ⟨o, os, hop, opChars⟩ := comparisonToStr_operator ne
  simp only [ModuleEntry.constraintText, ModuleEntry.endState, hc, List.cons_append,
    List.append_assoc]
  exact splitModuleListLoop_operator _ tail retval ⟨hop ▸ List.cons_ne_nil o os, hop ▸ opChars⟩
    versioned versionPlain

theorem ModuleEntry.endState_ne (e : ModuleEntry) : e.endState ≠ .outsideModule := by
  unfold ModuleEntry.endState
  split <;> decide

theorem splitModuleListLoop_after_entry (e : ModuleEntry) {c : Char} {t : List Char}
    (sep : moduleSeparator c = true) (ahead : operatorAhead t = false) (module : Bytes)
    (retval : List Bytes) :
    splitModuleListLoop e.endState module (c :: t) retval =
      splitModuleListLoop .outsideModule [c] t (module :: retval) := by
  apply splitModuleListLoop_leave _ _ e.endState_ne
  unfold ModuleEntry.endState
  split <;> simp [splitTransition, sep, ahead]

theorem operatorAhead_separators (sep rest : List Char)
    (seps : ∀ c ∈ sep, moduleSeparator c = true) (ahead : operatorAhead rest = false) :
    operatorAhead (sep ++ rest) = false := by
  induction sep with
  | nil => exact ahead
  | cons c sep ih =>
    have tail := ih (fun d mem => seps d (List.mem_cons_of_mem c mem))
    by_cases space : isspace c = true
    · simpa [operatorAhead, space] using tail
    · have comma : c = ',' := by
        simpa [moduleSeparator, space] using seps c (List.mem_cons_self c sep)
      simp [operatorAhead, comma]

theorem operatorAhead_renderModuleList_append (items : List (ModuleEntry × Bytes))
    (tail : List Char) (ahead : operatorAhead tail = false) :
    operatorAhead (renderModuleList items ++ tail) = false := by
  rcases items with _ | ⟨⟨e, sep⟩, rest⟩
  · exact ahead
  obtain ⟨n, ns, hname⟩ := List.exists_cons_of_ne_nil e.name_ne_nil
  have plain := e.name_plain n (by simp [hname])
  have head := e.name_head n (by simp [hname])
  simp [renderModuleList, ModuleEntry.render, hname, operatorAhead,
    isspace_eq_false_of_plain plain, head]

theorem splitModuleListLoop_renderModuleList :
    ∀ (items : List (ModuleEntry × Bytes)), SeparatorRuns items →
      ∀ (module : Bytes) (retval : List Bytes),
        splitModuleListLoop .outsideModule module (renderModuleList items) retval =
          pure (retval.reverse ++ items.map (·.1.render))
  | [], _, module, retval => by simp [renderModuleList, splitModuleListLoop]
  | (e, sep) :: rest, ⟨seps, last, runs⟩, module, retval => by
    rw [renderModuleList, List.append_assoc, splitModuleListLoop_entry]
    rcases sep with _ | ⟨c, sep⟩
    · obtain rfl := last rfl
      simp [renderModuleList, splitModuleListLoop, e.endState_ne]
    · rw [List.cons_append, splitModuleListLoop_after_entry e (seps c (List.mem_cons_self c sep))
        (operatorAhead_separators sep _ (fun d mem => seps d (List.mem_cons_of_mem c mem))
          (by simpa using operatorAhead_renderModuleList_append rest [] rfl)),
        ← List.singleton_append, splitModuleListLoop_stay (S := .outsideModule)
          (P := moduleSeparator) (fun d rest h => by simp [splitTransition, h]) sep
          (fun d mem => seps d (List.mem_cons_of_mem c mem)),
        splitModuleListLoop_renderModuleList rest runs]
      simp

theorem splitModuleListLoop_entries :
    ∀ (items : List (ModuleEntry × Bytes)),
      (∀ p ∈ items, p.2 ≠ [] ∧ ∀ c ∈ p.2, moduleSeparator c = true) →
      ∀ (tail : List Char), operatorAhead tail = false → ∀ (module : Bytes) (retval : List Bytes),
        ∃ module', splitModuleListLoop .outsideModule module (renderModuleList items ++ tail)
            retval =
          splitModuleListLoop .outsideModule module' tail
            ((items.map (·.1.render)).reverse ++ retval)
  | [], _, tail, _, module, retval => ⟨module, rfl⟩
  | (e, sep) :: rest, runs, tail, ahead, module, retval => by
    obtain ⟨nonempty, seps⟩ := runs (e, sep) (List.mem_cons_self _ _)
    obtain ⟨c, sep, rfl⟩ := List.exists_cons_of_ne_nil nonempty
    have later : ∀ d ∈ sep, moduleSeparator d = true := fun d mem =>
      seps d (List.mem_cons_of_mem c mem)
    obtain ⟨module', split⟩ := splitModuleListLoop_entries rest
      (fun p mem => runs p (List.mem_cons_of_mem _ mem)) tail ahead ([c] ++ sep)
      (e.render :: retval)
    refine ⟨module', ?_⟩
    rw [renderModuleList, List.append_assoc, List.append_assoc, splitModuleListLoop_entry,
      List.cons_append, splitModuleListLoop_after_entry e (seps c (List.mem_cons_self c sep))
        (operatorAhead_separators sep _ later
          (operatorAhead_renderModuleList_append rest tail ahead)),
      splitModuleListLoop_stay (S := .outsideModule)
        (P := moduleSeparator) (fun d rest h => by simp [splitTransition, h]) sep later, split]
    simp

theorem takeWhile_word {p : Char → Bool} {w : List Char} {c : Char} (rest : List Char)
    (word : ∀ d ∈ w, p d = true) (stop : p c = false) : (w ++ c :: rest).takeWhile p = w := by
  rw [List.takeWhile_append_of_pos word, List.takeWhile_cons_of_neg (by simp [stop]),
    List.append_nil]

theorem dropWhile_word {p : Char → Bool} {w : List Char} {c : Char} (rest : List Char)
    (word : ∀ d ∈ w, p d = true) (stop : p c = false) :
    (w ++ c :: rest).dropWhile p = c :: rest := by
  rw [List.dropWhile_append_of_pos word, List.dropWhile_cons_of_neg (by simp [stop])]

theorem parseModuleEntry_triple (strict : Bool) (path : Bytes) {name ops version : Bytes}
    (named : name ≠ []) (namePlain : ∀ c ∈ name, moduleSeparator c = false)
    (operators : ops ≠ [] ∧ ∀ c ∈ ops, operatorChar c = true)
    (versioned : version ≠ []) (versionPlain : ∀ c ∈ version, moduleSeparator c = false) :
    parseModuleEntry strict path (name ++ ' ' :: (ops ++ ' ' :: version)) =
      match comparisonOfOperator ops with
      | some comparison => pure ⟨name, comparison, some version⟩
      | none => if strict then throw (.unknownOperator ops name path)
        else pure ⟨name, .alwaysMatch, none⟩ := by
  obtain ⟨⟨o, os, rfl⟩, opChars⟩ := And.imp_left List.exists_cons_of_ne_nil operators
  obtain ⟨v, vs, rfl⟩ := List.exists_cons_of_ne_nil versioned
  have nameWord : ∀ c ∈ name, (!isspace c) = true := fun c mem => by
    simp [isspace_eq_false_of_plain (namePlain c mem)]
  have opWord : ∀ c ∈ o :: os, (!isspace c) = true := fun c mem => by
    simp [isspace_eq_false_of_plain (moduleSeparator_eq_false_of_operator (opChars c mem))]
  have versionWord : ∀ c ∈ v :: vs, (!moduleSeparator c) = true := fun c mem => by
    simp [versionPlain c mem]
  have opStart : isspace o = false :=
    isspace_eq_false_of_plain (moduleSeparator_eq_false_of_operator (opChars o (by simp)))
  have versionStart : isspace v = false := isspace_eq_false_of_plain (versionPlain v (by simp))
  have afterName : ((name ++ ' ' :: (o :: os ++ ' ' :: v :: vs)).dropWhile
      (fun c => !isspace c)).dropWhile isspace = o :: os ++ ' ' :: v :: vs := by
    rw [dropWhile_word _ nameWord (by simp), List.dropWhile_cons_of_pos (by simp),
      List.cons_append, List.dropWhile_cons_of_neg (by simp [opStart])]
  have afterOp : ((o :: os ++ ' ' :: v :: vs).dropWhile
      (fun c => !isspace c)).dropWhile isspace = v :: vs := by
    rw [dropWhile_word _ opWord (by simp), List.dropWhile_cons_of_pos (by simp),
      List.dropWhile_cons_of_neg (by simp [versionStart])]
  simp only [parseModuleEntry, takeWhile_word _ nameWord (by simp : (!isspace ' ') = false),
    afterName, takeWhile_word _ opWord (by simp : (!isspace ' ') = false), afterOp,
    List.takeWhile_eq_self_iff.2 versionWord, if_neg named]
  split <;> simp_all

theorem parseModuleEntry_render (strict : Bool) (path : Bytes) (e : ModuleEntry) :
    parseModuleEntry strict path e.render = pure e.toRequiredVersion := by
  have nameWord : ∀ c ∈ e.name, (!isspace c) = true := fun c mem => by
    simp [isspace_eq_false_of_plain (e.name_plain c mem)]
  rcases hc : e.constraint with _ | ⟨op, version⟩
  · have whole : e.render = e.name := by
      simp [ModuleEntry.render, ModuleEntry.constraintText, hc]
    simp only [parseModuleEntry, whole, List.takeWhile_eq_self_iff.2 nameWord,
      List.dropWhile_eq_nil_iff.2 nameWord, List.dropWhile_nil, List.takeWhile_nil,
      if_neg e.name_ne_nil, if_true, ne_eq, not_true_eq_false, false_and, if_false]
    simp [ModuleEntry.toRequiredVersion, hc]
  obtain ⟨ne, versioned, versionPlain⟩ := e.constraint_ok op version hc
  obtain ⟨o, os, hop, opChars⟩ := comparisonToStr_operator ne
  have operator : comparisonOfOperator (comparisonToStr op) = some op := by
    cases op <;> first | exact absurd rfl ne | rfl
  have whole : e.render = e.name ++ ' ' :: (comparisonToStr op ++ ' ' :: version) := by
    simp [ModuleEntry.render, ModuleEntry.constraintText, hc]
  rw [whole, parseModuleEntry_triple strict path e.name_ne_nil e.name_plain
    ⟨hop ▸ List.cons_ne_nil o os, hop ▸ opChars⟩ versioned versionPlain, operator]
  simp [ModuleEntry.toRequiredVersion, hc]

theorem doParseModuleListLoop_render (strict : Bool) (path : Bytes) :
    ∀ (items : List (ModuleEntry × Bytes)) (listp : List RequiredVersion),
      doParseModuleListLoop strict path (items.map (·.1.render)) listp =
        pure ((items.map (·.1.toRequiredVersion)).reverse ++ listp)
  | [], listp => rfl
  | (e, _) :: rest, listp => by
    simp [doParseModuleListLoop, parseModuleEntry_render, doParseModuleListLoop_render strict path rest]

theorem doParseModuleListLoop_append (strict : Bool) (path : Bytes) (xs ys : List Bytes) :
    ∀ listp, doParseModuleListLoop strict path (xs ++ ys) listp =
      doParseModuleListLoop strict path xs listp >>= doParseModuleListLoop strict path ys := by
  induction xs with
  | nil => intro listp; rfl
  | cons x xs ih =>
    intro listp
    rw [List.cons_append, doParseModuleListLoop, doParseModuleListLoop, bind_assoc]
    congr 1
    funext ver
    exact ih _

theorem doParseModuleListLoop_mapM (strict : Bool) (path : Bytes) :
    ∀ (modules : List Bytes) (listp : List RequiredVersion),
      doParseModuleListLoop strict path modules listp =
        (fun vers => vers.reverse ++ listp) <$> modules.mapM (parseModuleEntry strict path)
  | [], listp => rfl
  | m :: rest, listp => by
    simp only [doParseModuleListLoop, List.mapM_cons, doParseModuleListLoop_mapM strict path rest]
    cases parseModuleEntry strict path m with
    | error e => rfl
    | ok ver =>
      cases rest.mapM (parseModuleEntry strict path) with
      | error e => rfl
      | ok vers => simp [bind, Except.bind, pure, Except.pure, Functor.map, Except.map]

/-- The round trip of the module-list tokenizer, in either strictness mode. -/
theorem parseModuleList_render (strict : Bool) (path lead : Bytes)
    (items : List (ModuleEntry × Bytes)) (leading : ∀ c ∈ lead, moduleSeparator c = true)
    (runs : SeparatorRuns items) :
    parseModuleList strict (lead ++ renderModuleList items) path =
      pure (items.map (·.1.toRequiredVersion)) := by
  have split : splitModuleList (lead ++ renderModuleList items) =
      pure (items.map (·.1.render)) := by
    rw [splitModuleList, splitModuleListLoop_stay (S := .outsideModule) (P := moduleSeparator)
      (fun c rest h => by simp [splitTransition, h]) lead leading,
      splitModuleListLoop_renderModuleList items runs]
    simp
  simp [parseModuleList, doParseModuleList, split, doParseModuleListLoop_render]

/-- `glib-2.0 >= 2.1`. -/
def glibEntry : ModuleEntry where
  name := "glib-2.0".toList
  constraint := some (.greaterThanEqual, "2.1".toList)
  name_ne_nil := by decide
  name_plain := by decide
  name_head := by decide
  constraint_ok := fun _ _ same => by cases same; decide

/-- `gmodule`. -/
def gmoduleEntry : ModuleEntry where
  name := "gmodule".toList
  constraint := none
  name_ne_nil := by decide
  name_plain := by decide
  name_head := by decide
  constraint_ok := fun _ _ same => by cases same

theorem parseModuleList_render_glib :
    (∀ c ∈ [' '], moduleSeparator c = true) ∧
      SeparatorRuns [(glibEntry, [',', ' ']), (gmoduleEntry, [])] ∧
      parseModuleList true ([' '] ++ renderModuleList [(glibEntry, [',', ' ']), (gmoduleEntry, [])])
          [] =
        pure [⟨"glib-2.0".toList, .greaterThanEqual, some "2.1".toList⟩,
          ⟨"gmodule".toList, .alwaysMatch, none⟩] :=
  have leading : ∀ c ∈ [' '], moduleSeparator c = true := by decide
  have runs : SeparatorRuns [(glibEntry, [',', ' ']), (gmoduleEntry, [])] :=
    ⟨by decide, by simp, by decide, fun _ => rfl, trivial⟩
  ⟨leading, runs, parseModuleList_render true [] [' '] _ leading runs⟩

/-- An entry `name op version` whose operator bytes are none of the six comparisons. -/
structure UnknownOperatorEntry where
  name : Bytes
  op : Bytes
  version : Bytes
  name_ne_nil : name ≠ []
  name_plain : ∀ c ∈ name, moduleSeparator c = false
  name_head : ∀ c ∈ name.head?, operatorChar c = false
  op_chars : op ≠ [] ∧ ∀ c ∈ op, operatorChar c = true
  op_unknown : comparisonOfOperator op = none
  version_ne_nil : version ≠ []
  version_plain : ∀ c ∈ version, moduleSeparator c = false

/-- `name op version`, with single spaces. -/
def UnknownOperatorEntry.render (e : UnknownOperatorEntry) : Bytes :=
  e.name ++ ' ' :: (e.op ++ ' ' :: e.version)

/-- In lax mode an entry with an unknown operator stays in the list as `ALWAYS_MATCH`. -/
theorem parseModuleList_unknown_operator_kept (path lead sep : Bytes)
    (A B : List (ModuleEntry × Bytes)) (bad : UnknownOperatorEntry)
    (leading : ∀ c ∈ lead, moduleSeparator c = true)
    (joined : ∀ p ∈ A, p.2 ≠ [] ∧ ∀ c ∈ p.2, moduleSeparator c = true)
    (separated : sep ≠ [] ∧ ∀ c ∈ sep, moduleSeparator c = true) (runs : SeparatorRuns B) :
    parseModuleList false (lead ++ renderModuleList A ++ bad.render ++ sep ++ renderModuleList B)
        path =
      pure (A.map (·.1.toRequiredVersion) ++ ⟨bad.name, .alwaysMatch, none⟩ ::
        B.map (·.1.toRequiredVersion)) := by
  obtain ⟨⟨c, sep, rfl⟩, seps⟩ := And.imp_left List.exists_cons_of_ne_nil separated
  obtain ⟨n, ns, hname⟩ := List.exists_cons_of_ne_nil bad.name_ne_nil
  have badAhead : operatorAhead (bad.render ++ c :: (sep ++ renderModuleList B)) = false := by
    have plain := bad.name_plain n (by simp [hname])
    have head := bad.name_head n (by simp [hname])
    simp [UnknownOperatorEntry.render, hname, operatorAhead, isspace_eq_false_of_plain plain, head]
  obtain ⟨module', throughA⟩ := splitModuleListLoop_entries A joined _ badAhead ([] ++ lead) []
  have split : splitModuleList (lead ++ (renderModuleList A ++ (bad.render ++ c :: (sep ++
      renderModuleList B)))) = pure (A.map (·.1.render) ++ bad.render :: B.map (·.1.render)) := by
    rw [splitModuleList, splitModuleListLoop_stay (S := .outsideModule) (P := moduleSeparator)
        (fun d rest h => by simp [splitTransition, h]) lead leading, throughA,
      UnknownOperatorEntry.render, List.append_assoc,
      splitModuleListLoop_name _ _ _ bad.name_ne_nil bad.name_plain]
    simp only [List.cons_append, List.append_assoc]
    rw [splitModuleListLoop_operator _ _ _ bad.op_chars bad.version_ne_nil bad.version_plain,
      splitModuleListLoop_leave _ _ (by decide)
        (by simp [splitTransition, seps c (List.mem_cons_self c sep)]),
      splitModuleListLoop_stay (S := .outsideModule) (P := moduleSeparator)
        (fun d rest h => by simp [splitTransition, h]) sep
        (fun d mem => seps d (List.mem_cons_of_mem c mem)),
      splitModuleListLoop_renderModuleList B runs]
    simp
  have entry : parseModuleEntry false path bad.render = pure ⟨bad.name, .alwaysMatch, none⟩ := by
    rw [UnknownOperatorEntry.render, parseModuleEntry_triple false path bad.name_ne_nil
      bad.name_plain bad.op_chars bad.version_ne_nil bad.version_plain, bad.op_unknown]
    rfl
  simp [parseModuleList, doParseModuleList, split, doParseModuleListLoop_append,
    doParseModuleListLoop_render, doParseModuleListLoop, entry]

/-- `foo <> 1`. -/
def fooUnknownEntry : UnknownOperatorEntry where
  name := "foo".toList
  op := "<>".toList
  version := "1".toList
  name_ne_nil := by decide
  name_plain := by decide
  name_head := by decide
  op_chars := by decide
  op_unknown := by decide
  version_ne_nil := by decide
  version_plain := by decide

theorem parseModuleList_unknown_operator_kept_foo :
    (∀ c ∈ ([] : Bytes), moduleSeparator c = true) ∧
      (∀ p ∈ [(gmoduleEntry, [','])], p.2 ≠ [] ∧ ∀ c ∈ p.2, moduleSeparator c = true) ∧
      ([','] ≠ [] ∧ ∀ c ∈ [','], moduleSeparator c = true) ∧ SeparatorRuns [(glibEntry, [])] ∧
      parseModuleList false ([] ++ renderModuleList [(gmoduleEntry, [','])] ++
          fooUnknownEntry.render ++ [','] ++ renderModuleList [(glibEntry, [])]) [] =
        pure [⟨"gmodule".toList, .alwaysMatch, none⟩, ⟨"foo".toList, .alwaysMatch, none⟩,
          ⟨"glib-2.0".toList, .greaterThanEqual, some "2.1".toList⟩] :=
  have leading : ∀ c ∈ ([] : Bytes), moduleSeparator c = true := by decide
  have joined : ∀ p ∈ [(gmoduleEntry, [','])], p.2 ≠ [] ∧ ∀ c ∈ p.2, moduleSeparator c = true := by
    decide
  have separated : [','] ≠ [] ∧ ∀ c ∈ [','], moduleSeparator c = true := by decide
  have runs : SeparatorRuns [(glibEntry, [])] := ⟨by decide, fun _ => rfl, trivial⟩
  ⟨leading, joined, separated, runs, parseModuleList_unknown_operator_kept [] [] [','] _ _
    fooUnknownEntry leading joined separated runs⟩

/-- A module that starts with a byte that is neither a comma nor whitespace. -/
def ModuleStart (module : Bytes) : Prop := ∃ c t, module = c :: t ∧ moduleSeparator c = false

theorem ModuleStart.append {module : Bytes} (start : ModuleStart module) (c : Char) :
    ModuleStart (module ++ [c]) := by
  obtain ⟨d, t, rfl, plain⟩ := start
  exact ⟨d, t ++ [c], rfl, plain⟩

theorem operatorAhead_cons_space {c : Char} (rest : List Char) (space : isspace c = true) :
    operatorAhead (c :: rest) = operatorAhead rest := by
  simp [operatorAhead, space]

theorem splitTransition_safe (state : ModuleSplitState) (c : Char) (rest : List Char)
    (ready : state = .beforeOperator → operatorAhead (c :: rest) = true) :
    ∃ state', splitTransition state c rest = pure state' ∧
      (state = .outsideModule → state' ≠ .outsideModule → moduleSeparator c = false) ∧
      (state' = .beforeOperator → operatorAhead rest = true) := by
  cases state with
  | beforeOperator =>
    have ahead := ready rfl
    by_cases space : isspace c = true
    · exact ⟨.beforeOperator, by simp [splitTransition, space], by simp,
        fun _ => by rwa [← operatorAhead_cons_space rest space]⟩
    · have op : operatorChar c = true := by simpa [operatorAhead, space] using ahead
      exact ⟨.inOperator, by simp [splitTransition, space, op], by simp, by simp⟩
  | inModuleName =>
    by_cases space : isspace c = true
    · refine ⟨_, by rw [splitTransition, if_pos space], by simp, ?_⟩
      split_ifs <;> simp_all
    · refine ⟨_, by rw [splitTransition, if_neg space], by simp, ?_⟩
      split_ifs <;> simp_all
  | outsideModule | inOperator | afterOperator | inModuleVersion =>
    refine ⟨_, rfl, ?_, ?_⟩ <;> split_ifs <;> simp_all

theorem splitModuleListLoop_modules :
    ∀ (input : List Char) (state : ModuleSplitState) (module : Bytes) (retval : List Bytes),
      (state ≠ .outsideModule → ModuleStart module) → (∀ m ∈ retval, ModuleStart m) →
      (state = .beforeOperator → operatorAhead input = true) →
      ∃ modules, splitModuleListLoop state module input retval = pure modules ∧
        ∀ m ∈ modules, ModuleStart m
  | [], state, module, retval, current, found, _ => by
    refine ⟨_, rfl, fun m mem => ?_⟩
    split_ifs at mem with inside
    · rcases List.mem_cons.1 (List.mem_reverse.1 mem) with rfl | old
      exacts [current inside, found m old]
    · exact found m (List.mem_reverse.1 mem)
  | c :: rest, state, module, retval, current, found, ready => by
    obtain ⟨state', step, entering, ready'⟩ := splitTransition_safe state c rest ready
    rw [splitModuleListLoop_cons module retval step]
    dsimp only
    by_cases leaving : state' = .outsideModule ∧ state ≠ .outsideModule
    · rw [if_pos leaving, if_neg (fun h => leaving.2 h.1)]
      refine splitModuleListLoop_modules rest _ _ _ (fun inside => absurd leaving.1 inside)
        (fun m mem => ?_) (fun h => absurd (leaving.1 ▸ h) (by decide))
      rcases List.mem_cons.1 mem with rfl | old
      exacts [current leaving.2, found m old]
    · rw [if_neg leaving]
      refine splitModuleListLoop_modules rest _ _ _ (fun inside => ?_) found ready'
      by_cases outside : state = .outsideModule
      · rw [if_pos ⟨outside, inside⟩]
        exact ⟨c, [], rfl, entering outside inside⟩
      · rw [if_neg (fun h => outside h.1)]
        exact (current outside).append c

theorem splitModuleList_modules (str : Bytes) :
    ∃ modules, splitModuleList str = pure modules ∧ ∀ m ∈ modules, ModuleStart m :=
  splitModuleListLoop_modules str .outsideModule [] [] (fun h => absurd rfl h) (by simp)
    (fun h => nomatch h)

theorem parseModuleEntry_ne_assertion (strict : Bool) (path : Bytes) {module : Bytes}
    (start : ModuleStart module) : parseModuleEntry strict path module ≠ .error .assertion := by
  obtain ⟨c, t, rfl, plain⟩ := start
  have named : (c :: t).takeWhile (fun c => !isspace c) ≠ [] := by
    simp [List.takeWhile_cons, isspace_eq_false_of_plain plain]
  simp only [parseModuleEntry, if_neg named]
  split <;> split_ifs <;> nofun

theorem doParseModuleListLoop_ne_assertion (strict : Bool) (path : Bytes) :
    ∀ (modules : List Bytes) (listp : List RequiredVersion), (∀ m ∈ modules, ModuleStart m) →
      doParseModuleListLoop strict path modules listp ≠ .error .assertion
  | [], _, _ => by simp [doParseModuleListLoop, pure, Except.pure]
  | m :: rest, listp, starts => by
    have entry := parseModuleEntry_ne_assertion strict path (starts m (List.mem_cons_self m rest))
    simp only [doParseModuleListLoop]
    cases parsed : parseModuleEntry strict path m with
    | error e => simpa [parsed, bind, Except.bind] using entry
    | ok ver =>
      exact doParseModuleListLoop_ne_assertion strict path rest _
        (fun m' mem => starts m' (List.mem_cons_of_mem m mem))

/-- `parse_module_list` never fails an assertion, in either mode. -/
theorem parseModuleList_no_assertion (str : Bytes) :
    (∃ modules, splitModuleList str = pure modules ∧
        ∀ m ∈ modules, ∃ c t, m = c :: t ∧ moduleSeparator c = false) ∧
      ∀ (strict : Bool) (listp : List RequiredVersion) (path : Bytes),
        doParseModuleList strict listp str path ≠ .error .assertion ∧
          parseModuleList strict str path ≠ .error .assertion := by
  obtain ⟨modules, split, starts⟩ := splitModuleList_modules str
  refine ⟨⟨modules, split, starts⟩, fun strict listp path => ?_⟩
  have loop := doParseModuleListLoop_ne_assertion strict path modules
  have whole : ∀ listp, doParseModuleList strict listp str path ≠ .error .assertion := by
    intro listp
    simpa [doParseModuleList, split, bind, Except.bind, pure, Except.pure] using loop listp starts
  refine ⟨whole listp, fun h => whole [] ?_⟩
  simp only [parseModuleList] at h
  cases parsed : doParseModuleList strict [] str path with
  | error e => simpa [parsed, bind, Except.bind] using h
  | ok l => simp [parsed, bind, Except.bind, pure, Except.pure] at h

end PkgConfig
