import PkgConfig.Parse

/-! The values `trim_and_sub` reads, as the pieces it tells apart: a byte other than `$`,
the escape `$$`, and a reference `${name}` to a variable whose name holds no `}`. A
value expands to its bytes, one `$` for each escape, and for each reference the value
`package_get_var` finds (a global, else a variable of the package, else the directory of
its file), which is then freed; an undefined reference exits in strict mode and expands to
nothing in lax mode. The loop of `trim_and_sub` computes this expansion on every value made
of such pieces, whatever follows it. -/

namespace PkgConfig

/-- A piece of a value; each one reads the same whatever bytes follow it. -/
inductive SubstPiece
  | literal (c : Char) (plain : c ≠ '$')
  | dollar
  | reference (name : Bytes) (closed : '}' ∉ name)

/-- The bytes of a piece in a descriptor. -/
def SubstPiece.render : SubstPiece → Bytes
  | .literal c _ => [c]
  | .dollar => ['$', '$']
  | .reference name _ => '$' :: '{' :: (name ++ ['}'])

/-- What a piece expands to. -/
def SubstPiece.expand (env : Env) (pkg : Package) (path : Bytes) : SubstPiece → Proc Bytes
  | .literal c _ => pure [c]
  | .dollar => pure ['$']
  | .reference name _ =>
    match packageGetVar env.globals pkg name with
    | some value => readThenFree name value
    | none => if env.parseStrict then throw (.undefinedVariable name path) else pure []

/-- The expansion of a value: its pieces' expansions in order, or the first exit. -/
def expandPieces (env : Env) (pkg : Package) (path : Bytes) : List SubstPiece → Proc Bytes
  | [] => pure []
  | piece :: rest => do
    let e ← piece.expand env pkg path
    let r ← expandPieces env pkg path rest
    pure (e ++ r)

section Loop

variable {env : Env} {pkg : Package} {path : Bytes}

theorem trimAndSubLoop_piece (piece : SubstPiece) (subst rest : Bytes) :
    trimAndSubLoop env pkg path none subst (piece.render ++ rest) =
      piece.expand env pkg path >>= fun e => trimAndSubLoop env pkg path none (subst ++ e) rest := by
  cases piece with
  | literal c plain =>
    rw [SubstPiece.render, trimAndSubLoop_plain rest (by simpa using plain.symm), SubstPiece.expand,
      pure_bind]
  | dollar => rw [SubstPiece.expand, pure_bind]; rfl
  | reference name closed =>
    rw [SubstPiece.render, List.cons_append, List.cons_append, trimAndSubLoop.eq_6,
      List.append_assoc, trimAndSubLoop_name _ closed, List.nil_append, List.singleton_append,
      trimAndSubLoop.eq_3, substituteVariable, SubstPiece.expand]
    cases packageGetVar env.globals pkg name with
    | some value => simp only [bind_assoc, pure_bind]
    | none =>
      cases env.parseStrict
      · simp only [Bool.false_eq_true, if_false, pure_bind, List.append_nil]
      · rfl

theorem trimAndSubLoop_pieces (pieces : List SubstPiece) (subst rest : Bytes) :
    trimAndSubLoop env pkg path none subst (pieces.flatMap SubstPiece.render ++ rest) =
      expandPieces env pkg path pieces >>= fun e =>
        trimAndSubLoop env pkg path none (subst ++ e) rest := by
  induction pieces generalizing subst with
  | nil => rw [expandPieces, pure_bind, List.append_nil]; rfl
  | cons piece pieces ih =>
    rw [List.flatMap_cons, List.append_assoc, trimAndSubLoop_piece]
    simp only [expandPieces, ih, bind_assoc, pure_bind, List.append_assoc]

/-- `trim_and_sub` on a value made of pieces is, from every state, their expansion. -/
theorem trimAndSub_expandPieces (str : Bytes) (pieces : List SubstPiece)
    (value : trimString str = pieces.flatMap SubstPiece.render) :
    trimAndSub env pkg str path = expandPieces env pkg path pieces := by
  rw [trimAndSub, value, ← List.append_nil (pieces.flatMap _), trimAndSubLoop_pieces]
  simp only [List.nil_append, trimAndSubLoop, bind_pure]

end Loop

/-- `${libdir}/x`, as three pieces. -/
def libdirPieces : List SubstPiece :=
  [.reference "libdir".toList (by decide), .literal '/' (by decide), .literal 'x' (by decide)]

theorem trimAndSub_expandPieces_libdir :
    trimString " $\x7blibdir\x7d/x ".toList = libdirPieces.flatMap SubstPiece.render ∧
      trimAndSub ⟨true, false, "prefix".toList, [], fun _ => none⟩
          { Package.new0 0 with vars := [("libdir".toList, "/usr/lib".toList)] }
          " $\x7blibdir\x7d/x ".toList [] =
        expandPieces ⟨true, false, "prefix".toList, [], fun _ => none⟩
          { Package.new0 0 with vars := [("libdir".toList, "/usr/lib".toList)] } [] libdirPieces :=
  ⟨by decide, trimAndSub_expandPieces _ _ (by decide)⟩

example : (expandPieces ⟨true, false, "prefix".toList, [], fun _ => none⟩
    { Package.new0 0 with vars := [("libdir".toList, "/usr/lib".toList)] } [] libdirPieces).run [] =
      .ok ("/usr/lib/x".toList, []) := rfl

/-- `${prefix}${prefix}` with `prefix` a global reads the storage the first reference freed. -/
example : (trimAndSub ⟨true, false, "prefix".toList, [("prefix".toList, "/usr".toList)],
    fun _ => none⟩ (Package.new0 0) "$\x7bprefix\x7d$\x7bprefix\x7d".toList []).run [] =
      .error (.useAfterFree "prefix".toList) := rfl

end PkgConfig
