import PkgConfig.VersionOrder

/-! Versions as `rpmvercmp` reads them: runs of digits and runs of letters (segments)
with runs of other bytes between them. On two versions that each end with a segment,
`compare_versions` compares the lists of segments lexicographically: numbers by value,
letters by their byte codes, a number against letters older whichever side it is on, and
a version that runs out first older. Which separator bytes stand between the segments,
and leading zeros, play no part. Within one scheme (the kinds of the segments following
one pattern) the segment-wise comparison is a total preorder, and through the refinement
so is `compare_versions`. A trailing separator takes a version out of this class. -/

namespace PkgConfig

theorem lexSign_swap : ∀ xs ys : List Nat, lexSign ys xs = -lexSign xs ys
  | [], [] => rfl
  | [], _ :: _ => rfl
  | _ :: _, [] => rfl
  | x :: xs, y :: ys => by
    simp only [lexSign]
    split_ifs <;> first | omega | exact lexSign_swap xs ys

theorem lexSign_eq_zero_iff : ∀ xs ys : List Nat, lexSign xs ys = 0 ↔ xs = ys
  | [], [] => iff_of_true rfl rfl
  | [], _ :: _ => iff_of_false (by rw [lexSign]; decide) nofun
  | _ :: _, [] => iff_of_false (by rw [lexSign]; decide) nofun
  | x :: xs, y :: ys => by
    simp only [lexSign, List.cons.injEq]
    split_ifs with lt gt
    · exact iff_of_false (by decide) fun same => by omega
    · exact iff_of_false (by decide) fun same => by omega
    · rw [lexSign_eq_zero_iff xs ys]
      exact ⟨fun same => ⟨by omega, same⟩, And.right⟩

theorem lexSign_trichotomy : ∀ xs ys : List Nat, lexSign xs ys = -1 ∨ lexSign xs ys = 0 ∨ lexSign xs ys = 1
  | [], [] => .inr (.inl rfl)
  | [], _ :: _ => .inl rfl
  | _ :: _, [] => .inr (.inr rfl)
  | x :: xs, y :: ys => by
    simp only [lexSign]
    split_ifs
    · exact .inl rfl
    · exact .inr (.inr rfl)
    · exact lexSign_trichotomy xs ys

theorem lexSign_le_trans : ∀ xs ys zs : List Nat,
    lexSign xs ys ≤ 0 → lexSign ys zs ≤ 0 → lexSign xs zs ≤ 0
  | [], _, [], _, _ => by decide
  | [], _, _ :: _, _, _ => by rw [lexSign]; decide
  | _ :: _, [], _, h, _ => absurd h (by rw [lexSign]; decide)
  | _ :: _, _ :: _, [], _, h => absurd h (by rw [lexSign]; decide)
  | x :: xs, y :: ys, z :: zs, hxy, hyz => by
    simp only [lexSign] at *
    have tail := lexSign_le_trans xs ys zs
    split_ifs at * <;> omega

theorem lexSign_lt_trans {xs ys zs : List Nat} (hxy : lexSign xs ys = -1)
    (hyz : lexSign ys zs ≤ 0) : lexSign xs zs = -1 := by
  have le := lexSign_le_trans xs ys zs (by omega) hyz
  rcases lexSign_trichotomy xs zs with older | same | newer
  · exact older
  · obtain rfl := (lexSign_eq_zero_iff xs zs).1 same
    rw [lexSign_swap] at hyz
    omega
  · omega

/-- A maximal run that `rpmvercmp` compares: digits, or letters. -/
inductive Segment
  | num (digits : Bytes) (numeral : Numeral digits)
  | alpha (letters : Bytes) (nonempty : letters ≠ []) (letter : ∀ c ∈ letters, c.isAlpha)

namespace Segment

/-- The bytes of the run. -/
def bytes : Segment → Bytes
  | num s _ => s
  | alpha s _ _ => s

/-- Whether the run is made of digits. -/
def isNum : Segment → Bool
  | num .. => true
  | alpha .. => false

/-- What orders runs of one kind: the value of a number, the byte codes of letters. -/
def key : Segment → List Nat
  | num s _ => [numeralValue s]
  | alpha s _ _ => s.map Char.toNat

/-- Runs of one kind compared by key; a number against letters is older either way. -/
def compare (x y : Segment) : Int := if x.isNum = y.isNum then lexSign x.key y.key else -1

theorem compare_self (x : Segment) : x.compare x = 0 := by
  rw [compare, if_pos rfl, lexSign_self]

end Segment

/-- Segment lists compared lexicographically, a proper prefix being older. -/
def segCompare : List Segment → List Segment → Int
  | [], [] => 0
  | [], _ :: _ => -1
  | _ :: _, [] => 1
  | x :: xs, y :: ys => if x.compare y = 0 then segCompare xs ys else x.compare y

theorem segCompare_self : ∀ xs : List Segment, segCompare xs xs = 0
  | [] => rfl
  | x :: xs => by rw [segCompare, if_pos x.compare_self, segCompare_self xs]

/-- Segments whose kinds follow `kinds` from its start: a version scheme. -/
def FollowsKinds : List Bool → List Segment → Prop
  | _, [] => True
  | [], _ :: _ => False
  | k :: ks, x :: xs => x.isNum = k ∧ FollowsKinds ks xs

theorem segCompare_swap : ∀ (kinds : List Bool) (xs ys : List Segment), FollowsKinds kinds xs →
    FollowsKinds kinds ys → segCompare ys xs = -segCompare xs ys
  | _, [], [], _, _ => rfl
  | _, [], _ :: _, _, _ => rfl
  | _, _ :: _, [], _, _ => rfl
  | [], _ :: _, _ :: _, fx, _ => fx.elim
  | k :: ks, x :: xs, y :: ys, ⟨kx, fx⟩, ⟨ky, fy⟩ => by
    have same : x.isNum = y.isNum := kx.trans ky.symm
    simp only [segCompare, Segment.compare, same, if_true, lexSign_swap x.key]
    split_ifs <;> first | omega | exact segCompare_swap ks xs ys fx fy

theorem segCompare_le_trans : ∀ (kinds : List Bool) (xs ys zs : List Segment),
    FollowsKinds kinds xs → FollowsKinds kinds ys → FollowsKinds kinds zs →
    segCompare xs ys ≤ 0 → segCompare ys zs ≤ 0 → segCompare xs zs ≤ 0
  | _, [], _, [], _, _, _, _, _ => by simp [segCompare]
  | _, [], _, _ :: _, _, _, _, _, _ => by simp [segCompare]
  | _, _ :: _, [], _, _, _, _, h, _ => absurd h (by simp [segCompare])
  | _, _ :: _, _ :: _, [], _, _, _, _, h => absurd h (by simp [segCompare])
  | [], _ :: _, _, _, fx, _, _, _, _ => fx.elim
  | k :: ks, x :: xs, y :: ys, z :: zs, ⟨kx, fx⟩, ⟨ky, fy⟩, ⟨kz, fz⟩, hxy, hyz => by
    simp only [segCompare, Segment.compare, kx, ky, kz, if_true] at hxy hyz ⊢
    rcases lexSign_trichotomy x.key y.key with older | same | newer
    · have hyz' : lexSign y.key z.key ≤ 0 := by split_ifs at hyz <;> omega
      rw [lexSign_lt_trans older hyz', if_neg (by decide)]
      decide
    · rw [if_pos same] at hxy
      rw [(lexSign_eq_zero_iff _ _).1 same]
      split_ifs at hyz ⊢ <;> first | omega | exact segCompare_le_trans ks xs ys zs fx fy fz hxy hyz
    · rw [newer, if_neg (by decide)] at hxy
      exact absurd hxy (by decide)

/-! The byte level: a version as runs of separators each followed by a segment. -/

theorem strcmp_sign_lexSign : ∀ {s t : Bytes}, (∀ c ∈ s, 0 < c.toNat) → (∀ c ∈ t, 0 < c.toNat) →
    Int.sign (strcmp s t) = lexSign (s.map Char.toNat) (t.map Char.toNat)
  | [], [], _, _ => rfl
  | [], d :: _, _, pt => by
    have := pt d (List.mem_cons_self _ _)
    rw [strcmp, List.map_nil, List.map_cons, lexSign]
    exact Int.sign_eq_neg_one_of_neg (by omega)
  | c :: _, [], ps, _ => by
    have := ps c (List.mem_cons_self _ _)
    rw [strcmp, List.map_nil, List.map_cons, lexSign]
    exact Int.sign_eq_one_of_pos (by omega)
  | c :: s, d :: t, ps, pt => by
    rw [strcmp, List.map_cons, List.map_cons, lexSign]
    by_cases same : c = d
    · rw [if_pos same, same, if_neg (lt_irrefl _), if_neg (lt_irrefl _)]
      exact strcmp_sign_lexSign (fun e mem => ps e (List.mem_cons_of_mem c mem))
        fun e mem => pt e (List.mem_cons_of_mem d mem)
    · have ne : c.toNat ≠ d.toNat := fun h => same (by rw [← Char.ofNat_toNat c, h, Char.ofNat_toNat])
      rw [if_neg same]
      split_ifs with lt gt
      · exact Int.sign_eq_neg_one_of_neg (by omega)
      · exact Int.sign_eq_one_of_pos (by omega)
      · omega

/-- The bytes a run of the kind `isnum` is made of. -/
def classOf (isnum : Bool) (c : Char) : Bool := if isnum then c.isDigit else c.isAlpha

theorem segment_eq_classOf (isnum : Bool) (s : Bytes) :
    segment isnum s = (s.takeWhile (classOf isnum), s.dropWhile (classOf isnum)) := by
  cases isnum <;> rfl

theorem isAlpha_toNat {c : Char} (letter : c.isAlpha) :
    65 ≤ c.toNat ∧ c.toNat ≤ 90 ∨ 97 ≤ c.toNat ∧ c.toNat ≤ 122 := by
  simpa [Char.isAlpha, Char.isUpper, Char.isLower, Char.toNat] using letter

theorem isDigit_eq_false_of_isAlpha {c : Char} (letter : c.isAlpha) : c.isDigit = false := by
  have := isAlpha_toNat letter
  cases digit : c.isDigit
  · rfl
  · have := isDigit_toNat digit
    omega

theorem isAlpha_eq_false_of_isDigit {c : Char} (digit : c.isDigit) : c.isAlpha = false := by
  cases letter : c.isAlpha
  · rfl
  · exact absurd (isDigit_eq_false_of_isAlpha letter) (by simp [digit])

namespace Segment

theorem bytes_ne_nil : ∀ x : Segment, x.bytes ≠ []
  | num _ numeral => numeral.1
  | alpha _ nonempty _ => nonempty

theorem classOf_bytes : ∀ (x : Segment), ∀ c ∈ x.bytes, classOf x.isNum c = true
  | num _ numeral => numeral.2
  | alpha _ _ letter => letter

theorem isAlphanum_bytes (x : Segment) : ∀ c ∈ x.bytes, c.isAlphanum = true := by
  intro c mem
  have := x.classOf_bytes c mem
  cases x <;> simp_all [isNum, classOf, Char.isAlphanum]

theorem classOf_head_other (x : Segment) {k : Bool} (other : x.isNum ≠ k) (rest : Bytes) :
    ∀ c ∈ (x.bytes ++ rest).head?, classOf k c = false := by
  intro c mem
  obtain ⟨d, r, eq⟩ := List.exists_cons_of_ne_nil x.bytes_ne_nil
  rw [eq, List.cons_append, List.head?_cons, Option.mem_some_iff] at mem
  have kind := x.classOf_bytes c (mem ▸ eq ▸ List.mem_cons_self d r)
  cases x <;> cases k <;> simp_all [isNum, classOf, isDigit_eq_false_of_isAlpha,
    isAlpha_eq_false_of_isDigit]

theorem isDigit_head (x : Segment) (rest : Bytes) :
    (((x.bytes ++ rest).head?).map Char.isDigit).getD false = x.isNum := by
  obtain ⟨c, r, eq⟩ := List.exists_cons_of_ne_nil x.bytes_ne_nil
  have kind := x.classOf_bytes c (eq ▸ List.mem_cons_self c r)
  rw [eq]
  cases x <;> simp_all [isNum, classOf, isDigit_eq_false_of_isAlpha]

end Segment

theorem rpmvercmpLoop_part (fuel : Nat) {s t rest1 rest2 : Bytes} (x y : Segment)
    (seps : ∀ c ∈ s, c.isAlphanum = false) (sept : ∀ c ∈ t, c.isAlphanum = false)
    (stop1 : ∀ c ∈ rest1.head?, classOf x.isNum c = false)
    (stop2 : ∀ c ∈ rest2.head?, classOf y.isNum c = false) :
    rpmvercmpLoop (fuel + 1) (s ++ (x.bytes ++ rest1)) (t ++ (y.bytes ++ rest2)) =
      if x.isNum = y.isNum then
        if compareSegments x.isNum x.bytes y.bytes ≠ 0 then compareSegments x.isNum x.bytes y.bytes
        else rpmvercmpLoop fuel rest1 rest2
      else -1 := by
  have skip : ∀ (u : Bytes) (z : Segment) (rest : Bytes), (∀ c ∈ u, c.isAlphanum = false) →
      (u ++ (z.bytes ++ rest)).dropWhile (fun c => !c.isAlphanum) = z.bytes ++ rest :=
    fun u z rest sep => by
      rw [List.dropWhile_append_of_pos (by simpa using sep)]
      obtain ⟨c, r, eq⟩ := List.exists_cons_of_ne_nil z.bytes_ne_nil
      have alnum := z.isAlphanum_bytes c (eq ▸ List.mem_cons_self c r)
      rw [eq, List.cons_append, List.dropWhile_cons_of_neg (by simp [alnum])]
  have run : ∀ (z : Segment) (rest : Bytes), (∀ c ∈ rest.head?, classOf z.isNum c = false) →
      segment z.isNum (z.bytes ++ rest) = (z.bytes, rest) := fun z rest stop => by
    rw [segment_eq_classOf, List.takeWhile_append_of_pos z.classOf_bytes,
      List.dropWhile_append_of_pos z.classOf_bytes, takeWhile_eq_nil stop, dropWhile_eq_self stop,
      List.append_nil]
  rw [rpmvercmpLoop, if_neg (by simp [x.bytes_ne_nil, y.bytes_ne_nil])]
  dsimp only
  rw [skip s x rest1 seps, skip t y rest2 sept, x.isDigit_head, run x rest1 stop1]
  dsimp only
  rw [if_neg x.bytes_ne_nil]
  by_cases same : x.isNum = y.isNum
  · rw [if_pos same, same, run y rest2 stop2]
    dsimp only
    rw [if_neg y.bytes_ne_nil]
  · rw [if_neg same, segment_eq_classOf]
    dsimp only
    rw [takeWhile_eq_nil (y.classOf_head_other (Ne.symm same) rest2), if_pos rfl]

theorem Segment.sign_compareSegments : ∀ (x y : Segment), x.isNum = y.isNum →
    Int.sign (compareSegments x.isNum x.bytes y.bytes) = x.compare y
  | .num s ns, .num t nt, kind => by
    rw [compare, if_pos kind, bytes, bytes, isNum, compareSegments_numeral ns.2 nt.2]
    simp only [key, lexSign]
    split_ifs with lt gt
    · exact sign_sub_of_lt lt
    · exact sign_sub_of_gt gt
    · rw [show numeralValue s = numeralValue t by omega, Int.sub_self, Int.sign_zero]
  | .alpha s _ ls, .alpha t _ lt, kind => by
    rw [compare, if_pos kind, bytes, bytes, isNum, key, key, compareSegments, if_neg (by decide)]
    exact strcmp_sign_lexSign (fun c mem => by have := isAlpha_toNat (ls c mem); omega)
      fun c mem => by have := isAlpha_toNat (lt c mem); omega
  | .num .., .alpha .., kind => nomatch kind
  | .alpha .., .num .., kind => nomatch kind

/-- Separator runs, each followed by its segment. -/
def renderParts : List (Bytes × Segment) → Bytes
  | [] => []
  | (sep, x) :: rest => sep ++ (x.bytes ++ renderParts rest)

/-- A segment following another without a separator is of the other kind. -/
def RunsApart : List (Bytes × Segment) → Prop
  | (_, x) :: (sep, y) :: rest => (sep = [] → x.isNum ≠ y.isNum) ∧ RunsApart ((sep, y) :: rest)
  | _ => True

/-- Every separator byte is one `rpmvercmp` skips. -/
def SeparatorsOk (parts : List (Bytes × Segment)) : Prop :=
  ∀ p ∈ parts, ∀ c ∈ p.1, c.isAlphanum = false ∧ 0 < c.toNat

theorem renderParts_ne_nil {sep : Bytes} {x : Segment} (rest : List (Bytes × Segment)) :
    renderParts ((sep, x) :: rest) ≠ [] := by
  simp [renderParts, x.bytes_ne_nil]

theorem stop_renderParts {sep : Bytes} {x : Segment} :
    ∀ {rest : List (Bytes × Segment)}, RunsApart ((sep, x) :: rest) → SeparatorsOk rest →
      ∀ c ∈ (renderParts rest).head?, classOf x.isNum c = false
  | [], _, _ => nofun
  | (t, y) :: rest, ⟨apart, _⟩, seps => by
    cases t with
    | nil => exact y.classOf_head_other (apart rfl).symm _
    | cons c t =>
      intro d mem
      rw [renderParts, List.cons_append, List.head?_cons, Option.mem_some_iff] at mem
      subst mem
      have skipped := (seps _ (List.mem_cons_self _ _) c (List.mem_cons_self _ _)).1
      cases kind : x.isNum <;> simp_all [classOf, Char.isAlphanum]

theorem SeparatorsOk.tail {p : Bytes × Segment} {rest : List (Bytes × Segment)}
    (seps : SeparatorsOk (p :: rest)) : SeparatorsOk rest :=
  fun q mem => seps q (List.mem_cons_of_mem p mem)

theorem RunsApart.tail {p : Bytes × Segment} : ∀ {rest : List (Bytes × Segment)},
    RunsApart (p :: rest) → RunsApart rest
  | [], _ => trivial
  | _ :: _, apart => apart.2

theorem rpmvercmpLoop_parts : ∀ (xs ys : List (Bytes × Segment)) (fuel : Nat),
    SeparatorsOk xs → SeparatorsOk ys → RunsApart xs → RunsApart ys → xs.length ≤ fuel →
    Int.sign (rpmvercmpLoop fuel (renderParts xs) (renderParts ys)) =
      segCompare (xs.map Prod.snd) (ys.map Prod.snd)
  | [], [], fuel, _, _, _, _, _ => by rw [renderParts, rpmvercmpLoop_nil_left]; rfl
  | [], (t, y) :: ys, fuel, _, _, _, _, _ => by
    rw [renderParts, rpmvercmpLoop_nil_left, rpmvercmpRest, if_neg (by simp [renderParts_ne_nil]),
      if_pos rfl]
    rfl
  | (s, x) :: xs, [], fuel, _, _, _, _, _ => by
    rw [renderParts, rpmvercmpLoop_nil_right, rpmvercmpRest, if_neg (by simp [renderParts_ne_nil]),
      if_neg (renderParts_ne_nil xs)]
    rfl
  | (s, x) :: xs, (t, y) :: ys, fuel, sx, sy, ax, ay, enough => by
    obtain ⟨f, rfl⟩ : ∃ f, fuel = f + 1 := ⟨fuel - 1, by simp at enough; omega⟩
    have seps : ∀ c ∈ s, c.isAlphanum = false := fun c mem => (sx _ (List.mem_cons_self _ _) c mem).1
    have sept : ∀ c ∈ t, c.isAlphanum = false := fun c mem => (sy _ (List.mem_cons_self _ _) c mem).1
    rw [renderParts, renderParts, rpmvercmpLoop_part f x y seps sept (stop_renderParts ax sx.tail)
      (stop_renderParts ay sy.tail), List.map_cons, List.map_cons, segCompare]
    by_cases kind : x.isNum = y.isNum
    · have agree := x.sign_compareSegments y kind
      rw [if_pos kind]
      dsimp only
      by_cases zero : compareSegments x.isNum x.bytes y.bytes = 0
      · have same : x.compare y = 0 := by rw [← agree, zero, Int.sign_zero]
        rw [if_neg (not_not.2 zero), if_pos same,
          rpmvercmpLoop_parts xs ys f sx.tail sy.tail ax.tail ay.tail (by simpa using enough)]
      · have differ : x.compare y ≠ 0 := fun h => zero (Int.sign_eq_zero_iff_zero.1 (agree.trans h))
        rw [if_pos zero, if_neg differ, agree]
    · rw [if_neg kind, Segment.compare, if_neg kind, if_neg (by decide)]
      rfl

theorem Segment.toNat_pos (x : Segment) : ∀ c ∈ x.bytes, 0 < c.toNat := by
  intro c mem
  have kind := x.classOf_bytes c mem
  cases x with
  | num => have := isDigit_toNat kind; omega
  | alpha => have := isAlpha_toNat kind; omega

theorem length_le_renderParts : ∀ parts : List (Bytes × Segment),
    parts.length ≤ (renderParts parts).length
  | [] => Nat.zero_le _
  | (s, x) :: rest => by
    have := length_le_renderParts rest
    have := List.length_pos.2 x.bytes_ne_nil
    simp only [renderParts, List.length_cons, List.length_append]
    omega

theorem toNat_pos_renderParts : ∀ {parts : List (Bytes × Segment)}, SeparatorsOk parts →
    ∀ c ∈ renderParts parts, 0 < c.toNat
  | [], _, _, mem => nomatch mem
  | (s, x) :: rest, seps, c, mem => by
    rw [renderParts, List.mem_append, List.mem_append] at mem
    rcases mem with inSep | inSeg | inRest
    · exact (seps _ (List.mem_cons_self _ _) c inSep).2
    · exact x.toNat_pos c inSeg
    · exact toNat_pos_renderParts seps.tail c inRest

/-- A version as `rpmvercmp` reads it: separator runs, each followed by a segment. -/
structure SegmentedVersion where
  parts : List (Bytes × Segment)
  separators : SeparatorsOk parts
  apart : RunsApart parts

/-- The version string. -/
def SegmentedVersion.render (v : SegmentedVersion) : Bytes := renderParts v.parts

/-- Its segments, without the separators. -/
def SegmentedVersion.segments (v : SegmentedVersion) : List Segment := v.parts.map Prod.snd

theorem rpmvercmpLoop_versions (a b : SegmentedVersion) :
    Int.sign (rpmvercmpLoop a.render.length a.render b.render) = segCompare a.segments b.segments :=
  rpmvercmpLoop_parts a.parts b.parts _ a.separators b.separators a.apart b.apart
    (length_le_renderParts a.parts)

/-- `compare_versions` compares segmented versions run by run. -/
theorem compareVersions_segments (a b : SegmentedVersion) :
    Int.sign (compareVersions a.render b.render) = segCompare a.segments b.segments := by
  rw [compareVersions, rpmvercmp]
  split_ifs with same
  · have self := rpmvercmpLoop_versions b b
    rw [segCompare_self] at self
    have equal : a.render = b.render :=
      strcmp_eq_zero (toNat_pos_renderParts a.separators) (toNat_pos_renderParts b.separators) same
    rw [← rpmvercmpLoop_versions a b, equal, self]
    rfl
  · exact rpmvercmpLoop_versions a b

example : compareVersions "1.2a".toList "1.10".toList = -1 := by decide

theorem sign_nonpos_iff (x : Int) : x.sign ≤ 0 ↔ x ≤ 0 := by
  rcases Int.lt_trichotomy x 0 with neg | zero | pos
  · rw [Int.sign_eq_neg_one_of_neg neg]
    omega
  · subst zero
    decide
  · rw [Int.sign_eq_one_of_pos pos]
    omega

/-- On one scheme `compare_versions` is a total preorder, and so is `version_test`. -/
theorem compareVersions_scheme (kinds : List Bool) (a b c : SegmentedVersion)
    (fa : FollowsKinds kinds a.segments) (fb : FollowsKinds kinds b.segments)
    (fc : FollowsKinds kinds c.segments) :
    Int.sign (compareVersions b.render a.render) = -Int.sign (compareVersions a.render b.render) ∧
      (compareVersions a.render b.render ≤ 0 → compareVersions b.render c.render ≤ 0 →
        compareVersions a.render c.render ≤ 0) ∧
      versionTest .lessThan a.render b.render = versionTest .greaterThan b.render a.render ∧
      (versionTest .lessThanEqual a.render b.render = true →
        versionTest .lessThanEqual b.render c.render = true →
        versionTest .lessThanEqual a.render c.render = true) := by
  have swap : Int.sign (compareVersions b.render a.render) =
      -Int.sign (compareVersions a.render b.render) := by
    rw [compareVersions_segments, compareVersions_segments]
    exact segCompare_swap kinds _ _ fa fb
  have trans : compareVersions a.render b.render ≤ 0 → compareVersions b.render c.render ≤ 0 →
      compareVersions a.render c.render ≤ 0 := by
    rw [← sign_nonpos_iff (compareVersions a.render b.render),
      ← sign_nonpos_iff (compareVersions b.render c.render),
      ← sign_nonpos_iff (compareVersions a.render c.render), compareVersions_segments,
      compareVersions_segments, compareVersions_segments]
    exact segCompare_le_trans kinds _ _ _ fa fb fc
  have lessThan : compareVersions a.render b.render < 0 ↔ 0 < compareVersions b.render a.render := by
    rw [← Int.sign_eq_neg_one_iff_neg, ← Int.sign_eq_one_iff_pos, swap]
    omega
  refine ⟨swap, trans, ?_, ?_⟩
  · simp only [versionTest, gt_iff_lt, lessThan]
  · simpa only [versionTest, decide_eq_true_eq] using trans

/-- `1.2`. -/
def version12 : SegmentedVersion :=
  ⟨[([], .num ['1'] ⟨by decide, by decide⟩), (['.'], .num ['2'] ⟨by decide, by decide⟩)],
    by unfold SeparatorsOk; decide, by simp [RunsApart]⟩

/-- `1.2rc`. -/
def version12rc : SegmentedVersion :=
  ⟨[([], .num ['1'] ⟨by decide, by decide⟩), (['.'], .num ['2'] ⟨by decide, by decide⟩),
    ([], .alpha ['r', 'c'] (by decide) (by decide))],
    by unfold SeparatorsOk; decide, by simp [RunsApart, Segment.isNum]⟩

/-- `1.10`. -/
def version110 : SegmentedVersion :=
  ⟨[([], .num ['1'] ⟨by decide, by decide⟩), (['.'], .num ['1', '0'] ⟨by decide, by decide⟩)],
    by unfold SeparatorsOk; decide, by simp [RunsApart]⟩

theorem compareVersions_scheme_rc :
    FollowsKinds [true, true, false] version12.segments ∧
      FollowsKinds [true, true, false] version12rc.segments ∧
      FollowsKinds [true, true, false] version110.segments ∧
      (Int.sign (compareVersions version12rc.render version12.render) =
          -Int.sign (compareVersions version12.render version12rc.render) ∧
        (compareVersions version12.render version12rc.render ≤ 0 →
          compareVersions version12rc.render version110.render ≤ 0 →
          compareVersions version12.render version110.render ≤ 0) ∧
        versionTest .lessThan version12.render version12rc.render =
          versionTest .greaterThan version12rc.render version12.render ∧
        (versionTest .lessThanEqual version12.render version12rc.render = true →
          versionTest .lessThanEqual version12rc.render version110.render = true →
          versionTest .lessThanEqual version12.render version110.render = true)) :=
  have fa : FollowsKinds [true, true, false] version12.segments := by
    simp [FollowsKinds, SegmentedVersion.segments, version12, Segment.isNum]
  have fb : FollowsKinds [true, true, false] version12rc.segments := by
    simp [FollowsKinds, SegmentedVersion.segments, version12rc, Segment.isNum]
  have fc : FollowsKinds [true, true, false] version110.segments := by
    simp [FollowsKinds, SegmentedVersion.segments, version110, Segment.isNum]
  ⟨fa, fb, fc, compareVersions_scheme _ _ _ _ fa fb fc⟩

end PkgConfig
