import Mathlib.Algebra.Group.Nat.Basic
import PkgConfig.Version

/-! Versions made only of decimal numbers joined by dots. `rpmvercmp` compares two digit
runs by their length once the leading zeros are gone, and bytewise when the lengths
agree, so it never converts a run to a machine integer: on such versions it is the
lexicographic order of the lists of numbers, whatever their sizes and padding. -/

namespace PkgConfig

/-- The value of a decimal digit. -/
def digitValue (c : Char) : Nat := c.toNat - '0'.toNat

/-- The value of a digit string, most significant digit first. -/
def numeralValue : Bytes → Nat
  | [] => 0
  | c :: s => digitValue c * 10 ^ s.length + numeralValue s

/-- A non-empty string of decimal digits. -/
def Numeral (s : Bytes) : Prop := s ≠ [] ∧ ∀ c ∈ s, c.isDigit

/-- Lists of naturals compared lexicographically, a proper prefix smaller. -/
def lexSign : List Nat → List Nat → Int
  | [], [] => 0
  | [], _ :: _ => -1
  | _ :: _, [] => 1
  | x :: xs, y :: ys => if x < y then -1 else if y < x then 1 else lexSign xs ys

theorem lexSign_self : ∀ xs : List Nat, lexSign xs xs = 0
  | [] => rfl
  | x :: xs => by simp [lexSign, lexSign_self xs]

theorem lexSign_eq_neg_one_iff : ∀ xs ys : List Nat, lexSign xs ys = -1 ↔ List.lt xs ys
  | [], [] => iff_of_false (by decide) nofun
  | [], y :: ys => iff_of_true rfl (.nil y ys)
  | x :: xs, [] => iff_of_false (by simp [lexSign]) nofun
  | x :: xs, y :: ys => by
    rw [lexSign]
    split_ifs with lt gt
    · exact iff_of_true rfl (.head _ _ lt)
    · refine iff_of_false (by decide) fun less => ?_
      cases less with
      | head _ _ h => exact lt h
      | tail _ h _ => exact h gt
    · rw [lexSign_eq_neg_one_iff xs ys]
      refine ⟨.tail lt gt, fun less => ?_⟩
      cases less with
      | head _ _ h => exact absurd h lt
      | tail _ _ h => exact h

theorem isDigit_toNat {c : Char} (digit : c.isDigit) : 48 ≤ c.toNat ∧ c.toNat ≤ 57 := by
  simpa [Char.isDigit, Char.toNat] using digit

theorem digitValue_lt {c : Char} (digit : c.isDigit) : digitValue c < 10 := by
  have := isDigit_toNat digit
  show c.toNat - 48 < 10
  omega

theorem toNat_lt_iff_digitValue_lt {c d : Char} (dc : c.isDigit) (dd : d.isDigit) :
    c.toNat < d.toNat ↔ digitValue c < digitValue d := by
  have := isDigit_toNat dc
  have := isDigit_toNat dd
  show _ ↔ c.toNat - 48 < d.toNat - 48
  omega

theorem numeralValue_lt : ∀ {s : Bytes}, (∀ c ∈ s, c.isDigit) → numeralValue s < 10 ^ s.length
  | [], _ => Nat.one_pos
  | c :: s, digits => by
    have rest := numeralValue_lt fun d mem => digits d (List.mem_cons_of_mem c mem)
    have first := Nat.mul_le_mul_right (10 ^ s.length)
      (Nat.le_of_lt_succ (digitValue_lt (digits c (List.mem_cons_self c s))))
    rw [numeralValue, List.length_cons, Nat.pow_succ]
    omega

theorem pow_le_numeralValue {c : Char} (s : Bytes) (lead : 0 < digitValue c) :
    10 ^ s.length ≤ numeralValue (c :: s) := by
  have := Nat.mul_le_mul_right (10 ^ s.length) lead
  rw [numeralValue]
  omega

theorem numeralValue_concat (s : Bytes) (c : Char) :
    numeralValue (s ++ [c]) = numeralValue s * 10 + digitValue c := by
  induction s with
  | nil => simp [numeralValue]
  | cons d s ih =>
    rw [List.cons_append, numeralValue, numeralValue, ih, List.length_append, List.length_singleton,
      Nat.pow_succ, ← Nat.mul_assoc, Nat.add_mul]
    omega

theorem numeralValue_zero_cons (s : Bytes) : numeralValue ('0' :: s) = numeralValue s := by
  simp [numeralValue, digitValue]

theorem numeralValue_dropWhile_zero : ∀ s : Bytes, numeralValue (s.dropWhile (· = '0')) = numeralValue s
  | [] => rfl
  | c :: s => by
    by_cases zero : c = '0'
    · rw [List.dropWhile_cons_of_pos (by simpa using zero), numeralValue_dropWhile_zero s, zero,
        numeralValue_zero_cons]
    · rw [List.dropWhile_cons_of_neg (by simpa using zero)]

theorem numeralValue_lt_of_length_lt {u w : Bytes} (du : ∀ c ∈ u, c.isDigit)
    (dw : ∀ c ∈ w, c.isDigit) (lead : ∀ c ∈ w.head?, c ≠ '0') (shorter : u.length < w.length) :
    numeralValue u < numeralValue w := by
  obtain ⟨c, r, rfl⟩ : ∃ c r, w = c :: r := by
    cases w with
    | nil => cases shorter
    | cons c r => exact ⟨c, r, rfl⟩
  have nonzero : 0 < digitValue c := by
    have := isDigit_toNat (dw c (List.mem_cons_self c r))
    have : c.toNat ≠ 48 := fun h => lead c rfl (by rw [← Char.ofNat_toNat c, h])
    show 0 < c.toNat - 48
    omega
  calc numeralValue u < 10 ^ u.length := numeralValue_lt du
    _ ≤ 10 ^ r.length := Nat.pow_le_pow_right (by decide) (by simp at shorter; omega)
    _ ≤ numeralValue (c :: r) := pow_le_numeralValue r nonzero

theorem sign_sub_of_lt {a b : Nat} (h : a < b) : Int.sign ((a : Int) - b) = -1 :=
  Int.sign_eq_neg_one_of_neg (by omega)

theorem sign_sub_of_gt {a b : Nat} (h : b < a) : Int.sign ((a : Int) - b) = 1 :=
  Int.sign_eq_one_of_pos (by omega)

theorem strcmp_sign_numeral : ∀ {s t : Bytes}, (∀ c ∈ s, c.isDigit) → (∀ c ∈ t, c.isDigit) →
    s.length = t.length → Int.sign (strcmp s t) = Int.sign ((numeralValue s : Int) - numeralValue t)
  | [], [], _, _, _ => rfl
  | c :: s, d :: t, ds, dt, len => by
    have ds' : ∀ e ∈ s, e.isDigit := fun e mem => ds e (List.mem_cons_of_mem c mem)
    have dt' : ∀ e ∈ t, e.isDigit := fun e mem => dt e (List.mem_cons_of_mem d mem)
    have len' : s.length = t.length := by simpa using len
    have vs := numeralValue_lt ds'
    have vt := numeralValue_lt dt'
    rw [← len'] at vt
    have dc := ds c (List.mem_cons_self c s)
    have dd := dt d (List.mem_cons_self d t)
    by_cases same : c = d
    · subst same
      rw [strcmp, if_pos rfl, strcmp_sign_numeral ds' dt' len', numeralValue, numeralValue, len']
      congr 1
      omega
    · have differ : c.toNat ≠ d.toNat := fun h =>
        same (by rw [← Char.ofNat_toNat c, h, Char.ofNat_toNat])
      rw [strcmp, if_neg same, numeralValue, numeralValue, ← len']
      rcases Nat.lt_or_gt_of_ne differ with lt | gt
      · have step := Nat.mul_le_mul_right (10 ^ s.length)
          (Nat.succ_le_of_lt ((toNat_lt_iff_digitValue_lt dc dd).1 lt))
        rw [Nat.succ_mul] at step
        rw [sign_sub_of_lt lt, sign_sub_of_lt (by omega)]
      · have step := Nat.mul_le_mul_right (10 ^ s.length)
          (Nat.succ_le_of_lt ((toNat_lt_iff_digitValue_lt dd dc).1 gt))
        rw [Nat.succ_mul] at step
        rw [sign_sub_of_gt gt, sign_sub_of_gt (by omega)]
  | [], _ :: _, _, _, len => by simp at len
  | _ :: _, [], _, _, len => by simp at len

theorem compareSegments_numeral {s t : Bytes} (ds : ∀ c ∈ s, c.isDigit) (dt : ∀ c ∈ t, c.isDigit) :
    Int.sign (compareSegments true s t) = Int.sign ((numeralValue s : Int) - numeralValue t) := by
  have digits : ∀ u : Bytes, (∀ c ∈ u, c.isDigit) → ∀ c ∈ u.dropWhile (· = '0'), c.isDigit :=
    fun u du c mem => du c ((List.dropWhile_suffix _).subset mem)
  have lead : ∀ u : Bytes, ∀ c ∈ (u.dropWhile (· = '0')).head?, c ≠ '0' := by
    intro u c mem
    have first := List.head?_dropWhile_not (· = '0') u
    rw [Option.mem_def.1 mem] at first
    simpa using first
  rw [← numeralValue_dropWhile_zero s, ← numeralValue_dropWhile_zero t]
  rw [compareSegments, if_pos rfl]
  dsimp only
  split_ifs with longer shorter
  · rw [sign_sub_of_gt (numeralValue_lt_of_length_lt (digits t dt) (digits s ds) (lead s) longer)]
    rfl
  · rw [sign_sub_of_lt (numeralValue_lt_of_length_lt (digits s ds) (digits t dt) (lead t) shorter)]
    rfl
  · exact strcmp_sign_numeral (digits s ds) (digits t dt) (by omega)

theorem segment_numeral {s rest : Bytes} (ds : ∀ c ∈ s, c.isDigit)
    (stop : ∀ c ∈ rest.head?, c.isDigit = false) : segment true (s ++ rest) = (s, rest) := by
  have taken : rest.takeWhile Char.isDigit = [] := by
    cases rest with
    | nil => rfl
    | cons c r => exact List.takeWhile_cons_of_neg (by simp [stop c rfl])
  have dropped : rest.dropWhile Char.isDigit = rest := by
    cases rest with
    | nil => rfl
    | cons c r => exact List.dropWhile_cons_of_neg (by simp [stop c rfl])
  simp only [segment, if_true, List.takeWhile_append_of_pos ds, List.dropWhile_append_of_pos ds,
    taken, dropped, List.append_nil]

theorem rpmvercmpLoop_numeral (fuel : Nat) {s t rest1 rest2 : Bytes} (ns : Numeral s)
    (nt : Numeral t) (stop1 : ∀ c ∈ rest1.head?, c.isDigit = false)
    (stop2 : ∀ c ∈ rest2.head?, c.isDigit = false) :
    rpmvercmpLoop (fuel + 1) (s ++ rest1) (t ++ rest2) =
      if compareSegments true s t ≠ 0 then compareSegments true s t
      else rpmvercmpLoop fuel rest1 rest2 := by
  obtain ⟨nonempty1, ds⟩ := ns
  obtain ⟨nonempty2, dt⟩ := nt
  obtain ⟨c, s', rfl⟩ := List.exists_cons_of_ne_nil nonempty1
  obtain ⟨d, t', rfl⟩ := List.exists_cons_of_ne_nil nonempty2
  have digit := ds c (List.mem_cons_self c s')
  have kept1 : ((c :: s') ++ rest1).dropWhile (fun c => !c.isAlphanum) = (c :: s') ++ rest1 :=
    List.dropWhile_cons_of_neg (by simp [Char.isAlphanum, digit])
  have kept2 : ((d :: t') ++ rest2).dropWhile (fun c => !c.isAlphanum) = (d :: t') ++ rest2 :=
    List.dropWhile_cons_of_neg (by simp [Char.isAlphanum, dt d (List.mem_cons_self d t')])
  have isnum : ((((c :: s') ++ rest1).head?).map Char.isDigit).getD false = true := by simp [digit]
  rw [rpmvercmpLoop, if_neg (by simp)]
  dsimp only
  rw [kept1, kept2, isnum, segment_numeral ds stop1, segment_numeral dt stop2]
  dsimp only
  rw [if_neg (List.cons_ne_nil _ _), if_neg (List.cons_ne_nil _ _)]

theorem rpmvercmpLoop_dot (fuel : Nat) {a b : Bytes} (ha : a ≠ []) (hb : b ≠ []) :
    rpmvercmpLoop (fuel + 1) ('.' :: a) ('.' :: b) = rpmvercmpLoop (fuel + 1) a b := by
  rw [rpmvercmpLoop, rpmvercmpLoop, if_neg (by simp), if_neg (by simp [ha, hb]),
    List.dropWhile_cons_of_pos (by decide), List.dropWhile_cons_of_pos (by decide)]

theorem rpmvercmpLoop_nil_left (fuel : Nat) (b : Bytes) :
    rpmvercmpLoop fuel [] b = rpmvercmpRest [] b := by
  cases fuel <;> simp [rpmvercmpLoop]

theorem rpmvercmpLoop_nil_right (fuel : Nat) (a : Bytes) :
    rpmvercmpLoop fuel a [] = rpmvercmpRest a [] := by
  cases fuel <;> simp [rpmvercmpLoop]

/-- What follows the first component of a dotted version. -/
def dotRest : List Bytes → Bytes
  | [] => []
  | x :: r => '.' :: ['.'].intercalate (x :: r)

theorem intercalate_cons_dotRest (s : Bytes) : ∀ r : List Bytes,
    ['.'].intercalate (s :: r) = s ++ dotRest r
  | [] => by simp [List.intercalate, dotRest]
  | x :: r => by simp [List.intercalate, List.intersperse, dotRest]

theorem dotRest_stop (r : List Bytes) : ∀ c ∈ (dotRest r).head?, c.isDigit = false := by
  cases r <;> simp [dotRest]

theorem intercalate_numeral_ne_nil {x : Bytes} (nx : Numeral x) (r : List Bytes) :
    ['.'].intercalate (x :: r) ≠ [] := by
  rw [intercalate_cons_dotRest]
  exact List.append_ne_nil_of_left_ne_nil nx.1 _

theorem rpmvercmpLoop_numerals (xs ys : List Bytes) (fuel : Nat) (nx : ∀ s ∈ xs, Numeral s)
    (ny : ∀ t ∈ ys, Numeral t) (hx : xs ≠ []) (hy : ys ≠ []) (enough : xs.length ≤ fuel) :
    Int.sign (rpmvercmpLoop fuel (['.'].intercalate xs) (['.'].intercalate ys)) =
      lexSign (xs.map numeralValue) (ys.map numeralValue) := by
  induction xs generalizing ys fuel with
  | nil => exact absurd rfl hx
  | cons s xs ih =>
    obtain ⟨t, ys, rfl⟩ := List.exists_cons_of_ne_nil hy
    obtain ⟨f, rfl⟩ : ∃ f, fuel = f + 1 := ⟨fuel - 1, by simp at enough; omega⟩
    have ns := nx s (List.mem_cons_self s xs)
    have nt := ny t (List.mem_cons_self t ys)
    have segs := compareSegments_numeral ns.2 nt.2
    rw [intercalate_cons_dotRest, intercalate_cons_dotRest,
      rpmvercmpLoop_numeral f ns nt (dotRest_stop xs) (dotRest_stop ys), List.map_cons,
      List.map_cons, lexSign]
    by_cases rc : compareSegments true s t = 0
    · have same : numeralValue s = numeralValue t := by
        rw [rc, Int.sign_zero, eq_comm, Int.sign_eq_zero_iff_zero] at segs
        omega
      rw [if_neg (not_not.2 rc), same, if_neg (lt_irrefl _), if_neg (lt_irrefl _)]
      cases xs with
      | nil =>
        cases ys <;> simp [dotRest, rpmvercmpLoop_nil_left, rpmvercmpRest, lexSign]
      | cons x r =>
        cases ys with
        | nil => simp [dotRest, rpmvercmpLoop_nil_right, rpmvercmpRest, lexSign]
        | cons y r' =>
          obtain ⟨f', rfl⟩ : ∃ f', f = f' + 1 := ⟨f - 1, by simp at enough; omega⟩
          have nx' : ∀ s ∈ x :: r, Numeral s := fun s mem => nx s (List.mem_cons_of_mem _ mem)
          have ny' : ∀ t ∈ y :: r', Numeral t := fun t mem => ny t (List.mem_cons_of_mem _ mem)
          rw [dotRest, dotRest, rpmvercmpLoop_dot f'
            (intercalate_numeral_ne_nil (nx' x (List.mem_cons_self x r)) r)
            (intercalate_numeral_ne_nil (ny' y (List.mem_cons_self y r')) r')]
          exact ih (y :: r') (f' + 1) nx' ny' (List.cons_ne_nil _ _) (List.cons_ne_nil _ _)
            (by simpa using enough)
    · rw [if_pos rc, segs]
      rcases lt_trichotomy (numeralValue s) (numeralValue t) with lt | same | gt
      · rw [if_pos lt, sign_sub_of_lt lt]
      · rw [same, Int.sub_self, Int.sign_zero, Int.sign_eq_zero_iff_zero] at segs
        exact absurd segs rc
      · rw [if_neg (lt_asymm gt), if_pos gt, sign_sub_of_gt gt]

theorem strcmp_eq_zero : ∀ {a b : Bytes}, (∀ c ∈ a, 0 < c.toNat) → (∀ c ∈ b, 0 < c.toNat) →
    strcmp a b = 0 → a = b
  | [], [], _, _, _ => rfl
  | [], d :: _, _, hb, h => by
    have := hb d (List.mem_cons_self _ _)
    rw [strcmp] at h
    omega
  | c :: _, [], ha, _, h => by
    have := ha c (List.mem_cons_self _ _)
    rw [strcmp] at h
    omega
  | c :: a, d :: b, ha, hb, h => by
    rw [strcmp] at h
    split_ifs at h with same
    · rw [same, strcmp_eq_zero (fun e mem => ha e (List.mem_cons_of_mem c mem))
        (fun e mem => hb e (List.mem_cons_of_mem d mem)) h]
    · exact absurd (by rw [← Char.ofNat_toNat c, (by omega : c.toNat = d.toNat), Char.ofNat_toNat]) same

theorem toNat_pos_of_mem_dotted : ∀ xs : List Bytes, (∀ s ∈ xs, Numeral s) →
    ∀ c ∈ ['.'].intercalate xs, 0 < c.toNat
  | [], _, c, mem => by simp [List.intercalate] at mem
  | s :: r, nx, c, mem => by
    rw [intercalate_cons_dotRest, List.mem_append] at mem
    rcases mem with inS | inRest
    · have := isDigit_toNat ((nx s (List.mem_cons_self s r)).2 c inS)
      omega
    · cases r with
      | nil => simp [dotRest] at inRest
      | cons x r =>
        rw [dotRest, List.mem_cons] at inRest
        rcases inRest with rfl | inner
        · decide
        · exact toNat_pos_of_mem_dotted (x :: r) (fun t mem => nx t (List.mem_cons_of_mem s mem)) c inner

theorem length_le_dotted : ∀ xs : List Bytes, (∀ s ∈ xs, Numeral s) →
    xs.length ≤ (['.'].intercalate xs).length
  | [], _ => Nat.zero_le _
  | s :: r, nx => by
    have first := List.length_pos.2 (nx s (List.mem_cons_self s r)).1
    rw [intercalate_cons_dotRest, List.length_append]
    cases r with
    | nil => simp only [List.length_singleton, dotRest, List.length_nil]; omega
    | cons x r =>
      have rest := length_le_dotted (x :: r) fun t mem => nx t (List.mem_cons_of_mem s mem)
      simp only [List.length_cons, dotRest] at rest ⊢
      omega

theorem compareVersions_numerals (xs ys : List Bytes) (nx : ∀ s ∈ xs, Numeral s)
    (ny : ∀ t ∈ ys, Numeral t) (hx : xs ≠ []) (hy : ys ≠ []) :
    Int.sign (compareVersions (['.'].intercalate xs) (['.'].intercalate ys)) =
      lexSign (xs.map numeralValue) (ys.map numeralValue) := by
  have loop := rpmvercmpLoop_numerals xs ys _ nx ny hx hy (length_le_dotted xs nx)
  rw [compareVersions, rpmvercmp]
  split_ifs with same
  · have self := rpmvercmpLoop_numerals ys ys _ ny ny hy hy (length_le_dotted ys ny)
    rw [lexSign_self] at self
    rw [← loop, strcmp_eq_zero (toNat_pos_of_mem_dotted xs nx) (toNat_pos_of_mem_dotted ys ny) same,
      self]
    rfl
  · exact loop

theorem digitChar_numeral : ∀ m < 10, (Nat.digitChar m).isDigit ∧ digitValue (Nat.digitChar m) = m := by
  decide

theorem toDigitsCore_numeral : ∀ (fuel n : Nat) (ds : Bytes), n < fuel →
    ∃ pre, Nat.toDigitsCore 10 fuel n ds = pre ++ ds ∧ Numeral pre ∧ numeralValue pre = n
  | 0, n, _, h => absurd h (Nat.not_lt_zero n)
  | fuel + 1, n, ds, h => by
    have digit := digitChar_numeral (n % 10) (Nat.mod_lt _ (by decide))
    show ∃ pre, (if n / 10 = 0 then Nat.digitChar (n % 10) :: ds
      else Nat.toDigitsCore 10 fuel (n / 10) (Nat.digitChar (n % 10) :: ds)) = pre ++ ds ∧
        Numeral pre ∧ numeralValue pre = n
    split_ifs with last
    · refine ⟨[Nat.digitChar (n % 10)], rfl, ⟨List.cons_ne_nil _ _, by simpa using digit.1⟩, ?_⟩
      simp only [numeralValue, digit.2, List.length_nil, Nat.pow_zero, Nat.mul_one, Nat.add_zero]
      omega
    · obtain ⟨pre, eq, numeral, value⟩ := toDigitsCore_numeral fuel (n / 10) _ (by omega)
      refine ⟨pre ++ [Nat.digitChar (n % 10)], by simpa using eq, ⟨by simp, ?_⟩, ?_⟩
      · intro e mem
        rcases List.mem_append.1 mem with early | last
        · exact numeral.2 e early
        · rw [List.mem_singleton.1 last]
          exact digit.1
      · rw [numeralValue_concat, value, digit.2]
        omega

theorem toDigits_numeral (n : Nat) :
    Numeral (Nat.toDigits 10 n) ∧ numeralValue (Nat.toDigits 10 n) = n := by
  obtain ⟨pre, eq, numeral, value⟩ := toDigitsCore_numeral (n + 1) n [] (Nat.lt_succ_self n)
  have printed : Nat.toDigits 10 n = pre := eq.trans (List.append_nil pre)
  rw [printed]
  exact ⟨numeral, value⟩

theorem numeralValue_replicate_zero (z : Nat) (u : Bytes) :
    numeralValue (List.replicate z '0' ++ u) = numeralValue u := by
  induction z with
  | zero => rfl
  | succ z ih => rw [List.replicate_succ, List.cons_append, numeralValue_zero_cons, ih]

/-- Numbers in decimal, each after `c.1` extra leading zeros, joined by dots. -/
def numericVersion (xs : List (Nat × Nat)) : Bytes :=
  ['.'].intercalate (xs.map fun c => List.replicate c.1 '0' ++ Nat.toDigits 10 c.2)

/-- On dotted numbers `compare_versions` is the lexicographic order of their values. -/
theorem compareVersions_numeric_lex (xs ys : List (Nat × Nat)) (hx : xs ≠ []) (hy : ys ≠ []) :
    Int.sign (compareVersions (numericVersion xs) (numericVersion ys)) =
      lexSign (xs.map Prod.snd) (ys.map Prod.snd) := by
  have component : ∀ c : Nat × Nat, Numeral (List.replicate c.1 '0' ++ Nat.toDigits 10 c.2) ∧
      numeralValue (List.replicate c.1 '0' ++ Nat.toDigits 10 c.2) = c.2 := by
    intro c
    obtain ⟨⟨nonempty, digits⟩, value⟩ := toDigits_numeral c.2
    refine ⟨⟨List.append_ne_nil_of_right_ne_nil _ nonempty, fun d mem => ?_⟩, by
      rw [numeralValue_replicate_zero, value]⟩
    rcases List.mem_append.1 mem with pad | inDigits
    · rw [List.eq_of_mem_replicate pad]
      rfl
    · exact digits d inDigits
  have compared := compareVersions_numerals _ _
    (List.forall_mem_map.2 fun c _ => (component c).1) (List.forall_mem_map.2 fun c _ => (component c).1)
    (by simpa using hx) (by simpa using hy)
  have value : (numeralValue ∘ fun c : Nat × Nat => List.replicate c.1 '0' ++ Nat.toDigits 10 c.2) =
      Prod.snd := funext fun c => (component c).2
  rwa [List.map_map, List.map_map, value] at compared

theorem compareVersions_numeric_lex_padded :
    Int.sign (compareVersions (numericVersion [(0, 1), (0, 10)]) (numericVersion [(1, 1), (0, 9)])) =
      lexSign [1, 10] [1, 9] :=
  compareVersions_numeric_lex _ _ (by decide) (by decide)

example : numericVersion [(1, 1), (0, 9)] = "01.9".toList ∧
    compareVersions "1.10".toList "01.9".toList = 1 := by
  decide

end PkgConfig
