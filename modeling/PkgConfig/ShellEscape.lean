import Mathlib.Algebra.Group.Nat.Basic
import PkgConfig.Flags

/-! `strdup_escape_shell` as the C code runs it: a heap block of `r_s` bytes that doubles
when it is nearly full, into which each pass of the loop stores a backslash and the byte,
or the byte alone, and a terminating NUL at the end. `size_t` arithmetic is modulo
`2 ^ w`. A store at an index that is not below the size of the block, and a read of a
byte that was never stored, are where the model fails. Under the bound on the length of
the argument, no `size_t` operation wraps and the loop keeps `c + 2 < r_s`, so every
store lands inside the block, and the string returned is `strdupEscapeShell`, which is
also the escaping stated as a set of bytes left alone, and can be undone. -/

namespace PkgConfig

/-- A heap block: one entry per allocated byte, `none` while the byte is unwritten. -/
abbrev HeapBytes := List (Option Char)

/-- `g_malloc (n)`: `n` unwritten bytes. -/
def gMalloc (n : Nat) : HeapBytes := List.replicate n none

/-- `g_realloc (r, n)`: the first `n` bytes kept, unwritten bytes after them. -/
def gRealloc (r : HeapBytes) (n : Nat) : HeapBytes :=
  r.take n ++ List.replicate (n - r.length) none

/-- `r[i] = x`, or `none` when `i` is not below the size of the block. -/
def storeByte (r : HeapBytes) (i : Nat) (x : Char) : Option HeapBytes :=
  if i < r.length then some (r.set i (some x)) else none

/-- The C string at the start of a block, or `none` on an unwritten or outside byte. -/
def readCString : HeapBytes → Option Bytes
  | [] => none
  | none :: _ => none
  | some c :: rest => if c = '\x00' then some [] else (c :: ·) <$> readCString rest

/-- The variables of the loop of `strdup_escape_shell`: `r_s`, `c` and the block `r`. -/
structure EscapeState where
  rs : Nat
  c : Nat
  r : HeapBytes

section Loop

/-! The loop on a `size_t` of `w` bits. -/

variable (w : Nat)

/-- `r[c] = x; c++;` -/
def putByte (st : EscapeState) (x : Char) : Option EscapeState :=
  (storeByte st.r st.c x).map fun r => { st with c := (st.c + 1) % 2 ^ w, r := r }

/-- `if (c+2 >= r_s) { r_s *= 2; r = g_realloc (r, r_s); }` -/
def growIfFull (st : EscapeState) : EscapeState :=
  if st.rs ≤ (st.c + 2) % 2 ^ w then
    { st with rs := st.rs * 2 % 2 ^ w, r := gRealloc st.r (st.rs * 2 % 2 ^ w) }
  else st

/-- One pass of the loop on the byte `b`: a backslash first when `b` needs one. -/
def escapeStep (st : EscapeState) (b : Char) : Option EscapeState := do
  let st ← if needsShellEscape b then putByte w st '\\' else pure st
  let st ← putByte w st b
  pure (growIfFull w st)

/-- The loop over the bytes still to be read. -/
def escapeLoop : EscapeState → Bytes → Option EscapeState
  | st, [] => some st
  | st, b :: rest => escapeStep w st b >>= fun st => escapeLoop st rest

/-- `r_s = strlen (s) + 10; c = 0; r = g_malloc (r_s);` -/
def escapeInit (s : Bytes) : EscapeState :=
  ⟨(s.length + 10) % 2 ^ w, 0, gMalloc ((s.length + 10) % 2 ^ w)⟩

/-- `strdup_escape_shell` on a `size_t` of `w` bits: the block it returns. -/
def strdupEscapeShellBuffer (s : Bytes) : Option HeapBytes := do
  let st ← escapeLoop w (escapeInit w s) s
  storeByte st.r st.c '\x00'

end Loop

/-- The bytes left unescaped: letters, digits and `$ ( ) + , - . / : = @ ^ _ ~`. -/
def shellSafe (b : Char) : Bool :=
  b.isAlphanum || decide (b ∈ ['$', '(', ')', '+', ',', '-', '.', '/', ':', '=', '@', '^', '_', '~'])

/-- The escaping byte by byte: a backslash before each byte outside `shellSafe`. -/
def specEscapeShell (s : Bytes) : Bytes :=
  s.flatMap fun b => if shellSafe b then [b] else ['\\', b]

/-- Each escaping backslash dropped: a backslash and the byte after it give that byte. -/
def dropEscapes : Bytes → Bytes
  | [] => []
  | '\\' :: b :: rest => b :: dropEscapes rest
  | b :: rest => b :: dropEscapes rest

theorem needsShellEscape_eq_not_shellSafe (b : Char) : needsShellEscape b = !shellSafe b := by
  have lt : ∀ c d : Char, c < d ↔ c.toNat < d.toNat := fun _ _ => Iff.rfl
  have eq : ∀ c d : Char, c = d ↔ c.toNat = d.toNat := fun c d =>
    ⟨congrArg _, fun h => by rw [← Char.ofNat_toNat c, h, Char.ofNat_toNat]⟩
  have ule : ∀ x y : UInt32, x ≤ y ↔ x.toNat ≤ y.toNat := fun _ _ => Iff.rfl
  have val : b.val.toNat = b.toNat := rfl
  simp only [needsShellEscape, shellSafe, Char.isAlphanum, Char.isAlpha, Char.isUpper,
    Char.isLower, Char.isDigit, lt, List.mem_cons, List.not_mem_nil, or_false, eq, ge_iff_le, ule,
    val, Char.reduceToNat, UInt32.reduceToNat]
  generalize b.toNat = n
  by_cases small : n < 128
  · revert n
    decide
  · have high : ¬n ≤ 90 ∧ ¬n ≤ 122 ∧ ¬n ≤ 57 ∧ 126 < n := by omega
    simp only [high, decide_True, decide_False, Bool.or_true, Bool.and_false, Bool.or_false]
    rw [decide_eq_false (by omega)]
    rfl

theorem strdupEscapeShell_eq_spec (s : Bytes) : strdupEscapeShell s = specEscapeShell s := by
  unfold strdupEscapeShell specEscapeShell
  congr 1
  funext b
  rw [needsShellEscape_eq_not_shellSafe]
  cases shellSafe b <;> rfl

theorem dropEscapes_cons_of_ne {b : Char} (plain : b ≠ '\\') (rest : Bytes) :
    dropEscapes (b :: rest) = b :: dropEscapes rest := by
  cases rest <;> simp [dropEscapes, plain]

theorem dropEscapes_specEscapeShell : ∀ s : Bytes, dropEscapes (specEscapeShell s) = s
  | [] => rfl
  | b :: s => by
    have rest := dropEscapes_specEscapeShell s
    by_cases safe : shellSafe b = true
    · have plain : b ≠ '\\' := by
        rintro rfl
        exact absurd safe (by decide)
      rw [specEscapeShell, List.flatMap_cons, if_pos safe, List.singleton_append, ← specEscapeShell,
        dropEscapes_cons_of_ne plain, rest]
    · rw [specEscapeShell, List.flatMap_cons, if_neg safe, List.cons_append, List.singleton_append,
        ← specEscapeShell, dropEscapes, rest]

theorem specEscapeShell_injective : Function.Injective specEscapeShell := fun s t same => by
  rw [← dropEscapes_specEscapeShell s, same, dropEscapes_specEscapeShell]

/-- Dropping the escaping backslashes gives back the argument. -/
theorem dropEscapes_strdupEscapeShell (s : Bytes) : dropEscapes (strdupEscapeShell s) = s := by
  rw [strdupEscapeShell_eq_spec, dropEscapes_specEscapeShell]

theorem length_strdupEscapeShell_le : ∀ s : Bytes, (strdupEscapeShell s).length ≤ 2 * s.length
  | [] => Nat.zero_le _
  | b :: s => by
    have := length_strdupEscapeShell_le s
    rw [strdupEscapeShell_cons]
    split <;> simp <;> omega

theorem strdupEscapeShell_concat (p : Bytes) (b : Char) :
    strdupEscapeShell (p ++ [b]) =
      strdupEscapeShell p ++ if needsShellEscape b then ['\\', b] else [b] := by
  simp [strdupEscapeShell, List.flatMap_append]

theorem length_strdupEscapeShell_concat (p : Bytes) (b : Char) :
    (strdupEscapeShell p).length < (strdupEscapeShell (p ++ [b])).length ∧
      (strdupEscapeShell (p ++ [b])).length ≤ (strdupEscapeShell p).length + 2 := by
  rw [strdupEscapeShell_concat]
  split <;> simp

theorem nul_not_mem_strdupEscapeShell {s : Bytes} (nulFree : '\x00' ∉ s) :
    '\x00' ∉ strdupEscapeShell s := by
  intro mem
  obtain ⟨b, inS, inB⟩ := List.mem_flatMap.1 mem
  split at inB
  · rcases List.mem_pair.1 inB with nul | rfl
    · exact absurd nul (by decide)
    · exact nulFree inS
  · rw [List.mem_singleton.1 inB] at nulFree
    exact nulFree inS

theorem storeByte_after (E : Bytes) {rest : HeapBytes} (x : Char) (room : rest ≠ []) :
    storeByte (E.map some ++ rest) E.length x = some ((E ++ [x]).map some ++ rest.tail) := by
  obtain ⟨y, rest, rfl⟩ := List.exists_cons_of_ne_nil room
  rw [storeByte, if_pos (by simp), List.set_append_right _ _ (by simp)]
  simp

theorem gRealloc_of_le {r : HeapBytes} {n : Nat} (grows : r.length ≤ n) :
    gRealloc r n = r ++ List.replicate (n - r.length) none := by
  rw [gRealloc, List.take_of_length_le grows]

theorem readCString_written : ∀ {E : Bytes} (rest : HeapBytes), '\x00' ∉ E →
    readCString (E.map some ++ some '\x00' :: rest) = some E
  | [], rest, _ => by simp [readCString]
  | c :: E, rest, nul => by
    have ne : c ≠ '\x00' := fun h => nul (h ▸ List.mem_cons_self _ _)
    simp [readCString, ne, readCString_written rest fun h => nul (List.mem_cons_of_mem c h)]

/-- The block holds the bytes `E` from its start, `c` counts them, the block has `r_s`. -/
structure Written (E : Bytes) (st : EscapeState) : Prop where
  count : st.c = E.length
  stored : ∃ rest, st.r = E.map some ++ rest
  sized : st.r.length = st.rs

/-- The invariant at the head of the loop after the bytes `p` of an `n`-byte argument. -/
structure HeadInv (n : Nat) (p : Bytes) (st : EscapeState) : Prop where
  written : Written (strdupEscapeShell p) st
  room : st.c + 2 < st.rs
  bounded : st.rs ≤ max (n + 10) (4 * n + 4)

section Passes

variable {w : Nat}

theorem Written.store {st : EscapeState} {E : Bytes} (h : Written E st) (x : Char)
    (inside : E.length < st.rs) :
    ∃ rest, storeByte st.r st.c x = some ((E ++ [x]).map some ++ rest) ∧
      E.length + 1 + rest.length = st.rs := by
  obtain ⟨rest, stored⟩ := h.stored
  have size := h.sized
  rw [stored, List.length_append, List.length_map] at size
  obtain ⟨y, rest, rfl⟩ := List.exists_cons_of_ne_nil (List.ne_nil_of_length_pos (l := rest)
    (by omega))
  refine ⟨rest, ?_, by rw [List.length_cons] at size; omega⟩
  rw [stored, h.count]
  exact storeByte_after E x (List.cons_ne_nil y rest)

theorem putByte_written {st : EscapeState} {E : Bytes} (x : Char) (h : Written E st)
    (inside : E.length < st.rs) (noWrap : E.length + 1 < 2 ^ w) :
    ∃ st', putByte w st x = some st' ∧ Written (E ++ [x]) st' ∧ st'.rs = st.rs := by
  obtain ⟨rest, store, size⟩ := h.store x inside
  refine ⟨{ st with c := E.length + 1, r := (E ++ [x]).map some ++ rest }, ?_,
    ⟨by simp, ⟨rest, rfl⟩, by simp; omega⟩, rfl⟩
  rw [putByte, store, Option.map_some', h.count, Nat.mod_eq_of_lt noWrap]

theorem growIfFull_written {st : EscapeState} {E : Bytes} {n : Nat} (h : Written E st)
    (nonempty : E ≠ []) (inside : E.length < st.rs) (short : E.length ≤ 2 * n)
    (bounded : st.rs ≤ max (n + 10) (4 * n + 4)) (fits : max (n + 10) (4 * n + 4) < 2 ^ w) :
    Written E (growIfFull w st) ∧ E.length + 2 < (growIfFull w st).rs ∧
      (growIfFull w st).rs ≤ max (n + 10) (4 * n + 4) := by
  have pos : 0 < E.length := List.length_pos.2 nonempty
  rw [growIfFull, h.count, Nat.mod_eq_of_lt (by omega : E.length + 2 < 2 ^ w)]
  split_ifs with full
  · rw [Nat.mod_eq_of_lt (by omega : st.rs * 2 < 2 ^ w)]
    obtain ⟨rest, stored⟩ := h.stored
    have grown := gRealloc_of_le (n := st.rs * 2) (by rw [h.sized]; omega)
    refine ⟨⟨rfl, ⟨rest ++ List.replicate (st.rs * 2 - st.r.length) none, ?_⟩, ?_⟩,
      by simp only; omega, by simp only; omega⟩
    · rw [grown, stored, List.append_assoc]
    · simp only [grown, List.length_append, List.length_replicate, h.sized]
      omega
  · exact ⟨h, by omega, bounded⟩

theorem growIfFull_head {n : Nat} {p : Bytes} {b : Char} {st st' : EscapeState}
    (inv : HeadInv n p st) (more : p.length < n) (fits : max (n + 10) (4 * n + 4) < 2 ^ w)
    (h : Written (strdupEscapeShell (p ++ [b])) st') (same : st'.rs = st.rs) :
    HeadInv n (p ++ [b]) (growIfFull w st') := by
  have grew := length_strdupEscapeShell_concat p b
  have short := length_strdupEscapeShell_le (p ++ [b])
  have count := inv.written.count
  have room := inv.room
  have bounded := inv.bounded
  rw [List.length_append, List.length_singleton] at short
  obtain ⟨written, room', bounded'⟩ := growIfFull_written h
    (List.ne_nil_of_length_pos (by omega)) (by omega) (by omega) (by omega) fits
  exact ⟨written, by rw [written.count]; exact room', bounded'⟩

theorem escapeStep_head {n : Nat} {p : Bytes} {st : EscapeState} (b : Char)
    (inv : HeadInv n p st) (more : p.length < n) (fits : max (n + 10) (4 * n + 4) < 2 ^ w) :
    ∃ st', escapeStep w st b = some st' ∧ HeadInv n (p ++ [b]) st' := by
  have count := inv.written.count
  have room := inv.room
  have bounded := inv.bounded
  by_cases escaped : needsShellEscape b = true
  · have E : strdupEscapeShell (p ++ [b]) = strdupEscapeShell p ++ ['\\'] ++ [b] := by
      rw [strdupEscapeShell_concat, if_pos escaped, List.append_assoc]
      rfl
    obtain ⟨st₁, put₁, written₁, rs₁⟩ :=
      putByte_written (w := w) '\\' inv.written (by omega) (by omega)
    obtain ⟨st₂, put₂, written₂, rs₂⟩ :=
      putByte_written (w := w) b written₁ (by simp; omega) (by simp; omega)
    rw [← E] at written₂
    refine ⟨_, ?_, growIfFull_head inv more fits written₂ (rs₂.trans rs₁)⟩
    simp only [escapeStep, escaped, if_true, Option.bind_eq_bind, Option.some_bind, put₁, put₂,
      Option.pure_def]
  · have E : strdupEscapeShell (p ++ [b]) = strdupEscapeShell p ++ [b] := by
      rw [strdupEscapeShell_concat, if_neg escaped]
    obtain ⟨st₁, put₁, written₁, rs₁⟩ :=
      putByte_written (w := w) b inv.written (by omega) (by omega)
    rw [← E] at written₁
    refine ⟨_, ?_, growIfFull_head inv more fits written₁ rs₁⟩
    simp only [escapeStep, escaped, Bool.false_eq_true, if_false, Option.pure_def,
      Option.bind_eq_bind, Option.some_bind, put₁]

theorem escapeLoop_head {n : Nat} (fits : max (n + 10) (4 * n + 4) < 2 ^ w) :
    ∀ (q p : Bytes) (st : EscapeState), HeadInv n p st → p.length + q.length ≤ n →
      ∃ st', escapeLoop w st q = some st' ∧ HeadInv n (p ++ q) st'
  | [], p, st, inv, _ => ⟨st, rfl, by rwa [List.append_nil]⟩
  | b :: q, p, st, inv, len => by
    rw [List.length_cons] at len
    obtain ⟨st₁, step, inv₁⟩ := escapeStep_head b inv (by omega) fits
    obtain ⟨st₂, run, inv₂⟩ :=
      escapeLoop_head fits q (p ++ [b]) st₁ inv₁ (by rw [List.length_append]; simp; omega)
    refine ⟨st₂, by rw [escapeLoop, step]; exact run, ?_⟩
    rwa [List.append_assoc, List.singleton_append] at inv₂

theorem escapeInit_head {s : Bytes} (fits : max (s.length + 10) (4 * s.length + 4) < 2 ^ w) :
    HeadInv s.length [] (escapeInit w s) := by
  have rs : (s.length + 10) % 2 ^ w = s.length + 10 := Nat.mod_eq_of_lt (by omega)
  refine ⟨⟨rfl, ⟨gMalloc (s.length + 10), by simp [escapeInit, rs]⟩,
    by simp [escapeInit, gMalloc, rs]⟩, by simp [escapeInit, rs], ?_⟩
  simp only [escapeInit, rs]
  omega

end Passes

theorem fits_of_short {w n : Nat} (wide : 4 ≤ w) (short : n < (2 ^ w - 1) / 4) :
    max (n + 10) (4 * n + 4) < 2 ^ w := by
  have : 2 ^ 4 ≤ 2 ^ w := Nat.pow_le_pow_right (by decide) wide
  omega

/-- `strdup_escape_shell` stays in its block and returns the escaping of its argument. -/
theorem strdupEscapeShell_buffer (w : Nat) (wide : 4 ≤ w) (s : Bytes) (nulFree : '\x00' ∉ s)
    (short : s.length < (2 ^ w - 1) / 4) :
    (∀ k ≤ s.length, ∃ st, escapeLoop w (escapeInit w s) (s.take k) = some st ∧
        st.c + 2 < st.rs ∧ st.r.length = st.rs) ∧
      (∃ r, strdupEscapeShellBuffer w s = some r ∧ readCString r = some (specEscapeShell s)) ∧
      dropEscapes (specEscapeShell s) = s ∧ Function.Injective specEscapeShell := by
  have fits := fits_of_short wide short
  have init := escapeInit_head (w := w) fits
  refine ⟨fun k _ => ?_, ?_, dropEscapes_specEscapeShell s, specEscapeShell_injective⟩
  · obtain ⟨st, run, inv⟩ := escapeLoop_head fits (s.take k) [] _ init
      ((Nat.zero_add _).trans_le (List.length_take_le' k s))
    exact ⟨st, run, inv.room, inv.written.sized⟩
  · obtain ⟨st, run, inv⟩ := escapeLoop_head fits s [] _ init (Nat.zero_add _).le
    rw [List.nil_append] at inv
    obtain ⟨rest, store, -⟩ := inv.written.store '\x00' (by
      have := inv.room
      have := inv.written.count
      omega)
    refine ⟨_, by rw [strdupEscapeShellBuffer, run]; exact store, ?_⟩
    rw [List.map_append, List.map_singleton, List.append_assoc, List.singleton_append,
      readCString_written rest (nul_not_mem_strdupEscapeShell nulFree), strdupEscapeShell_eq_spec]

/-- The nine shell metacharacters `[*] <&>;|`, each escaped. -/
def shellMetachars : Bytes := ['[', '*', ']', ' ', '<', '&', '>', ';', '|']

theorem strdupEscapeShell_buffer_shellMetachars :
    (∀ k ≤ shellMetachars.length, ∃ st,
        escapeLoop 64 (escapeInit 64 shellMetachars) (shellMetachars.take k) = some st ∧
        st.c + 2 < st.rs ∧ st.r.length = st.rs) ∧
      (∃ r, strdupEscapeShellBuffer 64 shellMetachars = some r ∧
        readCString r = some (specEscapeShell shellMetachars)) ∧
      dropEscapes (specEscapeShell shellMetachars) = shellMetachars ∧
      Function.Injective specEscapeShell :=
  strdupEscapeShell_buffer 64 (by decide) shellMetachars (by decide) (by decide)

example : (strdupEscapeShellBuffer 64 shellMetachars).map List.length = some 38 := by decide

end PkgConfig
