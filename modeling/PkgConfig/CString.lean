import Mathlib.Data.List.Infix

/-! C strings and the C library and GLib calls that the parser and the registry make.
A NUL-terminated string is the list of its bytes before the NUL, so reading at the end
of the list is reading the terminator. Character classes are those of the C locale;
paths use the Unix separator. -/

namespace PkgConfig

/-- The bytes of a string or a buffer. -/
abbrev Bytes := List Char

/-- The C string a buffer holds: its bytes before the first NUL. -/
def cString (buf : Bytes) : Bytes := buf.takeWhile (· ≠ '\x00')

theorem cString_eq_self {buf : Bytes} (noNul : '\x00' ∉ buf) : cString buf = buf :=
  List.takeWhile_eq_self_iff.2 fun c mem => by
    simpa using fun nul : c = '\x00' => noNul (nul ▸ mem)

/-- `isspace` in the C locale. -/
def isspace (c : Char) : Bool :=
  c = ' ' || c = '\t' || c = '\n' || c = '\x0b' || c = '\x0c' || c = '\r'

/-- `strcmp`: the difference of the first differing bytes, read as unsigned. -/
def strcmp : Bytes → Bytes → Int
  | [], [] => 0
  | [], d :: _ => -d.toNat
  | c :: _, [] => c.toNat
  | c :: cs, d :: ds => if c = d then strcmp cs ds else c.toNat - d.toNat

/-- `trim_string`: the string without leading and trailing whitespace. -/
def trimString (s : Bytes) : Bytes :=
  ((s.dropWhile isspace).reverse.dropWhile isspace).reverse

theorem dropWhile_eq_self {p : Char → Bool} : ∀ {l : Bytes}, (∀ c ∈ l.head?, p c = false) →
    l.dropWhile p = l
  | [], _ => rfl
  | c :: _, stop => List.dropWhile_cons_of_neg (by simp [stop c rfl])

theorem takeWhile_eq_nil {p : Char → Bool} : ∀ {l : Bytes}, (∀ c ∈ l.head?, p c = false) →
    l.takeWhile p = []
  | [], _ => rfl
  | c :: _, stop => List.takeWhile_cons_of_neg (by simp [stop c rfl])

/-- A `GHashTable` keyed by strings, newest binding first. -/
abbrev Table (α : Type) := List (Bytes × α)

/-- `g_hash_table_lookup`. -/
def Table.lookup {α : Type} : Table α → Bytes → Option α
  | [], _ => none
  | (k, v) :: t, key => if k = key then some v else Table.lookup t key

/-- `g_hash_table_insert`: the new value replaces any earlier one for the key. -/
def Table.insert {α : Type} (t : Table α) (key : Bytes) (v : α) : Table α := (key, v) :: t

@[simp] theorem Table.lookup_nil {α : Type} (key : Bytes) :
    Table.lookup ([] : Table α) key = none := rfl

@[simp] theorem Table.lookup_insert {α : Type} (t : Table α) (key : Bytes) (v : α) :
    (t.insert key v).lookup key = some v := by
  simp [Table.insert, Table.lookup]

theorem Table.lookup_insert_of_ne {α : Type} (t : Table α) {key other : Bytes} (v : α)
    (ne : key ≠ other) : (t.insert key v).lookup other = t.lookup other := by
  simp [Table.insert, Table.lookup, ne]

theorem Table.lookup_insert_eq {α : Type} (t : Table α) (key other : Bytes) (v : α) :
    (t.insert key v).lookup other = if key = other then some v else t.lookup other := rfl

/-- `strstr (haystack, needle) != NULL`. -/
def strstr (haystack needle : Bytes) : Bool := decide (needle <:+: haystack)

/-- `g_path_get_dirname`: up to the last separator run, keeping a leading one; `.` if none. -/
def gPathGetDirname (file : Bytes) : Bytes :=
  if '/' ∈ file then
    let upToLast := (file.reverse.dropWhile (· ≠ '/')).reverse
    match (upToLast.reverse.dropWhile (· = '/')).reverse with
    | [] => ['/']
    | dir => dir
  else ['.']

/-- `g_path_get_basename`: the last component, ignoring trailing separators. -/
def gPathGetBasename (file : Bytes) : Bytes :=
  if file = [] then ['.'] else
    match file.reverse.dropWhile (· = '/') with
    | [] => ['/']
    | rest => (rest.takeWhile (· ≠ '/')).reverse

/-- `g_ascii_strcasecmp (a, b) == 0`. -/
def gAsciiStrcaseeq (a b : Bytes) : Bool := a.map Char.toLower = b.map Char.toLower

end PkgConfig
