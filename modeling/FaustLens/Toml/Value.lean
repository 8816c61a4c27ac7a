import FaustLens.Number.Shortest

/-!
# TOML values

Stands for `Value` and `Table` of the library `toml` 0.8.

A TOML value is a scalar, an array or a table. Tables keep their entries in increasing order of
their keys; `Toml.insertEntry` keeps the order. A date or time is kept as its normalised text.

Results:
* `string?_eq_some_iff`, `boolean?_eq_some_iff`, `table?_eq_some_iff`: what each reading succeeds on.
* `mem_insertEntry`: inserting adds an entry and loses none.
-/

namespace FaustLens

/-- A TOML value. -/
inductive Toml
  | string (s : String)
  | integer (n : Int)
  | float (d : Double)
  | boolean (b : Bool)
  /-- A date, a time or both, as text. -/
  | datetime (text : String)
  | array (elements : List Toml)
  /-- A table, in increasing order of the keys. -/
  | table (entries : List (String × Toml))
deriving Repr, Inhabited

namespace Toml

/-- A table's entries, in increasing order of the keys. -/
abbrev Table := List (String × Toml)

/-- Insert an entry into a table that does not have its key. -/
def insertEntry (key : String) (value : Toml) : Table → Table
  | [] => [(key, value)]
  | (k, v) :: rest =>
    if key < k then (key, value) :: (k, v) :: rest else (k, v) :: insertEntry key value rest

/-- The value of a key. -/
def get? (t : Table) (key : String) : Option Toml := t.lookup key

/-- The string that the value is, if it is one. -/
def string? : Toml → Option String
  | string s => some s
  | _ => none

/-- The truth value that the value is, if it is one. -/
def boolean? : Toml → Option Bool
  | boolean b => some b
  | _ => none

/-- The table that the value is, if it is one. -/
def table? : Toml → Option Table
  | table t => some t
  | _ => none

/-- The elements of the array that the value is, if it is one. -/
def array? : Toml → Option (List Toml)
  | array elements => some elements
  | _ => none

theorem string?_eq_some_iff {v : Toml} {s : String} : v.string? = some s ↔ v = .string s := by
  cases v <;> simp [string?]

theorem boolean?_eq_some_iff {v : Toml} {b : Bool} : v.boolean? = some b ↔ v = .boolean b := by
  cases v <;> simp [boolean?]

theorem table?_eq_some_iff {v : Toml} {t : Table} : v.table? = some t ↔ v = .table t := by
  cases v <;> simp [table?]

theorem mem_insertEntry {key : String} {value : Toml} {t : Table} {e : String × Toml} :
    e ∈ insertEntry key value t ↔ e = (key, value) ∨ e ∈ t := by
  induction t with
  | nil => simp [insertEntry]
  | cons first rest ih =>
    rw [insertEntry]
    split
    · simp
    · rw [List.mem_cons, ih, List.mem_cons, or_left_comm]

end Toml

end FaustLens
