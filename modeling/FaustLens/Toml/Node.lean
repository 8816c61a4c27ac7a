import FaustLens.Toml.Value

/-!
# Building tables

Stands for the library `toml` 0.8 as far as it decides what a header or a key may add to a table.

While a document is read, a table remembers how it came about: by a header of its own, only as a
part of longer headers, or by dotted keys. That decides what may still be added to it. A `Node` is
a value, such a table, or the list of tables under a header in double brackets.

`Node.insertAt?` adds a value under a dotted key. `Node.openTable?` and `Node.closeTable?` take a
table out for the lines below its header and put it back; `Node.openTables?` and `Node.appendTable?`
do the same for headers in double brackets.
-/

namespace FaustLens.Toml

/-- How a table came about. -/
inductive Origin
  /-- By its own header, or as the root. -/
  | header
  /-- As a part of longer headers. -/
  | implied
  /-- By dotted keys. -/
  | dotted
deriving DecidableEq, Repr, Inhabited

/-- A part of a document that is being read. -/
inductive Node
  /-- A finished value. -/
  | value (v : Toml)
  | table (origin : Origin) (entries : List (String × Node))
  /-- The tables under one header in double brackets, the newest first. -/
  | tables (elements : List (List (String × Node)))
deriving Inhabited

namespace Node

/-- The entries of a table that is being read. -/
abbrev Entries := List (String × Node)

/-- Replace the entry of a key, or add it at the end. -/
def put (key : String) (n : Node) : Entries → Entries
  | [] => [(key, n)]
  | (k, m) :: rest => if k = key then (k, n) :: rest else (k, m) :: put key n rest

/-- Remove the entry of a key. -/
def remove (key : String) (es : Entries) : Entries := es.filter (·.1 != key)

/-- Change the table that a path of keys leads to, and return a result besides. Missing tables on
the path are made with the origin `fresh`. A path may lead through a table of dotted keys or of
longer headers; it may lead through a table with a header only if `fresh` is not for dotted keys. It
leads into the last of the tables under a header in double brackets. `f` also gets the origin of the
table, which is `origin` for the empty path. -/
def modifyAt? {α : Type} (fresh : Origin) (f : Origin → Entries → Option (α × Entries)) :
    Origin → List String → Entries → Option (α × Entries)
  | origin, [], es => f origin es
  | _, key :: path, es =>
    match es.lookup key with
    | none => (modifyAt? fresh f fresh path []).map fun (a, sub) => (a, put key (table fresh sub) es)
    | some (value _) => none
    | some (table origin sub) =>
      if fresh = .dotted ∧ origin = .header then none
      else
        (modifyAt? fresh f origin path sub).map fun (a, sub) => (a, put key (table origin sub) es)
    | some (tables []) => none
    | some (tables (last :: others)) =>
      (modifyAt? fresh f .header path last).map fun (a, sub) =>
        (a, put key (tables (sub :: others)) es)

/-- Add a value under a dotted key to a table. The key must be new, and the table that its first
parts lead to must be one of dotted keys. -/
def insertAt? (path : List String) (key : String) (v : Toml) (es : Entries) : Option Entries :=
  (modifyAt? .dotted
    (fun origin es =>
      if (origin = .dotted ∧ path = []) ∨ (origin ≠ .dotted ∧ path ≠ []) then none
      else if (es.lookup key).isSome then none
      else some ((), put key (value v) es))
    .header path es).map (·.2)

/-- Take out the table that a header opens, which must be new or known from longer headers only. The
result is the table and what remains. -/
def openTable? (path : List String) (key : String) (root : Entries) : Option (Entries × Entries) :=
  modifyAt? .implied
    (fun _ es =>
      match es.lookup key with
      | none => some ([], es)
      | some (table .implied sub) => some (sub, remove key es)
      | some _ => none)
    .header path root

/-- Put back the table that a header opened. -/
def closeTable? (path : List String) (key : String) (current root : Entries) : Option Entries :=
  (modifyAt? .implied (fun _ es => some ((), put key (table .header current) es))
    .header path root).map (·.2)

/-- Prepare for a further table under a header in double brackets: the header's key must be new or
belong to such tables. -/
def openTables? (path : List String) (key : String) (root : Entries) : Option Entries :=
  (modifyAt? .implied
    (fun _ es =>
      match es.lookup key with
      | none => some ((), es)
      | some (tables _) => some ((), es)
      | some _ => none)
    .header path root).map (·.2)

/-- Add a table under a header in double brackets. -/
def appendTable? (path : List String) (key : String) (current root : Entries) : Option Entries :=
  (modifyAt? .implied
    (fun _ es =>
      match es.lookup key with
      | none => some ((), put key (tables [current]) es)
      | some (tables elements) => some ((), put key (tables (current :: elements)) es)
      | some _ => none)
    .header path root).map (·.2)

/-! ## Finished values -/

mutual

/-- The value that a node stands for. -/
def toValue : Node → Toml
  | value v => v
  | table _ es => .table (entriesToTable es)
  | tables elements => .array (tablesToValues elements).reverse

/-- The table that some entries stand for. -/
def entriesToTable : Entries → Table
  | [] => []
  | (k, n) :: rest => insertEntry k n.toValue (entriesToTable rest)

/-- The tables that some lists of entries stand for. -/
def tablesToValues : List Entries → List Toml
  | [] => []
  | es :: rest => .table (entriesToTable es) :: tablesToValues rest

end

end Node

end FaustLens.Toml
