import FaustLens.Error
import FaustLens.Text.Basic

/-!
# Files

Stands for the file system behind `read_to_string` of the standard library, which reads a file and
decodes it.

A `Files` value is a folder with everything in it: files by their location, and folders. A path is
followed from this folder, component by component. What lies outside of it cannot be seen, except
that it consists of folders.

`Files.read` gives the bytes of the file at a path or the cause why there are none; `decode` turns
bytes into text.
-/

namespace FaustLens

/-- The text that some bytes encode in UTF-8. -/
def decode (bytes : ByteArray) : Except FileError Text :=
  match String.fromUTF8? bytes with
  | some s => .ok s.toList
  | none => .error .invalidText

/-- The components of a path, which slashes separate. -/
def pathParts (path : String) : List String := path.splitOn "/"

/-- The path of a name in a folder. -/
def joinPath (folder name : String) : String :=
  if folder.isEmpty || folder.toList.getLast? == some '/' then folder ++ name
  else folder ++ "/" ++ name

/-- What a folder holds at some location. -/
inductive Entry
  | file (bytes : ByteArray)
  | folder
deriving Inhabited

/-- A folder. Each entry has its location, the components of its path; the folders on the way to an
entry need no entry of their own. -/
structure Files where
  entries : List (List String × Entry)
deriving Inhabited

namespace Files

/-- What is at a location. -/
def find? (fs : Files) (location : List String) : Option Entry :=
  match fs.entries.find? (·.1 == location) with
  | some (_, e) => some e
  | none => if fs.entries.any (location.isPrefixOf ·.1) || location.isEmpty then some .folder else none

/-- A place that a path has led to: a location in the folder, the last component first, or a folder
around it. -/
inductive Place
  | inside (location : List String)
  | outside
deriving DecidableEq, Repr, Inhabited

/-- What is at a place. -/
def entryAt? (fs : Files) : Place → Option Entry
  | .inside location => fs.find? location.reverse
  | .outside => some .folder

/-- The greatest length of a component in bytes. -/
def maxNameLength : Nat := 255

/-- The greatest length of a path in bytes. -/
def maxPathLength : Nat := 4095

/-- Go to a component in a folder. -/
def enter (fs : Files) (name : String) : Place → Except FileError Place
  | .outside => if name.isEmpty || name == "." || name == ".." then .ok .outside else .error .notFound
  | .inside location =>
    if name.isEmpty || name == "." then .ok (.inside location)
    else if name == ".." then
      match location with
      | [] => .ok .outside
      | _ :: above => .ok (.inside above)
    else if maxNameLength < name.utf8ByteSize then .error .nameTooLong
    else
      match fs.find? (name :: location).reverse with
      | some _ => .ok (.inside (name :: location))
      | none => .error .notFound

/-- Follow the components of a path; all but the last must lead to folders. -/
def follow (fs : Files) : Place → List String → Except FileError Place
  | place, [] => .ok place
  | place, name :: rest =>
    match fs.entryAt? place with
    | some .folder => (fs.enter name place).bind fun place => follow fs place rest
    | _ => .error .notDirectory

/-- The place that a path leads to. -/
def resolve (fs : Files) (path : String) : Except FileError Place :=
  if path.toList.contains '\x00' then .error .nulInPath
  else if path.isEmpty then .error .notFound
  else if maxPathLength < path.utf8ByteSize then .error .nameTooLong
  else fs.follow (if path.startsWith "/" then .outside else .inside []) (pathParts path)

/-- The bytes of the file at a path. -/
def read (fs : Files) (path : String) : Except FileError ByteArray :=
  (fs.resolve path).bind fun place =>
    match fs.entryAt? place with
    | some (.file bytes) => .ok bytes
    | some .folder => .error .isDirectory
    | none => .error .notFound

end Files

end FaustLens
