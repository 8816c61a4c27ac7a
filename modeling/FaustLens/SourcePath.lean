import FaustLens.Faust

/-!
# Paths of Faust sources

Model of `is_faust_path` (`syntax::faust`), with `Path::extension` of the standard library.

A path is a Faust source if the name of its file has one of the extensions `Faust.extensions`,
capitals or not. Paths are bytes and need not be text. The name is the last component of a path,
where empty components and single dots do not count and a parent folder has no name. The extension
is what follows the last dot of a name, unless that dot begins the name.
-/

namespace FaustLens.SourcePath

/-- Split bytes at each slash. -/
def parts : List UInt8 → List (List UInt8)
  | [] => [[]]
  | b :: rest =>
    if b = 47 then [] :: parts rest
    else
      match parts rest with
      | [] => [[b]]
      | p :: ps => (b :: p) :: ps

/-- The name of the file that a path leads to. -/
def fileName? (path : List UInt8) : Option (List UInt8) :=
  match ((parts path).filter fun p => p != [] && p != [46]).getLast? with
  | some name => if name = [46, 46] then none else some name
  | none => none

/-- The extension of a file's name. -/
def extension? (name : List UInt8) : Option (List UInt8) :=
  match name.reverse.dropWhile (· != 46) with
  | [] => none
  | [_] => none
  | _ :: _ => some (name.reverse.takeWhile (· != 46)).reverse

/-- The small letter of an ASCII capital; any other byte stays. -/
def lowerByte (b : UInt8) : UInt8 := if 65 ≤ b && b ≤ 90 then b + 32 else b

/-- Whether a path looks like a Faust source or library. -/
def isSource (path : List UInt8) : Bool :=
  match (fileName? path).bind extension? with
  | some ext => Faust.extensions.any fun e => e.toUTF8.toList == ext.map lowerByte
  | none => false

end FaustLens.SourcePath
