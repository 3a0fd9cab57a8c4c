import Reckoner.CommandLine.Basic

/-! # Disks in memory

A disk in memory stands for the real one when the program is run as a function.  A path is followed
name by name, from the root if it starts with a slash and from the working folder otherwise.  The
names `.` and `..` stand for the folder itself and the one around it; an empty name, as a slash at
the end leaves one, stands for the folder itself too.
-/
namespace Reckoner.CommandLine

/-- Files, each with the names that lead to it from the root, and the folder that paths start in. -/
structure Disk where
  files : List (List String × ByteArray)
  workingFolder : List String

namespace Disk

inductive Place where
  | file (content : ByteArray)
  | folder (names : List String)

def longestName : Nat := 255

def longestPath : Nat := 4095

def hasFolder (d : Disk) (names : List String) : Bool :=
  (d.workingFolder :: d.files.map (·.1.dropLast)).any names.isPrefixOf

def place? (d : Disk) (names : List String) : Option Place :=
  match d.files.lookup names with
  | some content => some (.file content)
  | none => if d.hasFolder names then some (.folder names) else none

def enter (d : Disk) (place : Place) (name : String) : Except ReadError Place :=
  match place with
  | .file _ => .error .notDirectory
  | .folder names =>
    if name = "" ∨ name = "." then .ok (.folder names)
    else if name = ".." then .ok (.folder names.dropLast)
    else if name.utf8ByteSize > longestName then .error .nameTooLong
    else (d.place? (names ++ [name])).elim (.error .missing) .ok

def follow (d : Disk) (place : Place) (names : List String) : Except ReadError Place :=
  names.foldlM d.enter place

def start (d : Disk) (path : String) : Place :=
  .folder (if path.startsWith "/" then [] else d.workingFolder)

def read (d : Disk) (path : String) : Except ReadError ByteArray := do
  if path.isEmpty then throw .missing
  if path.utf8ByteSize > longestPath then throw .nameTooLong
  match ← d.follow (d.start path) (path.splitOn "/") with
  | .file content => return content
  | .folder _ => throw .isDirectory

/-- A disk whose working folder holds files under the given paths. -/
def ofFiles (workingFolder : List String) (files : List (String × ByteArray)) : Disk :=
  let names (path : String) := (path.splitOn "/").filter fun n => n ≠ "" ∧ n ≠ "."
  ⟨files.map fun (path, content) => (workingFolder ++ names path, content), workingFolder⟩

def withFile (d : Disk) (names : List String) (content : ByteArray) : Disk :=
  { d with files := (names, content) :: d.files }

theorem follow_append (d : Disk) (place : Place) (first second : List String) :
    d.follow place (first ++ second) = (d.follow place first).bind (d.follow · second) := by
  simp only [follow, List.foldlM_append]
  rfl

/-- The folder itself can be named before anything else. -/
theorem follow_dot (d : Disk) (folder names : List String) :
    d.follow (.folder folder) ("." :: names) = d.follow (.folder folder) names := by
  rw [follow, List.foldlM_cons, enter, if_pos (.inr rfl)]
  rfl

end Disk

end Reckoner.CommandLine
