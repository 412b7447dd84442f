import OnionTunnel.Message.Error
import OnionTunnel.Table

/-!
# Directories and paths

A command works in a directory that holds files and no other directories. A path is followed part
by part, and every part but the last has to lead to a directory. Of what lies outside the directory
nothing is known, and no file is found there.
-/

namespace OnionTunnel.CommandLine

/-- The files of a directory that holds no other directories. -/
abbrev Directory := Table String Bytes

/-- Where a path leads. -/
inductive Place where
  | directory
  /-- A name in the directory, which a file may have or not. -/
  | file (name : String)
  /-- A name in another directory. -/
  | outside
  deriving DecidableEq, Repr

namespace Directory

/-- The bytes that the name of a file may have. -/
def maxName : Nat := 255

/-- The bytes that a path may have. -/
def maxPath : Nat := 4095

/-- Follows the parts of a path, from the directory or from outside. An empty part stays where it
is, so that a slash at the end asks for a directory. -/
def follow (d : Directory) (inside : Bool) : List String → Except SystemFault Place
  | [] => .ok .directory
  | part :: rest =>
    if part = "" ∨ part = "." then d.follow inside rest
    else if part = ".." then d.follow false rest
    else if maxName < part.utf8ByteSize then .error .nameTooLong
    else if rest = [] then .ok (if inside then .file part else .outside)
    else if inside ∧ (d.get? part).isSome then .error .notDirectory
    else .error .notFound

/-- Where a path leads. -/
def locate (d : Directory) (path : String) : Except SystemFault Place :=
  if path = "" then .error .notFound
  else if maxPath < path.utf8ByteSize then .error .nameTooLong
  else d.follow (path.toList.head? ≠ some '/') (path.splitOn "/")

/-- The content of the file at a path. -/
def read (d : Directory) (path : String) : Except SystemFault Bytes := do
  match ← d.locate path with
  | .directory => throw .isDirectory
  | .outside => throw .notFound
  | .file name =>
    match d.get? name with
    | some content => return content
    | none => throw .notFound

/-- The directory with a file at a path. -/
def write (d : Directory) (path : String) (content : Bytes) : Except SystemFault Directory := do
  match ← d.locate path with
  | .directory => throw .isDirectory
  | .outside => throw .notFound
  | .file name => return d.insert name content

end Directory

end OnionTunnel.CommandLine
