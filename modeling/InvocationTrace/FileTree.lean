import InvocationTrace.Fault
import InvocationTrace.Text.Lines

/-!
# File trees

A directory with the files below it, and the reading of a file by a path relative to it. A path is
followed name by name, so the first name at which it fails decides how it fails.
-/

namespace InvocationTrace

/-- Files by their names from the directory on. A directory below exists if a file lies in it. -/
structure FileTree where
  files : List (List String × List UInt8)

namespace FileTree

/-- The names on a path; the empty ones stand for no step. -/
def names (path : String) : List String := (Text.splitAt '/' path.toList).map String.ofList

def ofList (files : List (String × List UInt8)) : FileTree where
  files := files.map fun (path, content) =>
    ((names path).filter fun name => name != "" && name != ".", content)

def hasDirectory (tree : FileTree) (place : List String) : Bool :=
  place.isEmpty || tree.files.any fun file =>
    place.isPrefixOf file.1 && place.length < file.1.length

/-- What a path leads to, or why it leads nowhere; a missing name has no further reason. -/
inductive Found where
  | file (content : List UInt8)
  | directory
  | missing
  | failed (failure : ReadFailure)

/-- Follows names from a directory: one of the tree, or one outside of which nothing is known but
that it is a directory. -/
def follow (tree : FileTree) (place : Option (List String)) : List String → Found
  | [] => .directory
  | name :: rest =>
      if name = "" ∨ name = "." then tree.follow place rest
      else if name = ".." then
        match place with
        | none | some [] => tree.follow none rest
        | some names => tree.follow (some names.dropLast) rest
      else if 255 < name.utf8ByteSize then .failed .nameTooLong
      else
        match place with
        | none => .missing
        | some names =>
            let place := names ++ [name]
            match tree.files.lookup place with
            | some content => if rest.isEmpty then .file content else .failed .notDirectory
            | none => if tree.hasDirectory place then tree.follow (some place) rest else .missing

/-- The longest path, in bytes. -/
def maxPathLength : Nat := 4095

def find (tree : FileTree) (path : String) : Found :=
  if path.toList.contains '\x00' then .failed .nulInName
  else if path = "" then .missing
  else if maxPathLength < path.utf8ByteSize then .failed .nameTooLong
  else if path.toList.head? = some '/' then tree.follow none (names path)
  else tree.follow (some []) (names path)

def read (tree : FileTree) (path : String) : Except Fault (List UInt8) :=
  match tree.find path with
  | .file content => .ok content
  | .directory => .error (.unreadable path .isDirectory)
  | .missing => .error (.traceFileNotFound path)
  | .failed failure => .error (.unreadable path failure)

end FileTree

end InvocationTrace
