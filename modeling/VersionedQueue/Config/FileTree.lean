import VersionedQueue.Bytes
import VersionedQueue.Error

/-!
# Files and their paths

A tree of directories and files, and what is found at a path in it.  A path is walked step by step, and
the first step that cannot be taken decides why the file cannot be read.
-/

set_option autoImplicit false
set_option relaxedAutoImplicit false

namespace VersionedQueue

/-- A file, or a directory with its entries by name. -/
inductive FileTree
  | file (content : Bytes)
  | directory (entries : List (String × FileTree))

namespace FileTree

/-- The longest name of an entry, in bytes. -/
def maxNameSize : Nat := 255

/-- The longest path, in bytes. -/
def maxPathSize : Nat := 4095

/-- Walk from a place, below the directories given nearest first.  An empty step and a single dot stay,
and two dots go up, as far as there is a directory above; but no step leads on from a file. -/
def walk : FileTree → List FileTree → List String → Except ReadFailure FileTree
  | here, _, [] => .ok here
  | file _, _, _ :: _ => .error .notDirectory
  | directory entries, above, step :: steps =>
      if step = "" ∨ step = "." then walk (directory entries) above steps
      else if step = ".." then
        match above with
        | [] => walk (directory entries) [] steps
        | parent :: higher => walk parent higher steps
      else if maxNameSize < step.utf8ByteSize then .error .nameTooLong
      else
        match entries.lookup step with
        | none => .error .notFound
        | some child => walk child (directory entries :: above) steps

/-- The steps of a path.  A path that does not begin with a slash starts at the working directory. -/
def steps (workingDirectory : List String) (path : String) : List String :=
  if path.startsWith "/" then path.splitOn "/" else workingDirectory ++ path.splitOn "/"

def find (root : FileTree) (workingDirectory : List String) (path : String) :
    Except ReadFailure FileTree :=
  if path.contains '\x00' then .error .badPath
  else if path.isEmpty then .error .notFound
  else if maxPathSize < path.utf8ByteSize then .error .nameTooLong
  else root.walk [] (steps workingDirectory path)

def text : FileTree → Except ReadFailure String
  | directory _ => .error .isDirectory
  | file content =>
      match String.fromUTF8? ⟨content.toArray⟩ with
      | some text => .ok text
      | none => .error .notText

end FileTree

end VersionedQueue
