import VersionedQueue.Toml.Value

/-!
# Reading a TOML document

A document is a sequence of lines: headers, which say where the keys after them go, keys with their
values, comments and blank lines.
-/

set_option autoImplicit false
set_option relaxedAutoImplicit false

namespace VersionedQueue.Toml

/-- A document as far as it was read: the tree of its tables, and the path of the open one. -/
structure Draft where
  root : Node := .table .header []
  openPath : List String := []

namespace Draft

/-- Put the value of a key into the open table. -/
def define (d : Draft) (path : List String) (name : String) (value : Document) : Option Draft := do
  let root ← d.root.descend false (Node.put path name value) d.openPath
  return { d with root }

end Draft

/-- A header, after its first bracket. -/
def header (d : Draft) : List Char → Option (Draft × List Char)
  | '[' :: s => do
      let ((path, name), s) ← keyPath s
      let s ← expect [']', ']'] s
      let rest ← restOfLine s
      let root ← d.root.descend false (Node.openElement name) path
      return (⟨root, path ++ [name]⟩, rest)
  | s => do
      let ((path, name), s) ← keyPath s
      let s ← expect [']'] s
      let rest ← restOfLine s
      let root ← d.root.descend false (Node.openTable name) path
      return (⟨root, path ++ [name]⟩, rest)

/-- A key with its value, to the end of the line. -/
def keyLine (d : Draft) (s : List Char) : Option (Draft × List Char) := do
  let (((path, name), v), s) ← keyValue value s
  let rest ← restOfLine s
  let d ← d.define path name v
  return (d, rest)

/-- The lines of a document.  The bound is the length of the text. -/
private def linesWithin : Nat → Draft → List Char → Option Draft
  | 0, _, _ => none
  | bound + 1, d, s =>
      match skipBlanks s with
      | [] => some d
      | '[' :: s => (header d s).bind fun next => linesWithin bound next.1 next.2
      | '#' :: s => (restOfLine ('#' :: s)).bind fun rest => linesWithin bound d rest
      | '\n' :: s => linesWithin bound d s
      | '\r' :: s => (newline ('\r' :: s)).bind fun rest => linesWithin bound d rest
      | s => (keyLine d s).bind fun next => linesWithin bound next.1 next.2

/-- A byte order mark may stand in front of a document. -/
def skipByteOrderMark : List Char → List Char
  | '\uFEFF' :: s => s
  | s => s

/-- The document that a text holds, if it is well formed. -/
def parse (text : String) : Option Document :=
  let s := skipByteOrderMark text.toList
  (linesWithin (s.length + 1) {} s).map fun d => d.root.toDocument

end VersionedQueue.Toml
