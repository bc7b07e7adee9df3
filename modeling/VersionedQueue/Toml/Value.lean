import VersionedQueue.Toml.Moment
import VersionedQueue.Toml.Number
import VersionedQueue.Toml.Quoted
import VersionedQueue.Toml.Section

/-!
# Values and keys in TOML

A key is a path of names.  A value is a text, a number, a truth value, a moment, an array or an inline
table.  Arrays and inline tables nest up to a fixed depth.
-/

set_option autoImplicit false
set_option relaxedAutoImplicit false

namespace VersionedQueue.Toml

/-- How deep arrays, inline tables and the names of a key may nest. -/
def depthLimit : Nat := 128

def keyName : Scan String
  | '"' :: s => (basicBody s).map fun found => (String.ofList found.1, found.2)
  | '\'' :: s => (literalBody s).map fun found => (String.ofList found.1, found.2)
  | s =>
      match s.takeWhile isBare with
      | [] => none
      | name => some (String.ofList name, s.dropWhile isBare)

/-- Names separated by dots, with blanks around each.  The bound is the length of the text. -/
private def namesWithin : Nat → Scan (List String)
  | 0, _ => none
  | bound + 1, s => do
      let (name, s) ← keyName (skipBlanks s)
      match skipBlanks s with
      | '.' :: s =>
          let (names, s) ← namesWithin bound s
          return (name :: names, s)
      | s => return ([name], s)

/-- A key: the names on the way to a table, the name within it, and the text that is left. -/
def keyPath (s : List Char) : Option ((List String × String) × List Char) := do
  let (names, rest) ← namesWithin (s.length + 1) s
  if depthLimit ≤ names.length then none
  else return ((names.dropLast, ← names.getLast?), rest)

/-- The items of an array and its closing bracket.  The bound is the length of the text. -/
def arrayItems (value : Scan Document) : Nat → Scan (List Document)
  | 0, _ => none
  | bound + 1, s =>
      match skipLines false s with
      | ']' :: s => some ([], s)
      | s => do
          let (item, s) ← value s
          match skipLines false s with
          | ',' :: s =>
              let (items, s) ← arrayItems value bound s
              return (item :: items, s)
          | ']' :: s => return ([item], s)
          | _ => none

/-- A key and its value, with blanks around the value. -/
def keyValue (value : Scan Document) (s : List Char) :
    Option (((List String × String) × Document) × List Char) := do
  let (key, s) ← keyPath s
  let s ← expect ['='] s
  let (v, s) ← value (skipBlanks s)
  return ((key, v), skipBlanks s)

/-- The keys of an inline table after its first brace and its closing brace, put into the table as
far as it was read.  The bound is the length of the text. -/
def inlineFields (value : Scan Document) : Nat → Node → Scan Node
  | 0, _, _ => none
  | bound + 1, table, s => do
      let (((path, name), v), s) ← keyValue value s
      let table ← table.put path name v
      match s with
      | ',' :: s => inlineFields value bound table s
      | '\x7d' :: s => return (table, s)
      | _ => none

/-- The first scanner that does not refuse. -/
def either {α : Type} (first second : Scan α) : Scan α := fun s =>
  match first s with
  | some found => some found
  | none => second s

/-- A value that is neither an array nor an inline table. -/
def scalar (s : List Char) : Option (Document × List Char) :=
  match s with
  | '"' :: _ | '\'' :: _ => (quoted s).map fun found => (.text (String.ofList found.1), found.2)
  | 't' :: _ => (expect ['t', 'r', 'u', 'e'] s).map (Document.bool true, ·)
  | 'f' :: _ => (expect ['f', 'a', 'l', 's', 'e'] s).map (Document.bool false, ·)
  | 'i' :: _ | 'n' :: _ => named s
  | c :: _ =>
      if c.isDigit || c = '+' || c = '-' then either moment (either float integer) s else none
  | [] => none

/-- A value, with the given number of levels to nest. -/
def valueWithin : Nat → Scan Document
  | _, [] => none
  | 0, c :: s => if c = '[' ∨ c = '\x7b' then none else scalar (c :: s)
  | depth + 1, '[' :: s =>
      (arrayItems (valueWithin depth) (s.length + 1) s).map fun found => (.list found.1, found.2)
  | depth + 1, '\x7b' :: s =>
      match skipBlanks s with
      | '\x7d' :: s => some (.fields [], s)
      | _ =>
          (inlineFields (valueWithin depth) (s.length + 1) (.table .header []) s).map fun found =>
            (found.1.toDocument, found.2)
  | _ + 1, c :: s => scalar (c :: s)

def value : Scan Document := valueWithin (depthLimit - 1)

end VersionedQueue.Toml
