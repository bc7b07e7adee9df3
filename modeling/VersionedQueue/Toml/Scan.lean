/-!
# Scanning TOML

A scanner takes a value off the front of a text and answers the text that is left, or refuses.  This
module has the characters of the grammar and the parts that carry no value: blanks, line ends and
comments.
-/

set_option autoImplicit false
set_option relaxedAutoImplicit false

namespace VersionedQueue.Toml

/-- A scanner for values of one kind. -/
abbrev Scan (α : Type) := List Char → Option (α × List Char)

def isBlank (c : Char) : Bool := c = ' ' || c = '\t'

/-- A character beyond ASCII, which texts and comments may hold as it is. -/
def isWide (c : Char) : Bool := 0x80 ≤ c.toNat

def isPrintable (c : Char) : Bool := 0x20 ≤ c.toNat && c.toNat ≤ 0x7e

def isComment (c : Char) : Bool := c = '\t' || isPrintable c || isWide c

/-- A character of a quoted text with escapes. -/
def isEscapable (c : Char) : Bool := isComment c && c != '"' && c != '\\'

/-- A character of a quoted text without escapes. -/
def isLiteral (c : Char) : Bool := isComment c && c != '\''

/-- A character of a key that is not quoted. -/
def isBare (c : Char) : Bool := c.isAlphanum || c = '-' || c = '_'

def isHex (c : Char) : Bool :=
  c.isDigit || ('a' ≤ c && c ≤ 'f') || ('A' ≤ c && c ≤ 'F')

/-- The value of a digit in any base up to sixteen. -/
def digitValue (c : Char) : Nat :=
  if c.isDigit then c.toNat - '0'.toNat
  else if 'a' ≤ c ∧ c ≤ 'f' then c.toNat - 'a'.toNat + 10
  else c.toNat - 'A'.toNat + 10

/-- The number that digits spell in a base. -/
def spelled (base : Nat) (digits : List Char) : Nat :=
  digits.foldl (fun n c => n * base + digitValue c) 0

def skipBlanks (s : List Char) : List Char := s.dropWhile isBlank

/-- Take a fixed text off the front. -/
def expect : List Char → List Char → Option (List Char)
  | [], s => some s
  | c :: word, d :: s => if c = d then expect word s else none
  | _ :: _, [] => none

/-- Take the end of a line off the front. -/
def newline : List Char → Option (List Char)
  | '\n' :: s => some s
  | '\r' :: '\n' :: s => some s
  | _ => none

/-- Take the end of a line or of the text off the front. -/
def lineEnd : List Char → Option (List Char)
  | [] => some []
  | s => newline s

/-- Take a comment off the front, if there is one. -/
def skipComment : List Char → List Char
  | '#' :: s => s.dropWhile isComment
  | s => s

/-- Take what may follow an expression on its line off the front: blanks, a comment, the line end. -/
def restOfLine (s : List Char) : Option (List Char) := lineEnd (skipComment (skipBlanks s))

/-- Drop blanks, comments and line ends at the front, given whether a comment is open. -/
def skipLines : Bool → List Char → List Char
  | _, '\n' :: s => skipLines false s
  | _, '\r' :: '\n' :: s => skipLines false s
  | false, '#' :: s => skipLines true s
  | false, c :: s => if isBlank c then skipLines false s else c :: s
  | true, c :: s => if isComment c then skipLines true s else c :: s
  | _, [] => []

end VersionedQueue.Toml
