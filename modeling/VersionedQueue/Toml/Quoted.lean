import VersionedQueue.Toml.Scan

/-!
# Quoted texts in TOML

A text stands between quotes on one line, or between triple quotes on several.  Double quotes allow
escapes, single quotes do not.
-/

set_option autoImplicit false
set_option relaxedAutoImplicit false

namespace VersionedQueue.Toml

/-- The character with a number in hexadecimal digits, if there is one. -/
def codePoint (digits : List Char) : Option Char :=
  let n := spelled 16 digits
  if digits.all isHex && decide n.isValidChar then some (Char.ofNat n) else none

def prepend (c : Char) : Option (List Char × List Char) → Option (List Char × List Char)
  | some (text, rest) => some (c :: text, rest)
  | none => none

/-- The rest of a text in double quotes. -/
def basicBody : Scan (List Char)
  | '"' :: s => some ([], s)
  | '\\' :: 'b' :: s => prepend '\x08' (basicBody s)
  | '\\' :: 't' :: s => prepend '\t' (basicBody s)
  | '\\' :: 'n' :: s => prepend '\n' (basicBody s)
  | '\\' :: 'f' :: s => prepend '\x0c' (basicBody s)
  | '\\' :: 'r' :: s => prepend '\r' (basicBody s)
  | '\\' :: '"' :: s => prepend '"' (basicBody s)
  | '\\' :: '\\' :: s => prepend '\\' (basicBody s)
  | '\\' :: 'u' :: a :: b :: c :: d :: s =>
      (codePoint [a, b, c, d]).bind fun x => prepend x (basicBody s)
  | '\\' :: 'U' :: a :: b :: c :: d :: e :: f :: g :: h :: s =>
      (codePoint [a, b, c, d, e, f, g, h]).bind fun x => prepend x (basicBody s)
  | c :: s => if isEscapable c then prepend c (basicBody s) else none
  | [] => none

/-- The rest of a text in single quotes. -/
def literalBody : Scan (List Char)
  | '\'' :: s => some ([], s)
  | c :: s => if isLiteral c then prepend c (literalBody s) else none
  | [] => none

/-- Where a reader of a text on several lines stands. -/
inductive LineMode
  /-- Within the text. -/
  | text
  /-- After a backslash and blanks, with the line end still to come. -/
  | joining
  /-- After a joined line end, where blanks and further line ends are dropped. -/
  | joined
  deriving DecidableEq, Repr

/-- The rest of a text in triple double quotes.  One or two quotes may stand within the text and
before its end, and a backslash at the end of a line joins it with the next text. -/
def multilineBasicBody : LineMode → Scan (List Char)
  | .joining, '\n' :: s => multilineBasicBody .joined s
  | .joining, '\r' :: '\n' :: s => multilineBasicBody .joined s
  | .joining, c :: s => if isBlank c then multilineBasicBody .joining s else none
  | .joined, '\n' :: s => multilineBasicBody .joined s
  | .joined, '\r' :: '\n' :: s => multilineBasicBody .joined s
  | .joined, ' ' :: s => multilineBasicBody .joined s
  | .joined, '\t' :: s => multilineBasicBody .joined s
  | _, '"' :: '"' :: '"' :: '"' :: '"' :: s => some (['"', '"'], s)
  | _, '"' :: '"' :: '"' :: '"' :: s => some (['"'], s)
  | _, '"' :: '"' :: '"' :: s => some ([], s)
  | _, '"' :: s => prepend '"' (multilineBasicBody .text s)
  | _, '\n' :: s => prepend '\n' (multilineBasicBody .text s)
  | _, '\r' :: '\n' :: s => prepend '\n' (multilineBasicBody .text s)
  | _, '\\' :: 'b' :: s => prepend '\x08' (multilineBasicBody .text s)
  | _, '\\' :: 't' :: s => prepend '\t' (multilineBasicBody .text s)
  | _, '\\' :: 'n' :: s => prepend '\n' (multilineBasicBody .text s)
  | _, '\\' :: 'f' :: s => prepend '\x0c' (multilineBasicBody .text s)
  | _, '\\' :: 'r' :: s => prepend '\r' (multilineBasicBody .text s)
  | _, '\\' :: '"' :: s => prepend '"' (multilineBasicBody .text s)
  | _, '\\' :: '\\' :: s => prepend '\\' (multilineBasicBody .text s)
  | _, '\\' :: 'u' :: a :: b :: c :: d :: s =>
      (codePoint [a, b, c, d]).bind fun x => prepend x (multilineBasicBody .text s)
  | _, '\\' :: 'U' :: a :: b :: c :: d :: e :: f :: g :: h :: s =>
      (codePoint [a, b, c, d, e, f, g, h]).bind fun x => prepend x (multilineBasicBody .text s)
  | _, '\\' :: s => multilineBasicBody .joining s
  | _, c :: s => if isEscapable c then prepend c (multilineBasicBody .text s) else none
  | _, [] => none

/-- The rest of a text in triple single quotes. -/
def multilineLiteralBody : Scan (List Char)
  | '\'' :: '\'' :: '\'' :: '\'' :: '\'' :: s => some (['\'', '\''], s)
  | '\'' :: '\'' :: '\'' :: '\'' :: s => some (['\''], s)
  | '\'' :: '\'' :: '\'' :: s => some ([], s)
  | '\'' :: s => prepend '\'' (multilineLiteralBody s)
  | '\n' :: s => prepend '\n' (multilineLiteralBody s)
  | '\r' :: '\n' :: s => prepend '\n' (multilineLiteralBody s)
  | c :: s => if isLiteral c then prepend c (multilineLiteralBody s) else none
  | [] => none

/-- Drop the line end right after the opening triple quote. -/
def skipFirstNewline (s : List Char) : List Char := (newline s).getD s

/-- A quoted text in any of its forms. -/
def quoted : Scan (List Char)
  | '"' :: '"' :: '"' :: s => multilineBasicBody .text (skipFirstNewline s)
  | '\'' :: '\'' :: '\'' :: s => multilineLiteralBody (skipFirstNewline s)
  | '"' :: s => basicBody s
  | '\'' :: s => literalBody s
  | _ => none

end VersionedQueue.Toml
