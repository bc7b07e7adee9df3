import VersionedQueue.Record.Document
import VersionedQueue.Toml.Scan

/-!
# Numbers in TOML

Whole numbers are decimal, hexadecimal, octal or binary and fit 64 signed bits.  Numbers with a
fraction or an exponent are checked for their form and otherwise not kept.
-/

set_option autoImplicit false
set_option relaxedAutoImplicit false

namespace VersionedQueue.Toml

private def prependDigit (c : Char) : Option (List Char × List Char) → Option (List Char × List Char)
  | some (digits, rest) => some (c :: digits, rest)
  | none => none

/-- Further digits of a class, any of them after one underscore. -/
def moreDigits (isDigit : Char → Bool) : Scan (List Char)
  | '_' :: c :: s => if isDigit c then prependDigit c (moreDigits isDigit s) else none
  | ['_'] => none
  | c :: s => if isDigit c then prependDigit c (moreDigits isDigit s) else some ([], c :: s)
  | [] => some ([], [])

/-- Digits of a class, at least one. -/
def digits (isDigit : Char → Bool) : Scan (List Char)
  | c :: s => if isDigit c then prependDigit c (moreDigits isDigit s) else none
  | [] => none

/-- The sign of a number: whether it is negative. -/
def sign : List Char → Bool × List Char
  | '-' :: s => (true, s)
  | '+' :: s => (false, s)
  | s => (false, s)

/-- The digits of a decimal number, which begin with zero only if zero is the only one. -/
def decimalDigits : Scan (List Char)
  | '0' :: s => some (['0'], s)
  | s => digits Char.isDigit s

/-- A whole number, if it fits 64 signed bits. -/
def bounded (n : Int) : Option Document :=
  if Int64.minValue.toInt ≤ n ∧ n ≤ Int64.maxValue.toInt then some (.integer n) else none

/-- A number in a base with a letter of its own. -/
def based (base : Nat) (isDigit : Char → Bool) (s : List Char) : Option (Document × List Char) := do
  let (ds, rest) ← digits isDigit s
  let n ← bounded (spelled base ds)
  return (n, rest)

def integer : Scan Document
  | '0' :: 'x' :: s => based 16 isHex s
  | '0' :: 'o' :: s => based 8 (fun c => '0' ≤ c && c ≤ '7') s
  | '0' :: 'b' :: s => based 2 (fun c => c = '0' || c = '1') s
  | s => do
      let (negative, s) := sign s
      let (ds, rest) ← decimalDigits s
      let n ← bounded (if negative then -(spelled 10 ds : Int) else spelled 10 ds)
      return (n, rest)

/-- Whether `digits` times a power of ten rounds to infinity in a 64-bit float: the halfway point
above the largest float rounds up. -/
def roundsToInfinity (digits : List Char) (exponent : Int) : Bool :=
  let n := spelled 10 digits
  let halfway := Nat.pow 2 1024 - Nat.pow 2 970
  let magnitude := (Nat.toDigits 10 n).length + exponent
  if n = 0 then false
  else if 400 < magnitude then true
  else if magnitude < 200 then false
  else if 0 ≤ exponent then halfway ≤ n * Nat.pow 10 exponent.toNat
  else halfway * Nat.pow 10 (-exponent).toNat ≤ n

def fraction : Scan (List Char)
  | '.' :: s => digits Char.isDigit s
  | _ => none

def exponent : Scan Int
  | c :: s =>
      if c = 'e' ∨ c = 'E' then do
        let (negative, s) := sign s
        let (ds, rest) ← digits Char.isDigit s
        return (if negative then -(spelled 10 ds : Int) else spelled 10 ds, rest)
      else none
  | [] => none

/-- An exponent that may be missing.  A letter that announces an exponent has to keep its word. -/
def exponent? (s : List Char) : Option (Int × List Char) :=
  match s with
  | 'e' :: _ | 'E' :: _ => exponent s
  | _ => some (0, s)

/-- One of the two names of numbers that have no digits. -/
def named (s : List Char) : Option (Document × List Char) :=
  match expect ['i', 'n', 'f'] s with
  | some rest => some (.other, rest)
  | none => (expect ['n', 'a', 'n'] s).map (Document.other, ·)

/-- A number with a fraction, an exponent or both.  A positive number that rounds to infinity is
refused; infinity has to be written by name. -/
def float (s : List Char) : Option (Document × List Char) :=
  let (negative, body) := sign s
  match decimalDigits body with
  | none => named body
  | some (whole, rest) => do
      let (part, rest) ←
        match rest with
        | '.' :: _ => fraction rest
        | 'e' :: _ | 'E' :: _ => some ([], rest)
        | _ => none
      let (power, rest) ← exponent? rest
      if !negative && roundsToInfinity (whole ++ part) (power - part.length) then none
      else return (.other, rest)

end VersionedQueue.Toml
