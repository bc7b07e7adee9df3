import VersionedQueue.Record.Document
import VersionedQueue.Toml.Scan

/-!
# Dates and times in TOML

A moment is a date, a time, or both with an optional offset.  Its parts are checked for their ranges
and otherwise not kept.
-/

set_option autoImplicit false
set_option relaxedAutoImplicit false

namespace VersionedQueue.Toml

/-- Two digits that spell a number between two bounds. -/
def twoDigits (low high : Nat) : List Char → Option (List Char)
  | a :: b :: s =>
      if a.isDigit && b.isDigit then
        let n := spelled 10 [a, b]
        if low ≤ n ∧ n ≤ high then some s else none
      else none
  | _ => none

/-- A date: four digits of a year, a month and a day. -/
def date : List Char → Option (List Char)
  | a :: b :: c :: d :: '-' :: s =>
      if [a, b, c, d].all Char.isDigit then
        (twoDigits 1 12 s).bind fun s => (expect ['-'] s).bind (twoDigits 1 31)
      else none
  | _ => none

def secondFraction : List Char → List Char
  | '.' :: c :: s => if c.isDigit then s.dropWhile Char.isDigit else '.' :: c :: s
  | s => s

/-- A time of day; a minute may have a leap second. -/
def timeOfDay (s : List Char) : Option (List Char) := do
  let s ← twoDigits 0 23 s
  let s ← expect [':'] s
  let s ← twoDigits 0 59 s
  let s ← expect [':'] s
  let s ← twoDigits 0 60 s
  return secondFraction s

/-- The offset of a time, if there is one. -/
def offset : List Char → Option (List Char)
  | 'Z' :: s | 'z' :: s => some s
  | '+' :: s | '-' :: s => (twoDigits 0 23 s).bind fun s => (expect [':'] s).bind (twoDigits 0 59)
  | s => some s

/-- A date that may be followed by a time, or a time. -/
def moment (s : List Char) : Option (Document × List Char) :=
  match date s with
  | none => (timeOfDay s).map (Document.other, ·)
  | some rest =>
      let withTime :=
        match rest with
        | 'T' :: r | 't' :: r | ' ' :: r => (timeOfDay r).bind offset
        | _ => none
      some (.other, withTime.getD rest)

end VersionedQueue.Toml
