/-!
# Byte strings

Keys and cell values are byte strings.  Fixed-width numbers are written most significant byte
first, so that the byte order of two encodings of one width is the order of the numbers.
-/

set_option autoImplicit false
set_option relaxedAutoImplicit false

namespace VersionedQueue

/-- A row key, a column key or a cell value. -/
abbrev Bytes := List UInt8

namespace Bytes

/-- The UTF-8 bytes of a text. -/
def ofText (s : String) : Bytes := s.toByteArray.data.toList

/-- The `width` low bytes of `n`, most significant first. -/
def bigEndian : Nat → Nat → Bytes
  | 0, _ => []
  | width + 1, n => UInt8.ofNat (n / Nat.pow 256 width) :: bigEndian width n

/-- The number that a byte string spells, most significant byte first. -/
def toNat (b : Bytes) : Nat := b.foldl (fun n d => n * 256 + d.toNat) 0

def ofUInt16 (n : UInt16) : Bytes := bigEndian 2 n.toNat

def ofUInt32 (n : UInt32) : Bytes := bigEndian 4 n.toNat

def ofUInt64 (n : UInt64) : Bytes := bigEndian 8 n.toNat

/-- A signed 32-bit word in two's complement, in four bytes. -/
def ofInt32 (n : Int32) : Bytes := ofUInt32 n.toUInt32

/-- The 64-bit word in exactly eight bytes; any other length is refused. -/
def toUInt64? (b : Bytes) : Option UInt64 :=
  if b.length = 8 then some (UInt64.ofNat b.toNat) else none

/-- The signed 32-bit word in exactly four bytes; any other length is refused. -/
def toInt32? (b : Bytes) : Option Int32 :=
  if b.length = 4 then some (UInt32.ofNat b.toNat).toInt32 else none

def hexDigit (n : Nat) : Char := Nat.digitChar (n % 16)

def hexPair (b : UInt8) : String :=
  String.ofList [hexDigit (b.toNat / 16), hexDigit b.toNat]

/-- One byte in printable form: tab, line feed, carriage return, quotes and backslash have a
backslash escape, other printable ASCII stands for itself, and all else is written in hexadecimal. -/
def escapeByte (b : UInt8) : String :=
  if b = 9 then "\\t"
  else if b = 10 then "\\n"
  else if b = 13 then "\\r"
  else if b = 34 then "\\\""
  else if b = 39 then "\\'"
  else if b = 92 then "\\\\"
  else if 0x20 ≤ b ∧ b < 0x7f then String.singleton (Char.ofNat b.toNat)
  else "\\x" ++ hexPair b

/-- A byte string in printable form. -/
def escaped (b : Bytes) : String := String.join (b.map escapeByte)

/-- A byte string as a bracketed list of decimal numbers. -/
def listed (b : Bytes) : String := "[" ++ ", ".intercalate (b.map fun x => toString x.toNat) ++ "]"

@[simp] theorem length_bigEndian (width n : Nat) : (bigEndian width n).length = width := by
  induction width with
  | zero => rfl
  | succ width ih => simp [bigEndian, ih]

private theorem foldl_digits (b : Bytes) (n : Nat) :
    b.foldl (fun n d => n * 256 + d.toNat) n = n * Nat.pow 256 b.length + b.toNat := by
  induction b generalizing n with
  | nil => simp [toNat]
  | cons d b ih =>
      simp only [List.foldl_cons, List.length_cons, toNat]
      rw [ih, ih (0 * 256 + d.toNat)]
      simp only [Nat.pow_eq, Nat.pow_succ, Nat.add_mul, Nat.zero_mul, Nat.zero_add]
      rw [Nat.mul_assoc, Nat.mul_comm 256]
      omega

theorem toNat_cons (d : UInt8) (b : Bytes) :
    toNat (d :: b) = d.toNat * Nat.pow 256 b.length + b.toNat := by
  simpa [toNat] using foldl_digits b d.toNat

/-- Reading back an encoding gives the number, up to the width. -/
theorem toNat_bigEndian (width n : Nat) : (bigEndian width n).toNat = n % Nat.pow 256 width := by
  induction width with
  | zero => simp [bigEndian, toNat, Nat.mod_one]
  | succ width ih =>
      rw [bigEndian, toNat_cons, length_bigEndian, ih]
      simp only [Nat.pow_eq, Nat.pow_succ, Nat.mod_mul, UInt8.toNat_ofNat',
        show (2 : Nat) ^ 8 = 256 from rfl]
      rw [Nat.mul_comm, Nat.add_comm]

@[simp] theorem toUInt64?_ofUInt64 (n : UInt64) : (ofUInt64 n).toUInt64? = some n := by
  have width : n.toNat % Nat.pow 256 8 = n.toNat := Nat.mod_eq_of_lt n.toNat_lt
  simp only [toUInt64?, ofUInt64, length_bigEndian, if_true, toNat_bigEndian, width,
    UInt64.ofNat_toNat]

@[simp] theorem toInt32?_ofInt32 (n : Int32) : (ofInt32 n).toInt32? = some n := by
  have width : n.toUInt32.toNat % Nat.pow 256 4 = n.toUInt32.toNat :=
    Nat.mod_eq_of_lt n.toUInt32.toNat_lt
  simp only [toInt32?, ofInt32, ofUInt32, length_bigEndian, if_true, toNat_bigEndian, width,
    UInt32.ofNat_toNat]
  rfl

end Bytes

end VersionedQueue
