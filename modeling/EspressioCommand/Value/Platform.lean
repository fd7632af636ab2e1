import EspressioCommand.Text.Bytes
import Mathlib.Data.Nat.Digits.Defs
import Mathlib.Data.Rat.Floor

/-!
# Exceptions, numbers and the C library

What the value conversions use of the language and its library: thrown
exceptions, `double` and `long double`, the fixed-width integer types, and the
text conversions `strtoll`, `strtoull`, `strtold` and `snprintf`.

The integer conversions follow ISO C and are definitions.  What differs between
build targets is collected in `Platform`: the precision and range of
`long double`, `strtold`, and the printed form of a `double`.
-/

namespace EspressioCommand

/-- The classes of `std::exception` that the repository distinguishes. -/
inductive ExceptionKind
  | invalidArgument
  | outOfRange
  | other
deriving DecidableEq, Repr

/-- What a C++ `throw` can raise: a `std::exception` with its text, or anything
else, which only `catch (...)` stops. -/
inductive Thrown
  | std (kind : ExceptionKind) (what : CommandString)
  | foreign
deriving DecidableEq, Repr

/-! ### Floating point -/

/-- Values of `long double`: NaN, the infinities and the finite numbers. -/
inductive LongDouble
  | nan
  | negInf
  | finite (q : ℚ)
  | posInf
deriving DecidableEq

namespace LongDouble

/-- IEEE `<`: false as soon as one side is NaN. -/
def lt : LongDouble → LongDouble → Bool
  | finite a, finite b => decide (a < b)
  | negInf, finite _ => true
  | negInf, posInf => true
  | finite _, posInf => true
  | _, _ => false

/-- Unary minus. -/
def neg : LongDouble → LongDouble
  | nan => nan
  | negInf => posInf
  | finite q => finite (-q)
  | posInf => negInf

end LongDouble

/-- A `double`: the 64 bits of an IEEE binary64 datum. -/
structure Double where
  bits : BitVec 64
deriving DecidableEq

namespace Double

/-- The biased exponent field. -/
def exponent (d : Double) : ℕ := d.bits.toNat / 2 ^ 52 % 2 ^ 11

/-- The fraction field. -/
def fraction (d : Double) : ℕ := d.bits.toNat % 2 ^ 52

/-- The sign bit. -/
def negative (d : Double) : Bool := decide (2 ^ 63 ≤ d.bits.toNat)

/-- The value of the datum, which every `long double` format represents. -/
def toLongDouble (d : Double) : LongDouble :=
  if d.exponent = 2047 then
    if d.fraction ≠ 0 then LongDouble.nan
    else if d.negative then LongDouble.negInf else LongDouble.posInf
  else
    let significand := if d.exponent = 0 then d.fraction else 2 ^ 52 + d.fraction
    let power : ℤ := if d.exponent = 0 then -1074 else (d.exponent : ℤ) - 1075
    let magnitude : ℚ := (significand : ℚ) * (2 : ℚ) ^ power
    LongDouble.finite (if d.negative then -magnitude else magnitude)

end Double

/-! ### Integers -/

/-- An integral type other than `bool`: its signedness and its width in bits. -/
structure IntegralType where
  signed : Bool
  width : ℕ
deriving DecidableEq, Repr

namespace IntegralType

/-- `std::numeric_limits<T>::min()`. -/
def min (T : IntegralType) : ℤ := if T.signed then -2 ^ (T.width - 1) else 0

/-- `std::numeric_limits<T>::max()`. -/
def max (T : IntegralType) : ℤ :=
  if T.signed then 2 ^ (T.width - 1) - 1 else 2 ^ T.width - 1

/-- `long long`. -/
def longLong : IntegralType := ⟨true, 64⟩

/-- `unsigned long long`. -/
def unsignedLongLong : IntegralType := ⟨false, 64⟩

end IntegralType

/-- `n` rounded to `digits` significant bits, to nearest with ties to even. -/
def roundToDigits (digits : ℕ) (n : ℤ) : ℤ :=
  let unit : ℕ := 2 ^ (Nat.log2 n.natAbs + 1 - digits)
  let quotient := n.natAbs / unit
  let remainder := n.natAbs % unit
  let up := unit < 2 * remainder ∨ (unit = 2 * remainder ∧ quotient % 2 = 1)
  let magnitude := (if up then quotient + 1 else quotient) * unit
  if n < 0 then -(magnitude : ℤ) else magnitude

/-! ### Text to integer -/

/-- The value of a digit character in any base up to 36. -/
def digitValue (c : UInt8) : Option ℕ :=
  if 48 ≤ c ∧ c ≤ 57 then some (c.toNat - 48)
  else if 97 ≤ c ∧ c ≤ 122 then some (c.toNat - 87)
  else if 65 ≤ c ∧ c ≤ 90 then some (c.toNat - 55)
  else none

/-- A digit of the given base. -/
def isDigit (base : ℕ) (c : UInt8) : Bool :=
  (digitValue c).any (· < base)

/-- The number that a list of digits denotes, most significant digit first. -/
def digitsValue (base : ℕ) (digits : CommandString) : ℕ :=
  digits.foldl (fun value c => value * base + (digitValue c).getD 0) 0

/-- The subject sequence `strtoll` and `strtoull` find with base 0, and how many
characters precede the pointer they store in `end`; zero when there is no
conversion.  A NUL ends the C string, and none of the tests below accepts one. -/
structure IntegerScan where
  negative : Bool
  magnitude : ℕ
  consumed : ℕ
deriving DecidableEq, Repr

/-- The prefix that selects the base, as (base, characters of the prefix): `0x`
counts only before a hexadecimal digit. -/
def basePrefix : CommandString → ℕ × ℕ
  | 48 :: x :: d :: _ =>
      if (x = 120 ∨ x = 88) ∧ isDigit 16 d then (16, 2) else (8, 0)
  | 48 :: _ => (8, 0)
  | _ => (10, 0)

/-- Leading white space, an optional sign, then the digits of an integer literal. -/
def scanInteger (input : CommandString) : IntegerScan :=
  let blanks := (input.takeWhile isSpace).length
  let unsigned := input.drop blanks
  let sign : Bool × ℕ :=
    match unsigned with
    | 45 :: _ => (true, 1)
    | 43 :: _ => (false, 1)
    | _ => (false, 0)
  let literal := unsigned.drop sign.2
  let base := basePrefix literal
  let digits := (literal.drop base.2).takeWhile (isDigit base.1)
  if digits = [] then ⟨false, 0, 0⟩
  else ⟨sign.1, digitsValue base.1 digits, blanks + sign.2 + base.2 + digits.length⟩

/-- Result of a text conversion: the value, the offset of `end`, and whether
`errno` became `ERANGE`. -/
structure Parsed (α : Type) where
  value : α
  consumed : ℕ
  erange : Bool

/-- `strtoll(text, &end, 0)`. -/
def strtoll (input : CommandString) : Parsed ℤ :=
  let scan := scanInteger input
  let value : ℤ := if scan.negative then -scan.magnitude else scan.magnitude
  if value < IntegralType.longLong.min then ⟨IntegralType.longLong.min, scan.consumed, true⟩
  else if IntegralType.longLong.max < value then
    ⟨IntegralType.longLong.max, scan.consumed, true⟩
  else ⟨value, scan.consumed, false⟩

/-- `strtoull(text, &end, 0)`: a minus sign negates in the unsigned type. -/
def strtoull (input : CommandString) : Parsed ℤ :=
  let scan := scanInteger input
  if 2 ^ 64 ≤ scan.magnitude then ⟨2 ^ 64 - 1, scan.consumed, true⟩
  else if scan.negative then ⟨((2 ^ 64 - scan.magnitude) % 2 ^ 64 : ℕ), scan.consumed, false⟩
  else ⟨scan.magnitude, scan.consumed, false⟩

/-- Decimal digits, as `%llu` prints them. -/
def decimal (n : ℕ) : CommandString :=
  if n = 0 then [48] else (Nat.digits 10 n).reverse.map fun d => UInt8.ofNat (48 + d)

/-- `CommandValue::FormatInteger`: `%lld` or `%llu`. -/
def formatInteger (n : ℤ) : CommandString :=
  if n < 0 then 45 :: decimal n.natAbs else decimal n.natAbs

/-! ### The build target -/

/-- What the conversions depend on beyond ISO C. -/
structure Platform where
  /-- `LDBL_MANT_DIG`. -/
  longDoubleDigits : ℕ
  /-- `std::numeric_limits<long double>::max()`. -/
  longDoubleMax : ℚ
  /-- `strtold(text, &end)` and its `errno`. -/
  strtold : CommandString → Parsed LongDouble
  /-- `snprintf("%.17g")`. -/
  formatDouble : Double → CommandString
  /-- The outcome of `static_cast` of a floating value outside the target's
  range, which the language leaves undefined. -/
  castOutOfRange : IntegralType → LongDouble → ℤ

/-- A target whose `long double` is `double`, for runs in which no text denotes a
floating-point number: there `strtold` consumes nothing. -/
def Platform.withoutFloatingText : Platform where
  longDoubleDigits := 53
  longDoubleMax := (2 ^ 53 - 1) * 2 ^ 971
  strtold _ := ⟨LongDouble.finite 0, 0, false⟩
  formatDouble _ := []
  castOutOfRange T _ := T.min

/-- `static_cast<long double>` of an integer. -/
def Platform.ofInt (platform : Platform) (n : ℤ) : LongDouble :=
  LongDouble.finite (roundToDigits platform.longDoubleDigits n)

/-- `static_cast<T>` of a `long double`: truncation, when that is in range. -/
def Platform.castTo (platform : Platform) (T : IntegralType) (x : LongDouble) : ℤ :=
  match x with
  | LongDouble.finite q =>
      let truncated : ℤ := if 0 ≤ q then ⌊q⌋ else ⌈q⌉
      if T.min ≤ truncated ∧ truncated ≤ T.max then truncated
      else platform.castOutOfRange T x
  | _ => platform.castOutOfRange T x

end EspressioCommand
