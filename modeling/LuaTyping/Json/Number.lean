import LuaTyping.Json.Scan

/-!
# JSON numbers

A number without fraction and exponent that fits a 64-bit word is read as it
is.  Any other number is only good for telling that a number stands there, but
it still has to lie in the range of double precision: a number too large for a
double is malformed.

Digits are gathered into a 64-bit significand for as long as they fit.  Digits
of the integer part beyond that raise the decimal exponent; digits of the
fraction beyond that are dropped.
-/

namespace LuaTyping

namespace Json

/-- A number, as far as readers of whole numbers care. -/
inductive Number where
  /-- A whole number without sign, fraction or exponent, of at most 64 bits. -/
  | whole (value : Nat)
  /-- Any other number. -/
  | other
  deriving DecidableEq, Repr

/-- The decimal digits. -/
def isDigit (character : Char) : Bool :=
  '0' ≤ character && character ≤ '9'

/-- The value of a decimal digit. -/
def digitValue (character : Char) : Nat :=
  character.toNat - '0'.toNat

/-- The leading digits of a text, and the rest. -/
def spanDigits (text : List Char) : List Char × List Char :=
  (text.takeWhile isDigit, text.dropWhile isDigit)

/-- The largest significand. -/
def maxSignificand : Nat := UInt64.size - 1

/-- Gather digits into a significand for as long as it fits.  Returns the
significand and the number of digits that did not fit. -/
def gather : Nat → List Char → Nat × Nat
  | significand, [] => (significand, 0)
  | significand, digit :: digits =>
      let next := significand * 10 + digitValue digit
      if next ≤ maxSignificand then gather next digits
      else (significand, digits.length + 1)

/-- The multiple of a power of two nearest to a number that keeps at most 53
binary digits, an exact half going to the even neighbour. -/
def roundToDouble (number : Nat) : Nat :=
  let unit := Nat.pow 2 (number.log2 + 1 - 53)
  let quotient := number / unit
  let remainder := number % unit
  if 2 * remainder < unit then quotient * unit
  else if unit < 2 * remainder then (quotient + 1) * unit
  else if quotient % 2 = 0 then quotient * unit
  else (quotient + 1) * unit

/-- Products from here on round past the largest double. -/
def overflowThreshold : Nat := Nat.pow 2 1024 - Nat.pow 2 970

/-- The largest power of ten below the overflow threshold. -/
def maxPowerOfTen : Int := 308

/-- Whether a significand with a decimal exponent is too large for a double.
The significand and the power of ten are rounded before they are
multiplied. -/
def overflowsDouble (significand : Nat) (exponent : Int) : Bool :=
  if significand = 0 ∨ exponent < 0 then false
  else if maxPowerOfTen < exponent then true
  else
    overflowThreshold ≤
      roundToDouble significand *
        roundToDouble (Nat.pow 10 exponent.toNat)

/-- The largest exponent that is read digit by digit. -/
def maxExponent : Nat := 2147483647

/-- The value of exponent digits, unless it is too large. -/
def exponentValue : Nat → List Char → Option Nat
  | value, [] => some value
  | value, digit :: digits =>
      let next := value * 10 + digitValue digit
      if next ≤ maxExponent then exponentValue next digits else none

/-- Close a number that is not whole. -/
def closeNumber (significand : Nat) (exponent : Int) (text : List Char) :
    Except Fault (Number × List Char) :=
  if overflowsDouble significand exponent then .error .malformed
  else .ok (.other, text)

/-- The sign of an exponent, and the text behind it. -/
def scanExponentSign : List Char → Bool × List Char
  | '+' :: text => (true, text)
  | '-' :: text => (false, text)
  | text => (true, text)

/-- Read an exponent, behind its mark.  An exponent too large to be read
makes the number too large, unless it is negative or the significand is
zero. -/
def scanExponent (significand : Nat) (exponent : Int) (text : List Char) :
    Except Fault (Number × List Char) :=
  let (positive, text) := scanExponentSign text
  let (digits, rest) := spanDigits text
  if digits.isEmpty then
    .error (unexpected rest)
  else
    match exponentValue 0 digits with
    | some value =>
        let shift : Int := if positive then value else -value
        closeNumber significand (exponent + shift) rest
    | none =>
        if significand ≠ 0 ∧ positive then .error .malformed
        else .ok (.other, rest)

/-- Read what follows the digits of a number that is not whole. -/
def scanScale (significand : Nat) (exponent : Int) :
    List Char → Except Fault (Number × List Char)
  | 'e' :: text | 'E' :: text => scanExponent significand exponent text
  | text => closeNumber significand exponent text

/-- Read a fraction, behind its point. -/
def scanFraction (significand : Nat) (exponent : Int) (text : List Char) :
    Except Fault (Number × List Char) :=
  let (digits, rest) := spanDigits text
  if digits.isEmpty then
    .error (unexpected rest)
  else
    let (total, dropped) := gather significand digits
    scanScale total (exponent - (digits.length - dropped : Nat)) rest

/-- Read a number from its digits on. -/
def scanUnsigned (positive : Bool) (text : List Char) :
    Except Fault (Number × List Char) :=
  let (digits, rest) := spanDigits text
  match digits with
  | [] => .error (unexpected rest)
  | '0' :: _ :: _ => .error .malformed
  | digits =>
      let (significand, surplus) := gather 0 digits
      match rest with
      | '.' :: rest => scanFraction significand surplus rest
      | 'e' :: rest | 'E' :: rest => scanExponent significand surplus rest
      | rest =>
          if surplus = 0 then
            .ok (if positive then .whole significand else .other, rest)
          else
            closeNumber significand surplus rest

/-- Read a number, with its sign. -/
def scanNumber : List Char → Except Fault (Number × List Char)
  | '-' :: text => scanUnsigned false text
  | text => scanUnsigned true text

/-- Pass over an exponent, behind its mark. -/
def skipExponent (text : List Char) : Except Fault (List Char) :=
  let (digits, rest) := spanDigits (scanExponentSign text).2
  if digits.isEmpty then .error .malformed else .ok rest

/-- Pass over what follows the digits of a number. -/
def skipScale : List Char → Except Fault (List Char)
  | 'e' :: text | 'E' :: text => skipExponent text
  | text => .ok text

/-- Pass over a number from its digits on.  A number that is only passed over
is malformed if the text ends inside it. -/
def skipUnsigned (text : List Char) : Except Fault (List Char) :=
  let (digits, rest) := spanDigits text
  match digits with
  | [] => .error .malformed
  | '0' :: _ :: _ => .error .malformed
  | _ =>
      match rest with
      | '.' :: rest =>
          let (digits, rest) := spanDigits rest
          if digits.isEmpty then .error .malformed else skipScale rest
      | rest => skipScale rest

end Json

end LuaTyping
