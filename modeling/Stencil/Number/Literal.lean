import Stencil.Number.Parts
import Stencil.Text.Basic

/-!
# Numbers in text

A number is digits with at most one point, perhaps a sign before them and an exponent after them;
or one of the words for infinity and for no number.
-/

namespace Stencil.Number

/-- The value of decimal digits. -/
def digitsValue (digits : Text) : Nat :=
  digits.foldl (fun n c => 10 * n + (c.toNat - '0'.toNat)) 0

/-- A sign at the front, and what follows it. -/
def splitSign : Text → Bool × Text
  | '-' :: t => (true, t)
  | '+' :: t => (false, t)
  | t => (false, t)

/-- An exponent that makes up all of `t`, or nothing at all. -/
def exponent? (t : Text) : Option Int :=
  match t with
  | [] => some 0
  | c :: t =>
    if c = 'e' || c = 'E' then
      let (negative, digits) := splitSign t
      if !digits.isEmpty && digits.all Char.isDigit then
        some (if negative then -(digitsValue digits : Int) else digitsValue digits)
      else none
    else none

/-- The digits after a point, if there is one, and what follows them. -/
def splitFraction : Text → Text × Text
  | '.' :: t => (t.takeWhile Char.isDigit, t.dropWhile Char.isDigit)
  | t => ([], t)

/-- Powers of ten beyond every number, and below every number but zero. -/
def greatestPower : Int := 310

def leastPower : Int := -330

/-- The number nearest to `mantissa * 10 ^ exponent`. -/
def ofDecimal (mantissa : Nat) (exponent : Int) : Float :=
  let power := exponent + (Text.ofNat mantissa).length
  if mantissa = 0 || power < leastPower then 0.0
  else if greatestPower < power then infinity
  else if exponent = 0 then ofNat mantissa
  else Float.ofScientific mantissa (exponent < 0) exponent.natAbs

/-- The number that a word stands for, in capitals or not. -/
def word? (t : Text) : Option Float :=
  let word := String.ofList (t.map Char.toLower)
  if word = "inf" || word = "infinity" then some infinity
  else if word = "nan" then some undefined
  else none

/-- A number without a sign. -/
def unsigned? (t : Text) : Option Float :=
  let whole := t.takeWhile Char.isDigit
  let (fraction, rest) := splitFraction (t.dropWhile Char.isDigit)
  if whole.isEmpty && fraction.isEmpty then word? t
  else do
    let exponent ← exponent? rest
    return ofDecimal (digitsValue (whole ++ fraction)) (exponent - fraction.length)

/-- The number that a text stands for. -/
def read? (t : Text) : Option Float :=
  let (negative, size) := splitSign t
  (unsigned? size).map fun x => if negative then -x else x

end Stencil.Number
