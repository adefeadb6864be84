import Stencil.Number.Parts
import Stencil.Text.Basic

/-!
# Shortest decimals

A number is written with the fewest digits that still read back as the same number. The digits are
found by trying powers of ten from one above the number down: the first one with a multiple close
enough to the number gives the fewest digits.
-/

namespace Stencil.Number

/-- The decimal `digits * 10 ^ exponent`. -/
structure Decimal where
  digits : Nat
  exponent : Int
deriving DecidableEq, Repr

/-- How far a decimal may lie from the number, in quarters of its last binary place. -/
structure Reach where
  below : Nat
  above : Nat
  /-- The ends themselves read back as the number. -/
  closed : Bool
deriving DecidableEq, Repr

/-- Half a place on both sides; half as much below a power of two, where places get smaller. -/
def Parts.reach (p : Parts) : Reach where
  below := if p.mantissa = pow2 52 && -1074 < p.exponent then 1 else 2
  above := 2
  closed := p.mantissa % 2 = 0

/-- The multiple `digits` of `10 ^ exponent` reads back as the size of `p`. -/
def Parts.accepts (p : Parts) (d : Decimal) : Bool :=
  let binary := p.exponent - 2
  let scale (n : Nat) : Nat := n * pow2 binary.toNat * pow10 (-d.exponent).toNat
  let value := d.digits * pow10 d.exponent.toNat * pow2 (-binary).toNat
  let low := scale (4 * p.mantissa - p.reach.below)
  let high := scale (4 * p.mantissa + p.reach.above)
  if p.reach.closed then low ≤ value && value ≤ high else low < value && value < high

/-- The acceptable multiple of `10 ^ exponent` nearest to the size of `p`; of two, the even one. -/
def Parts.onGrid? (p : Parts) (exponent : Int) : Option Decimal :=
  let dividend := p.mantissa * pow2 p.exponent.toNat * pow10 (-exponent).toNat
  let divisor := pow2 (-p.exponent).toNat * pow10 exponent.toNat
  let lower : Decimal := { digits := dividend / divisor, exponent }
  let upper : Decimal := { digits := dividend / divisor + 1, exponent }
  let excess := 2 * (dividend % divisor)
  let lowerFirst := excess < divisor || (excess = divisor && lower.digits % 2 = 0)
  let candidates := if lowerFirst then [lower, upper] else [upper, lower]
  candidates.find? fun d => 0 < d.digits && p.accepts d

/--
The exponent of a power of ten above the size of a number that is not zero, and at most a hundred
times as large. A binary place is 0.30103 decimal ones, rounded up.
-/
def Parts.ceiling (p : Parts) : Int :=
  (((Nat.log2 p.mantissa : Int) + 1 + p.exponent) * 30103).fdiv 100000 + 1

/-- No number needs more digits. -/
def digitLimit : Nat := 17

/-- The powers of ten that a number can need, largest first. -/
def Parts.grids (p : Parts) : List Int :=
  (List.range (digitLimit + 3)).map fun (i : Nat) => p.ceiling - i

/-- The shortest decimal of a number that is not zero. -/
def Parts.shortest (p : Parts) : Decimal := (p.grids.findSome? p.onGrid?).getD ⟨0, 0⟩

/-! ## Notation -/

/-- The exponents, of the leading digit, with which a number is written without one. -/
def isPlain (exponent : Int) : Bool := -5 ≤ exponent && exponent < 16

def zeros (n : Nat) : Text := List.replicate n '0'

/-- Digits with a point; a whole number ends in `.0`. -/
def plain (digits : Text) (exponent leading : Int) : Text :=
  if 0 ≤ exponent then digits ++ zeros exponent.toNat ++ ".0"
  else if 0 ≤ leading then
    digits.take (leading.toNat + 1) ++ '.' :: digits.drop (leading.toNat + 1)
  else "0." ++ zeros (-leading - 1).toNat ++ digits

/-- One digit before the point, and an exponent with its sign. -/
def scientific (digits : Text) (leading : Int) : Text :=
  let fraction := if digits.length ≤ 1 then [] else '.' :: digits.drop 1
  let sign := if leading < 0 then '-' else '+'
  digits.take 1 ++ fraction ++ 'e' :: sign :: Text.ofNat leading.natAbs

def Decimal.render (d : Decimal) : Text :=
  let digits := Text.ofNat d.digits
  let leading := d.exponent + digits.length - 1
  if isPlain leading then plain digits d.exponent leading else scientific digits leading

/-- A finite number in decimal. -/
def Parts.render (p : Parts) : Text :=
  let size := if p.mantissa = 0 then "0.0".toList else p.shortest.render
  if p.negative then '-' :: size else size

end Stencil.Number
