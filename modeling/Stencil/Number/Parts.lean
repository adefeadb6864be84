/-!
# Numbers taken apart

A finite 64 bit number is a whole number times a power of two. What scripts do with numbers beyond
the four operations is done exactly on these two parts.
-/

namespace Stencil.Number

def pow2 (exponent : Nat) : Nat := Nat.pow 2 exponent

def pow10 (exponent : Nat) : Nat := Nat.pow 10 exponent

/-- The number `± mantissa * 2 ^ exponent`. -/
structure Parts where
  negative : Bool
  mantissa : Nat
  exponent : Int
deriving DecidableEq, Repr

/-- What the sign bit counts for in the bits of a number, and what one more in the exponent does. -/
def signUnit : UInt64 := 0x8000000000000000

def exponentUnit : UInt64 := 0x10000000000000

/-- The parts of a finite number; none for infinities and for what is no number. -/
def parts? (x : Float) : Option Parts :=
  let bits := x.toBits
  let negative := bits / signUnit = 1
  let biased := (bits % signUnit / exponentUnit).toNat
  let fraction := (bits % exponentUnit).toNat
  if biased = 2047 then none
  else if biased = 0 then some { negative, mantissa := fraction, exponent := -1074 }
  else some { negative, mantissa := fraction + exponentUnit.toNat, exponent := (biased : Int) - 1075 }

namespace Parts

def isWhole (p : Parts) : Bool :=
  match p.exponent with
  | .ofNat _ => true
  | .negSucc places => p.mantissa % pow2 (places + 1) = 0

/-- The size without sign and fraction. -/
def floor (p : Parts) : Nat :=
  match p.exponent with
  | .ofNat places => p.mantissa * pow2 places
  | .negSucc places => p.mantissa >>> (places + 1)

/-- The number without its fraction. -/
def truncate (p : Parts) : Int := if p.negative then -p.floor else p.floor

/-- The remainder of the division toward zero, with the sign of `p`. -/
def remainder (p q : Parts) : Parts :=
  let exponent := min p.exponent q.exponent
  let dividend := p.mantissa * pow2 (p.exponent - exponent).toNat
  let divisor := q.mantissa * pow2 (q.exponent - exponent).toNat
  { negative := p.negative, mantissa := dividend % divisor, exponent }

def toFloat (p : Parts) : Float :=
  let size := (Float.ofNat p.mantissa).scaleB p.exponent
  if p.negative then -size else size

end Parts

/-- Numbers below this one fit into a word. -/
def wordLimit : Nat := 0x4000000000000000

/-- The number nearest to a natural number. -/
def ofNat (n : Nat) : Float := if n < wordLimit then n.toUInt64.toFloat else Float.ofNat n

/-- The number nearest to a whole number. -/
def ofInt (n : Int) : Float := if n < 0 then -ofNat n.natAbs else ofNat n.natAbs

def infinity : Float := 1.0 / 0.0

/-- No number. -/
def undefined : Float := 0.0 / 0.0

/-- The remainder of the division toward zero. -/
def remainder (x y : Float) : Float :=
  match parts? x, parts? y with
  | some p, some q => if q.mantissa = 0 then undefined else (p.remainder q).toFloat
  | some _, none => if y.isNaN then undefined else x
  | none, _ => undefined

/-- The greatest index. -/
def maxIndex : Nat := pow2 64 - 1

/-- A number as an index: without its fraction, and moved to the nearest index there is. -/
def toIndex (x : Float) : Nat :=
  match parts? x with
  | some p => if p.negative then 0 else min p.floor maxIndex
  | none => if x > 0 then maxIndex else 0

end Stencil.Number
