/-!
# Sums of machine words

Lines are counted in words of 32 bits and sizes in words of 64. What becomes of a sum that is too
great for its word depends on how the program was built.
-/

namespace Stencil

/-- What becomes of a sum that its word cannot hold. -/
inductive Overflow where
  /-- The program stops. -/
  | stops
  /-- The sum goes on from zero. -/
  | wraps
deriving DecidableEq, Repr

namespace Overflow

/-- The sum of two words; nothing if the program stops at it. -/
def add? (overflow : Overflow) {w : Nat} (a b : BitVec w) : Option (BitVec w) :=
  match overflow with
  | .stops => if a.uaddOverflow b then none else some (a + b)
  | .wraps => some (a + b)

end Overflow

end Stencil
