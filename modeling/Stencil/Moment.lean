/-!
# Moments

Points in time, counted in nanoseconds from the start of 1970.
-/

namespace Stencil

abbrev Moment := Nat

namespace Moment

def perSecond : Nat := 1000000000

def ofParts (seconds nanos : Nat) : Moment := seconds * perSecond + nanos

def seconds (m : Moment) : Nat := m / perSecond

def nanos (m : Moment) : Nat := m % perSecond

/-- Less than a day apart. -/
def isNear (a b : Moment) : Bool := a < b + 86400 * perSecond && b < a + 86400 * perSecond

end Moment

end Stencil
