/-!
# Roles

What a token can do in an expression. The expression grammar asks for roles and binding powers,
and never for a single spelling where a role says the same.
-/

namespace Stencil

inductive Role where
  | name
  | unary
  | binary
  | assign
  | scalar
  | step
  | logical
  | arithmetic
  | comparison
deriving DecidableEq, Repr

namespace Role

/-- Every role, from the lowest bit to the highest. -/
def all : List Role :=
  [.name, .unary, .binary, .assign, .scalar, .step, .logical, .arithmetic, .comparison]

/-- The place of a role in a mask. -/
def bit : Role → UInt16
  | .name => 0x1
  | .unary => 0x2
  | .binary => 0x4
  | .assign => 0x8
  | .scalar => 0x10
  | .step => 0x20
  | .logical => 0x40
  | .arithmetic => 0x80
  | .comparison => 0x100

/-- A set of roles as a mask. -/
def mask (roles : List Role) : UInt16 := roles.foldl (fun m r => m ||| r.bit) 0

/-- The roles of a set, each once and in the order of their bits. -/
def sorted (roles : List Role) : List Role := all.filter (· ∈ roles)

/-- The two sets have a role in common. -/
def meet (a b : List Role) : Bool := a.any (· ∈ b)

end Role

end Stencil
