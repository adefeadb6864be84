import Stencil.Number.Literal
import Stencil.Number.Shortest

/-!
# Values

What scripts compute with. Whole numbers and others are kept apart, and the fields of an object are
in the order of their names.
-/

namespace Stencil

inductive Value where
  | null
  | bool (b : Bool)
  | whole (n : Int)
  /-- A finite number. -/
  | real (x : Float)
  | string (s : String)
  | list (items : List Value)
  | object (fields : List (String × Value))
deriving Inhabited

namespace Value

/-- What counts as true in a condition. -/
def isTrue : Value → Bool
  | .null => false
  | .bool b => b
  | .whole n => n ≠ 0
  | .real x => x != 0
  | .string s => s ≠ "" && s ≠ "0"
  | .list items => !items.isEmpty
  | .object fields => !fields.isEmpty

def ofInt (n : Int) : Text := if n < 0 then '-' :: Text.ofNat n.natAbs else Text.ofNat n.natAbs

/-- A value as it is printed. -/
def display : Value → String
  | .null | .bool false => ""
  | .bool true => "1"
  | .whole n => String.ofList (ofInt n)
  | .real x => String.ofList (((Number.parts? x).map Number.Parts.render).getD [])
  | .string s => s
  | .list _ => "Array"
  | .object _ => "Object"

/-- A value as a number; zero for what is no number. -/
def toNumber : Value → Float
  | .whole n => Number.ofInt n
  | .real x => x
  | .string s => (Number.read? s).getD 0
  | .bool b => if b then 1 else 0
  | .null | .list _ | .object _ => 0

/-- Whole numbers from this size on are not told apart from others. -/
def wholeLimit : Nat := 9000000000000000

/-- A number as a value. Infinities and what is no number become nothing. -/
def ofNumber (x : Float) : Value :=
  match Number.parts? x with
  | none => .null
  | some p => if p.isWhole && p.floor < wholeLimit then .whole p.truncate else .real x

mutual

/-- Two values are the same; a whole number and another one never are. -/
def same : Value → Value → Bool
  | .null, .null => true
  | .bool a, .bool b => a == b
  | .whole a, .whole b => a == b
  | .real a, .real b => a == b
  | .string a, .string b => a == b
  | .list a, .list b => sameItems a b
  | .object a, .object b => sameFields a b
  | _, _ => false

def sameItems : List Value → List Value → Bool
  | [], [] => true
  | a :: as, b :: bs => same a b && sameItems as bs
  | _, _ => false

def sameFields : List (String × Value) → List (String × Value) → Bool
  | [], [] => true
  | (j, a) :: as, (k, b) :: bs => j == k && same a b && sameFields as bs
  | _, _ => false

end

def isNumber : Value → Bool
  | .whole _ | .real _ => true
  | _ => false

/-- Equal as numbers if one of them is a number, otherwise the same. -/
def equal (a b : Value) : Bool :=
  if a.isNumber || b.isNumber then a.toNumber == b.toNumber else same a b

/-- An item of a list by its index, or a field of an object by its name. -/
def get (base key : Value) : Value :=
  match base with
  | .list items => items[Number.toIndex key.toNumber]?.getD .null
  | .object fields => (fields.lookup key.display).getD .null
  | _ => .null

end Value

end Stencil
