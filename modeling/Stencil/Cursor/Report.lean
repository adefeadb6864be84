import Stencil.Cursor.Basic

/-!
# Unexpected tokens

What is reported when the tokens do not go on as they should.
-/

namespace Stencil

structure Unexpected where
  /-- The token met; none at the end of the tokens. -/
  found : Option Text
  line : Nat
  /-- The one thing that would have been right, if there was just one. -/
  expected : Option Text
  /-- The tokens around the place, on one line. -/
  snippet : Text
deriving DecidableEq, Repr

/-- The report in words. -/
def Unexpected.describe (found expected : Option Text) : Text :=
  let met : Text := match found with
    | none => "unexpected end of expression"
    | some text => "unexpected token '" ++ text ++ "'"
  let instead : Text := match expected with
    | none => []
    | some text => ", expected '" ++ text ++ "'"
  met ++ instead

def Unexpected.message (u : Unexpected) : Text := describe u.found u.expected

namespace Cursor

/-- The tokens around the cursor; at the end, those around the last one. -/
def snippet (c : Cursor) (before after : Nat) : List Token :=
  let last := c.length - 1
  let anchor := min c.position last
  let start := anchor - before
  let stop := min (anchor + after) last
  (c.tokens.drop start).take (stop - start + 1)

/-- The same, with the tokens counted in words. -/
def snippet? (overflow : Overflow) (c : Cursor) (before after : BitVec 64) :
    Option (List Token) :=
  if c.length = 0 then some []
  else do
    let last := c.length - 1
    let anchor := min c.position last
    let stop ← overflow.add? (.ofNat 64 anchor) after
    slice? c.tokens (anchor - before.toNat) (min stop.toNat last + 1)

/-- A line feed as reports show it. -/
def visible (char : Char) : Char := if char = '\n' then '↵' else char

/-- Some tokens on one line. -/
def onOneLine (tokens : List Token) : Text := Text.trim ((Token.join tokens).map visible)

def snippetText (c : Cursor) (before after : Nat) : Text := onOneLine (c.snippet before after)

/-- How many tokens a report shows on each side. -/
def snippetReach : Nat := 3

/-- The name of the only want there is. -/
def onlyLabel? : List Want → Option Text
  | [want] => want.label?
  | _ => none

/-- The report that the current token is none of the `wants`. -/
def unexpected (c : Cursor) (wants : List Want) : Unexpected :=
  { found := c.current?.map Token.text
    line := c.line
    expected := onlyLabel? wants
    snippet := c.snippetText snippetReach snippetReach }

/-- The report that the current token is not the word `word`. -/
def unexpectedWord (c : Cursor) (word : Text) : Unexpected :=
  { c.unexpected [] with expected := some word }

end Cursor

end Stencil
