import Stencil.Fault

/-!
# Reading tokens

Steps that read the tokens of a tag. A step moves the cursor and may fail; the cursor stays where
the failure was found.
-/

namespace Stencil

abbrev Reading := EStateM Fault Cursor

namespace Reading

/-- Fails because the current token is none of the `wants`. -/
def refuse (wants : List Want) : Reading α :=
  fun c => .error (.unexpected (c.unexpected wants)) c

/-- How many tokens are left. -/
def remaining : Reading Nat := fun c => .ok c.ahead.length c

def sees (wants : List Want) : Reading Bool := fun c => .ok (c.sees wants) c

def advance : Reading Unit := fun c => .ok () c.advance

/-- Steps over the current token if it fits. -/
def skip (wants : List Want) : Reading Bool := fun c =>
  if c.sees wants then .ok true c.advance else .ok false c

/-- The current token, which has to fit. -/
def need (wants : List Want) : Reading Token := fun c =>
  match c.current? with
  | some token => if token.fits wants then .ok token c else refuse wants c
  | none => refuse wants c

/-- The text of the current token, which has to fit; steps over it. -/
def take (wants : List Want) : Reading Text := do
  let token ← need wants
  advance
  return token.text

/-- The text of the current token, whatever it is; steps over it. -/
def takeAny : Reading Text := fun c =>
  match c.current? with
  | some token => .ok token.text c.advance
  | none => refuse [] c

/-- Steps over the word `word`, which has to come next. -/
def takeWord (word : Text) : Reading Unit := fun c =>
  match c.current? with
  | some token =>
    if token.kind = .name && token.text = word then .ok () c.advance
    else .error (.unexpected (c.unexpectedWord word)) c
  | none => .error (.unexpected (c.unexpectedWord word)) c

/-- Steps on, and then needs a token that fits. -/
def needNext (wants : List Want) : Reading Token := do
  advance
  need wants

/-- Steps on, and then takes a token that fits. -/
def takeNext (wants : List Want) : Reading Text := do
  advance
  take wants

/-- The source text up to the first token that fits. -/
def collect (stops : List Want) : Reading Text := fun c => .ok (c.collect stops).1 (c.collect stops).2

/-- The current symbol, if it has the role; steps over it. -/
def takeOperator? (role : Role) : Reading (Option Text) := fun c =>
  match c.operator? role with
  | some spelling => .ok (some spelling) c.advance
  | none => .ok none c

end Reading

end Stencil
