import Stencil.Token.Lexer

/-!
# Cursors

A position among the tokens of one tag. The tokens passed and the tokens to come are kept apart, so
a cursor is never out of bounds; the end of the tokens is a position like any other.
-/

namespace Stencil

/-- What a token can be compared with. -/
inductive Want where
  | kind (k : Kind)
  /-- Any token that has one of the roles. -/
  | role (roles : List Role)
deriving DecidableEq, Repr

namespace Want

/-- The symbol with this spelling. -/
def symbol (spelling : Text) : Want := .kind (.symbol spelling)

def accepts (token : Token) : Want → Bool
  | .kind k => token.kind = k
  | .role roles => Role.meet token.roles roles

/-- What reports call it. A set of roles has no name. -/
def label? : Want → Option Text
  | .kind k => some k.label
  | .role _ => none

end Want

/-- One of the wants accepts the token. -/
def Token.fits (token : Token) (wants : List Want) : Bool := wants.any (·.accepts token)

/-- The source text of some tokens. -/
def Token.join (tokens : List Token) : Text := tokens.flatMap Token.source

/-- The items from number `start` to before number `stop`, if there are so many. -/
def slice? {α : Type} (items : List α) (start stop : Nat) : Option (List α) :=
  if start ≤ stop ∧ stop ≤ items.length then some ((items.drop start).take (stop - start))
  else none

structure Cursor where
  /-- The tokens passed, nearest first. -/
  behind : List Token
  /-- The current token and those after it. -/
  ahead : List Token
  /-- The line to report at the end of the tokens. -/
  endLine : Nat
deriving DecidableEq, Repr

namespace Cursor

/-- The line of the last token, or `line` if there is none. -/
def lastLine (tokens : List Token) (line : Nat) : Nat := (tokens.getLast?.map Token.line).getD line

/-- A cursor on some tokens, with `position` of them passed. -/
def place (tokens : List Token) (position : Nat) (endLine : Nat) : Cursor :=
  { behind := (tokens.take position).reverse, ahead := tokens.drop position, endLine }

def ofTokens (tokens : List Token) (line : Nat) : Cursor := place tokens 0 (lastLine tokens line)

/-- A cursor on the tokens of a text whose first character stands on `line`. -/
def ofText (source : Text) (line : Nat) : Cursor := ofTokens (tokenize line source) line

/-! ## Looking -/

def tokens (c : Cursor) : List Token := c.behind.reverse ++ c.ahead

def position (c : Cursor) : Nat := c.behind.length

def length (c : Cursor) : Nat := c.behind.length + c.ahead.length

def atEnd (c : Cursor) : Bool := c.ahead.isEmpty

/-- The cursor stands on the last token. -/
def onLast (c : Cursor) : Bool := c.ahead.length = 1

def current? (c : Cursor) : Option Token := c.ahead.head?

def previous? (c : Cursor) : Option Token := c.behind.head?

def next? (c : Cursor) : Option Token := c.ahead.tail.head?

/-- The line of the current token, or at the end that of the last one. -/
def line (c : Cursor) : Nat := (c.current?.map Token.line).getD c.endLine

def sees (c : Cursor) (wants : List Want) : Bool := c.current?.any (·.fits wants)

def seesNext (c : Cursor) (wants : List Want) : Bool := c.next?.any (·.fits wants)

def seesPrevious (c : Cursor) (wants : List Want) : Bool := c.previous?.any (·.fits wants)

/-- The current symbol, if it has the role. -/
def operator? (c : Cursor) (role : Role) : Option Text :=
  match c.current? with
  | some { kind := .symbol spelling, .. } =>
    if role ∈ Symbol.roles spelling then some spelling else none
  | _ => none

/-- White space separates the current token from the one before it. -/
def spaced (c : Cursor) : Bool := c.previous?.any (!·.space.isEmpty)

/-- The source text of the tokens from `offset` on, at most `limit` of them. -/
def textFrom (c : Cursor) (offset : Nat) (limit : Option Nat) : Text :=
  let rest := c.tokens.drop offset
  Token.join (match limit with
    | some n => rest.take n
    | none => rest)

/-! ## Moving -/

def advance (c : Cursor) : Cursor :=
  match c.ahead with
  | [] => c
  | t :: ahead => { c with behind := t :: c.behind, ahead }

def back (c : Cursor) : Cursor :=
  match c.behind with
  | [] => c
  | t :: behind => { c with behind, ahead := t :: c.ahead }

def toEnd (c : Cursor) : Cursor :=
  { c with behind := c.ahead.reverse ++ c.behind, ahead := [] }

/-- The source text up to the first token that fits `stops`, and the cursor on that token. -/
def collect (c : Cursor) (stops : List Want) : Text × Cursor :=
  let taken := c.ahead.takeWhile (!·.fits stops)
  (Token.join taken,
    { c with behind := taken.reverse ++ c.behind, ahead := c.ahead.dropWhile (!·.fits stops) })

/-! ## Changing the tokens -/

/--
Keeps the tokens that `keep` accepts. The position stays the same number, as far as there are
tokens left, and so does the line to report at the end.
-/
def filter (c : Cursor) (keep : Token → Bool) : Cursor :=
  place (c.tokens.filter keep) c.position c.endLine

/-- Adds white space after the last token. -/
def addSpace (space : Text) : List Token → List Token
  | [] => []
  | [t] => [{ t with space := t.space ++ space }]
  | t :: more => t :: addSpace space more

/-- The line that is reported at token number `offset`. -/
def lineAt (c : Cursor) (offset : Nat) : Nat := (c.tokens[offset]?.map Token.line).getD c.endLine

/--
Puts other tokens in the place of those from number `offset` on, with `space` before them. A cursor
beyond `offset` moves back to it.
-/
def recut (c : Cursor) (offset : Nat) (space : Text) (cut : List Token) : Cursor :=
  let tokens := addSpace space (c.tokens.take offset) ++ cut
  place tokens (min c.position offset) (lastLine tokens (c.lineAt offset))

/--
Puts `text` after the last token and cuts everything from token number `offset` on into tokens
again. White space at the start of that part goes to the last token before it.
-/
def splice (c : Cursor) (offset : Nat) (text : Text) : Cursor :=
  let source := c.textFrom offset none ++ text
  let space := source.takeWhile isBlank
  c.recut offset space
    (tokenize (c.lineAt offset + Text.newlines space) (source.dropWhile isBlank))

/-! ## Words

What depends on the words that lines are counted in, or on those that count tokens.
-/

def ofText? (overflow : Overflow) (source : Text) (line : BitVec 32) : Option Cursor :=
  (tokenize? overflow line source).map (ofTokens · line.toNat)

def splice? (overflow : Overflow) (c : Cursor) (offset : Nat) (text : Text) : Option Cursor := do
  let source := c.textFrom offset none ++ text
  let space := source.takeWhile isBlank
  let line ← overflow.add? (.ofNat 32 (c.lineAt offset)) (Text.feeds space)
  return c.recut offset space (← tokenize? overflow line (source.dropWhile isBlank))

/-- The source text of the tokens from `offset` on, at most `limit` of them. -/
def textFrom? (overflow : Overflow) (c : Cursor) (offset : Nat) (limit : Option (BitVec 64)) :
    Option Text := do
  let start := min offset c.length
  let stop ← match limit with
    | some n => (overflow.add? (.ofNat 64 start) n).map (min ·.toNat c.length)
    | none => some c.length
  Token.join <$> slice? c.tokens start stop

end Cursor

end Stencil
