import Stencil.Token.Symbol

/-!
# Tokens

A token keeps its source text, the white space that follows it and the line it starts on.
-/

namespace Stencil

inductive Kind where
  /-- `$name` -/
  | variable
  /-- A bare word. -/
  | name
  | integer
  | float
  /-- A string in single or double quotes, quotes included. -/
  | quoted
  | comment
  /-- An operator or a mark of punctuation. -/
  | symbol (spelling : Text)
  /-- A character of no other kind, or a string or comment that never ends. -/
  | stray
deriving DecidableEq, Repr

namespace Kind

/-- What reports call the kind; a symbol is called by its spelling. -/
def label : Kind → Text
  | .variable => "variable"
  | .name => "name"
  | .integer => "integer"
  | .float => "float"
  | .quoted => "string"
  | .comment => "comment"
  | .symbol spelling => spelling
  | .stray => "character"

def roles : Kind → List Role
  | .name => [.name]
  | .integer | .float | .quoted => [.scalar]
  | .symbol spelling => Symbol.roles spelling
  | .variable | .comment | .stray => []

end Kind

structure Token where
  kind : Kind
  text : Text
  /-- The white space up to the next token. -/
  space : Text := []
  line : Nat
deriving DecidableEq, Repr

namespace Token

/-- The token as it stands in the source, with the white space after it. -/
def source (t : Token) : Text := t.text ++ t.space

def roles (t : Token) : List Role := t.kind.roles

/-- The words for constants, in both spellings. -/
def constants : List Text := ["true", "false", "null", "TRUE", "FALSE", "NULL"]

def isConstant (t : Token) : Bool := t.kind = .name && t.text ∈ constants

/-- The text, without the dollar of a variable. -/
def name (t : Token) : Text :=
  if t.kind = .variable then t.text.dropWhile (· = '$') else t.text

/-! ## String literals -/

/--
What a backslash and `c` stand for inside the quotes `quote`. Both kinds of quotes know the
backslash and the quote itself; double quotes know four more. Any other pair stands for itself.
-/
def escaped (quote c : Char) : Text :=
  if c = '\\' || c = quote then [c]
  else if quote = '"' then
    match c with
    | 'n' => ['\n']
    | 't' => ['\t']
    | 'r' => ['\r']
    | '$' => ['$']
    | _ => ['\\', c]
  else ['\\', c]

/-- What stands between quotes, with its escapes resolved. -/
def unescape (quote : Char) : Text → Text
  | [] => []
  | ['\\'] => ['\\']
  | '\\' :: c :: rest => escaped quote c ++ unescape quote rest
  | c :: rest => c :: unescape quote rest

/--
The string that a literal stands for. The first and the last character are the quotes; they are
taken off only if each is a single byte.
-/
def unquote? (t : Token) : Option Text :=
  match t.kind, t.text with
  | .quoted, quote :: next :: rest =>
    if quote.toNat < 0x80 && ((next :: rest).getLast?.any (·.toNat < 0x80)) then
      some (unescape quote (next :: rest).dropLast)
    else none
  | _, _ => none

end Token

end Stencil
