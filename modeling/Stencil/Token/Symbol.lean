import Stencil.Text.Basic
import Stencil.Token.Role

/-!
# Symbols

The operators and the punctuation of tags: how they are spelt, which roles they have and how
tightly the binary ones bind.
-/

namespace Stencil.Symbol

/-! ## Spellings -/

def ofThree : List Text := ["===", "!==", "<<=", ">>="]

def ofTwo : List Text := [
    "==", "!=", "<=", ">=", "&&", "||", "++", "--", "+=", "-=", "*=", "/=", "%=", ".=", "&=", "|=",
    "^=", "<<", ">>", "->", "=>", "::"]

def ofOne : List Text := [
    "+", "-", "*", "/", "%", "=", "<", ">", "!", "~", "^", "&", "|", ".", ",", ":", ";", "?", "(",
    ")", "[", "]", "\x7b", "\x7d", "@", "#"]

/-- Every spelling, longer ones first, so that the first that fits is the longest. -/
def spellings : List Text := ofThree ++ ofTwo ++ ofOne

/-- Operators that are spelt as words. -/
def words : List Text := ["and", "or", "xor"]

/-! ## Roles -/

def connectives : List Text := ["&&", "||", "and", "or", "xor"]

/-- Arithmetic and bitwise operators between two values; the minus sign apart. -/
def arithmetic : List Text := ["+", "*", "/", "%", "^", "&", "<<", ">>"]

def comparisons : List Text := ["==", "===", "!=", "!==", "<", "<=", ">", ">="]

def assignments : List Text :=
  ["=", "+=", "-=", "*=", "/=", "%=", ".=", "&=", "|=", "^=", "<<=", ">>="]

/--
The roles of a spelling; none for plain punctuation. The bar counts as arithmetic but joins no two
values, because it introduces a modifier.
-/
def roles (spelling : Text) : List Role :=
  if spelling = ['-'] then [.unary, .binary, .arithmetic]
  else if spelling ∈ arithmetic then [.binary, .arithmetic]
  else if spelling ∈ comparisons then [.binary, .comparison]
  else if spelling ∈ connectives then [.binary, .logical]
  else if spelling ∈ assignments then [.assign]
  else if spelling = ['!'] || spelling = ['~'] then [.unary]
  else if spelling = ['+', '+'] || spelling = ['-', '-'] then [.step]
  else if spelling = ['|'] then [.arithmetic]
  else []

/-! ## Binding powers -/

def powerTable : List (Text × Nat) := [
    ("or", 1), ("xor", 2), ("and", 3), ("||", 4), ("&&", 5), ("^", 6), ("&", 7),
    ("==", 8), ("!=", 8), ("===", 8), ("!==", 8),
    ("<", 9), ("<=", 9), (">", 9), (">=", 9),
    ("<<", 10), (">>", 10), ("+", 11), ("-", 11), ("*", 12), ("/", 12), ("%", 12)]

/-- How tightly a binary operator binds. -/
def bindingPower? (spelling : Text) : Option Nat := powerTable.lookup spelling

end Stencil.Symbol
