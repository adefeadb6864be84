import Stencil.Text.Basic

/-!
# Quoted text

String literals of the render script. A literal has no line feed and no bare double quote inside,
so it stays on one line and ends where it seems to.
-/

namespace Stencil.Quoted

/-- The escapes of one letter. -/
def shortEscapes : List (Char × Char) := [
    ('"', '"'), ('\\', '\\'), ('\x08', 'b'), ('\x0c', 'f'), ('\n', 'n'), ('\r', 'r'), ('\t', 't')]

def hexDigit (n : Nat) : Char := (Nat.digitChar n)

def escape (c : Char) : Text :=
  match shortEscapes.lookup c with
  | some letter => ['\\', letter]
  | none =>
    if c.toNat < 0x20 then
      ['\\', 'u', '0', '0', hexDigit (c.toNat / 16), hexDigit (c.toNat % 16)]
    else [c]

/-- The text as a literal, quotes included. -/
def encode (t : Text) : Text := '"' :: (t.flatMap escape ++ ['"'])

def hexValue? (c : Char) : Option Nat :=
  if c.isDigit then some (c.toNat - '0'.toNat)
  else if 'a' ≤ c ∧ c ≤ 'f' then some (c.toNat - 'a'.toNat + 10)
  else if 'A' ≤ c ∧ c ≤ 'F' then some (c.toNat - 'A'.toNat + 10)
  else none

def hex4? (a b c d : Char) : Option Nat := do
  let a ← hexValue? a
  let b ← hexValue? b
  let c ← hexValue? c
  let d ← hexValue? d
  return ((a * 16 + b) * 16 + c) * 16 + d

/-- What the letter after a backslash stands for. -/
def unescapeLetter? : Char → Option Char
  | '"' => some '"'
  | '\\' => some '\\'
  | '/' => some '/'
  | 'b' => some '\x08'
  | 'f' => some '\x0c'
  | 'n' => some '\n'
  | 'r' => some '\r'
  | 't' => some '\t'
  | _ => none

/-- The character of two surrogate halves. -/
def joinHalves? (high low : Nat) : Option Char :=
  if 0xDC00 ≤ low ∧ low ≤ 0xDFFF then
    some (Char.ofNat (0x10000 + (high - 0xD800) * 0x400 + (low - 0xDC00)))
  else none

/-- The text between the quotes of a literal. Control characters must be escaped. -/
def unescape? : Text → Option Text
  | [] => some []
  | '\\' :: 'u' :: a :: b :: c :: d :: rest => do
    let code ← hex4? a b c d
    if 0xD800 ≤ code ∧ code ≤ 0xDBFF then
      match rest with
      | '\\' :: 'u' :: e :: f :: g :: h :: rest => do
        let char ← joinHalves? code (← hex4? e f g h)
        return char :: (← unescape? rest)
      | _ => none
    else if 0xDC00 ≤ code ∧ code ≤ 0xDFFF then none
    else return Char.ofNat code :: (← unescape? rest)
  | '\\' :: letter :: rest => do
    let char ← unescapeLetter? letter
    return char :: (← unescape? rest)
  | c :: rest =>
    if c = '\\' || c = '"' || c.toNat < 0x20 then none else (unescape? rest).map (c :: ·)

/-- What stands before the quote that ends a literal, and what follows that quote. -/
def close? : Text → Option (Text × Text)
  | [] => none
  | '"' :: rest => some ([], rest)
  | ['\\'] => none
  | '\\' :: c :: rest => (close? rest).map fun (inside, rest) => ('\\' :: c :: inside, rest)
  | c :: rest => (close? rest).map fun (inside, rest) => (c :: inside, rest)

theorem close?_append {t inside rest : Text} (h : close? t = some (inside, rest)) :
    inside ++ '"' :: rest = t := by
  fun_induction close? t generalizing inside rest with
  | case1 => simp at h
  | case2 => simp_all
  | case3 => simp at h
  | case4 c t ih =>
    simp only [Option.map_eq_some_iff, Prod.mk.injEq] at h
    obtain ⟨⟨a, b⟩, hab, rfl, rfl⟩ := h
    simp [ih hab]
  | case5 c t _ _ _ ih =>
    simp only [Option.map_eq_some_iff, Prod.mk.injEq] at h
    obtain ⟨⟨a, b⟩, hab, rfl, rfl⟩ := h
    simp [ih hab]

theorem length_le_of_close {t inside rest : Text} (h : close? t = some (inside, rest)) :
    rest.length ≤ t.length := by
  have := congrArg List.length (close?_append h)
  simp only [List.length_append, List.length_cons] at this
  omega

end Stencil.Quoted
