import Stencil.Overflow
import Stencil.Text.Letter
import Stencil.Token.Basic

/-!
# Cutting text into tokens

Every token is as long as its kind allows. White space goes to the token before it; white space at
the very start goes to no token, but its line feeds count.
-/

namespace Stencil

/-- The kind of a token, its text after the first character, and what follows it. -/
structure Lexeme where
  kind : Kind
  tail : Text
  rest : Text

namespace Lexeme

/-- A lexeme that goes on while `p` holds. -/
def span (kind : Kind) (p : Char → Bool) (t : Text) : Lexeme :=
  { kind, tail := t.takeWhile p, rest := t.dropWhile p }

/-! ## Words and numbers -/

def word (c : Char) (t : Text) : Lexeme :=
  let spelling := c :: t.takeWhile isWordPart
  span (if spelling ∈ Symbol.words then .symbol spelling else .name) isWordPart t

/-- A point and at least one digit. -/
def fraction? : Text → Option (Text × Text)
  | '.' :: d :: t =>
    if d.isDigit then some ('.' :: d :: t.takeWhile Char.isDigit, t.dropWhile Char.isDigit)
    else none
  | _ => none

def isExponentMark (c : Char) : Bool := c = 'e' || c = 'E'

def isSign (c : Char) : Bool := c = '+' || c = '-'

/-- The letter `e`, perhaps a sign, and at least one digit. -/
def exponent? : Text → Option (Text × Text)
  | e :: s :: d :: t =>
    if isExponentMark e && isSign s && d.isDigit then
      some (e :: s :: d :: t.takeWhile Char.isDigit, t.dropWhile Char.isDigit)
    else if isExponentMark e && s.isDigit then
      some (e :: s :: (d :: t).takeWhile Char.isDigit, (d :: t).dropWhile Char.isDigit)
    else none
  | [e, d] => if isExponentMark e && d.isDigit then some ([e, d], []) else none
  | _ => none

/-- A part that may be absent: its text, what follows, and whether it was there. -/
def optional (part? : Text → Option (Text × Text)) (t : Text) : Text × Text × Bool :=
  match part? t with
  | some (part, rest) => (part, rest, true)
  | none => ([], t, false)

def number (t : Text) : Lexeme :=
  let digits := t.takeWhile Char.isDigit
  let (point, rest, hasPoint) := optional fraction? (t.dropWhile Char.isDigit)
  let (power, rest, hasPower) := optional exponent? rest
  { kind := if hasPoint || hasPower then .float else .integer
    tail := digits ++ point ++ power
    rest }

/-! ## Strings, comments and symbols -/

/-- The text up to and with the first quote that no backslash escapes, and what follows it. -/
def closeQuote? (quote : Char) : Text → Option (Text × Text)
  | [] => none
  | ['\\'] => none
  | '\\' :: c :: t => (closeQuote? quote t).map fun (s, rest) => ('\\' :: c :: s, rest)
  | c :: t =>
    if c = quote then some ([c], t)
    else (closeQuote? quote t).map fun (s, rest) => (c :: s, rest)

/-- Everything to the end of the text. -/
def unfinished (t : Text) : Lexeme := { kind := .stray, tail := t, rest := [] }

def string (quote : Char) (t : Text) : Lexeme :=
  match closeQuote? quote t with
  | some (tail, rest) => { kind := .quoted, tail, rest }
  | none => unfinished t

/-- A comment, where `t` follows its two opening characters. -/
def comment (t : Text) : Lexeme :=
  match Text.cut? "*/" t with
  | some (inside, rest) => { kind := .comment, tail := '*' :: (inside ++ ['*', '/']), rest }
  | none => unfinished ('*' :: t)

/-- The longest symbol at the front, or a single character. -/
def symbol (c : Char) (t : Text) : Lexeme :=
  match Symbol.spellings.find? (·.isPrefixOf (c :: t)) with
  | some s => { kind := .symbol s, tail := t.take (s.length - 1), rest := t.drop (s.length - 1) }
  | none => { kind := .stray, tail := [], rest := t }

/-- The lexeme that starts with `c`, which is no blank, and goes on in `t`. -/
def first (c : Char) (t : Text) : Lexeme :=
  if c = '$' && t.head?.any isWordStart then span .variable isWordPart t
  else if isWordStart c then word c t
  else if c.isDigit then number t
  else if c = '"' || c = '\x27' then string c t
  else match c, t with
    | '/', '*' :: inside => comment inside
    | _, _ => symbol c t

/-! ## Nothing is lost -/

theorem span_append (kind : Kind) (p : Char → Bool) (t : Text) :
    (span kind p t).tail ++ (span kind p t).rest = t :=
  List.takeWhile_append_dropWhile

theorem fraction?_append {t part rest : Text} (h : fraction? t = some (part, rest)) :
    part ++ rest = t := by
  unfold fraction? at h
  split at h
  · split at h <;> simp at h
    obtain ⟨rfl, rfl⟩ := h
    simp
  · simp at h

theorem exponent?_append {t part rest : Text} (h : exponent? t = some (part, rest)) :
    part ++ rest = t := by
  unfold exponent? at h
  split at h
  · split at h
    · simp at h
      obtain ⟨rfl, rfl⟩ := h
      simp
    · split at h <;> simp at h
      obtain ⟨rfl, rfl⟩ := h
      rw [← List.takeWhile_append_dropWhile (p := Char.isDigit) (l := _ :: _)]
      simp
  · split at h <;> simp at h
    obtain ⟨rfl, rfl⟩ := h
    simp
  · simp at h

theorem optional_append {part? : Text → Option (Text × Text)}
    (h : ∀ {t part rest}, part? t = some (part, rest) → part ++ rest = t) (t : Text) :
    (optional part? t).1 ++ (optional part? t).2.1 = t := by
  unfold optional
  split
  · rename_i hp
    exact h hp
  · simp

theorem number_append (t : Text) : (number t).tail ++ (number t).rest = t := by
  have hp := optional_append fraction?_append (t.dropWhile Char.isDigit)
  have he := optional_append exponent?_append (optional fraction? (t.dropWhile Char.isDigit)).2.1
  simp only [number, List.append_assoc]
  rw [he, hp, List.takeWhile_append_dropWhile]

theorem closeQuote?_append {quote : Char} {t s rest : Text}
    (h : closeQuote? quote t = some (s, rest)) : s ++ rest = t := by
  fun_induction closeQuote? quote t generalizing s rest with
  | case1 => simp at h
  | case2 => simp at h
  | case3 c t ih =>
    simp only [Option.map_eq_some_iff, Prod.mk.injEq] at h
    obtain ⟨⟨a, b⟩, hab, rfl, rfl⟩ := h
    simp [ih hab]
  | case4 c t =>
    simp only [Option.some.injEq, Prod.mk.injEq] at h
    obtain ⟨rfl, rfl⟩ := h
    simp_all
  | case5 c t _ ih =>
    simp only [Option.map_eq_some_iff, Prod.mk.injEq] at h
    obtain ⟨⟨a, b⟩, hab, rfl, rfl⟩ := h
    simp_all

theorem string_append (quote : Char) (t : Text) :
    (string quote t).tail ++ (string quote t).rest = t := by
  unfold string
  split
  · rename_i h
    exact closeQuote?_append h
  · simp [unfinished]

theorem comment_append (t : Text) : (comment t).tail ++ (comment t).rest = '*' :: t := by
  unfold comment
  split
  · rename_i h
    simp [← Text.cut?_append h]
  · simp [unfinished]

theorem symbol_append (c : Char) (t : Text) : (symbol c t).tail ++ (symbol c t).rest = t := by
  unfold symbol
  split <;> simp

theorem first_append (c : Char) (t : Text) : (first c t).tail ++ (first c t).rest = t := by
  unfold first
  split
  · exact span_append ..
  · split
    · exact span_append ..
    · split
      · exact number_append t
      · split
        · exact string_append c t
        · split
          · exact comment_append _
          · exact symbol_append c t

theorem length_rest_first_le (c : Char) (t : Text) : (first c t).rest.length ≤ t.length := by
  have h := congrArg List.length (first_append c t)
  simp only [List.length_append] at h
  omega

end Lexeme

/-! ## Tokens of a text -/

/-- The tokens of a text that starts with no blank, the first one on `line`. -/
def tokensOf (line : Nat) : Text → List Token
  | [] => []
  | c :: t =>
    let lexeme := Lexeme.first c t
    let text := c :: lexeme.tail
    let space := lexeme.rest.takeWhile isBlank
    { kind := lexeme.kind, text, space, line } ::
      tokensOf (line + Text.newlines text + Text.newlines space) (lexeme.rest.dropWhile isBlank)
termination_by t => t.length
decreasing_by
  have h := Lexeme.length_rest_first_le c t
  have h' := (List.dropWhile_sublist isBlank (l := (Lexeme.first c t).rest)).length_le
  simp only [List.length_cons]
  omega

/-- The tokens of a text whose first character stands on `line`. -/
def tokenize (line : Nat) (source : Text) : List Token :=
  tokensOf (line + Text.newlines (source.takeWhile isBlank)) (source.dropWhile isBlank)

/-! ## Lines in words

The same tokens, with lines counted in words of 32 bits. As long as the lines fit it makes no
difference.
-/

/-- The number of line feeds, cut to 32 bits. -/
def Text.feeds (t : Text) : BitVec 32 := .ofNat 32 t.newlines

def tokensOf? (overflow : Overflow) (line : BitVec 32) : Text → Option (List Token)
  | [] => some []
  | c :: t => do
    let lexeme := Lexeme.first c t
    let text := c :: lexeme.tail
    let space := lexeme.rest.takeWhile isBlank
    let below ← overflow.add? line (Text.feeds text)
    let below ← overflow.add? below (Text.feeds space)
    let more ← tokensOf? overflow below (lexeme.rest.dropWhile isBlank)
    return { kind := lexeme.kind, text, space, line := line.toNat } :: more
termination_by t => t.length
decreasing_by
  have h := Lexeme.length_rest_first_le c t
  have h' := (List.dropWhile_sublist isBlank (l := (Lexeme.first c t).rest)).length_le
  simp only [List.length_cons]
  omega

def tokenize? (overflow : Overflow) (line : BitVec 32) (source : Text) : Option (List Token) := do
  let line ← overflow.add? line (Text.feeds (source.takeWhile isBlank))
  tokensOf? overflow line (source.dropWhile isBlank)

end Stencil
