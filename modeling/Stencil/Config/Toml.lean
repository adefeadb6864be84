import Stencil.Text.Quoted

/-!
# TOML

The part of TOML that a configuration can be written in: strings in all four forms, booleans, arrays
of strings and tables of booleans. Numbers and dates have no place there and are not read.

A reader takes something from the front of a text and answers it with the rest.
-/

namespace Stencil.Toml

/-! ## Blanks, line ends and comments -/

def isBlank (c : Char) : Bool := c = ' ' || c = '\t'

/-- May stand as it is in strings and comments. -/
def isPlain (c : Char) : Bool := c = '\t' || (' ' ≤ c && c ≠ '\x7f')

def skipBlanks (t : Text) : Text := t.dropWhile isBlank

/-- Skips blanks, line ends and comments. Fails on a comment with a control character in it. -/
def skipGap? (inComment : Bool) : Text → Option Text
  | [] => some []
  | '\n' :: rest => skipGap? false rest
  | '\r' :: '\n' :: rest => skipGap? false rest
  | c :: rest =>
    if inComment then if isPlain c then skipGap? true rest else none
    else if isBlank c then skipGap? false rest
    else if c = '#' then skipGap? true rest
    else some (c :: rest)

/-- Skips to the next line. Only blanks and a comment may stand before it. -/
def endLine? (inComment : Bool) : Text → Option Text
  | [] => some []
  | '\n' :: rest => some rest
  | '\r' :: '\n' :: rest => some rest
  | c :: rest =>
    if inComment then if isPlain c then endLine? true rest else none
    else if isBlank c then endLine? false rest
    else if c = '#' then endLine? true rest
    else none

/-! ## Strings -/

/-- The character that some hexadecimal digits number. -/
def hexChar? (digits : Text) : Option Char := do
  let code ← digits.foldlM (fun value c => do return value * 16 + (← Quoted.hexValue? c)) 0
  if code.isValidChar then some (Char.ofNat code) else none

/-- What the letter after a backslash stands for. -/
def letter? : Char → Option Char
  | 'b' => some '\x08'
  | 't' => some '\t'
  | 'n' => some '\n'
  | 'f' => some '\x0c'
  | 'r' => some '\r'
  | 'e' => some '\x1b'
  | '"' => some '"'
  | '\\' => some '\\'
  | _ => none

/-- The character of the escape after a backslash, and how many characters the escape has. -/
def escape? : Text → Option (Char × Nat)
  | [] => none
  | c :: rest =>
    let numbered (count : Nat) : Option (Char × Nat) :=
      if rest.length < count then none else (hexChar? (rest.take count)).map (·, count + 1)
    match c with
    | 'x' => numbered 2
    | 'u' => numbered 4
    | 'U' => numbered 8
    | _ => (letter? c).map (·, 1)

/-- A string up to its double quote. -/
def basic? : Text → Option (Text × Text)
  | [] => none
  | '"' :: rest => some ([], rest)
  | '\\' :: rest => do
    let (c, used) ← escape? rest
    let (text, rest) ← basic? (rest.drop used)
    return (c :: text, rest)
  | c :: rest => do
    if !isPlain c then none
    let (text, rest) ← basic? rest
    return (c :: text, rest)
termination_by t => t.length

/-- A string up to its single quote; nothing is escaped. -/
def literal? : Text → Option (Text × Text)
  | [] => none
  | '\'' :: rest => some ([], rest)
  | c :: rest => do
    if !isPlain c then none
    let (text, rest) ← literal? rest
    return (c :: text, rest)

/-- Skips blanks and line ends. -/
def skipLines : Text → Text
  | '\n' :: rest => skipLines rest
  | '\r' :: '\n' :: rest => skipLines rest
  | c :: rest => if isBlank c then skipLines rest else c :: rest
  | [] => []

theorem length_skipLines_le (t : Text) : (skipLines t).length ≤ t.length := by
  fun_induction skipLines t <;> simp_all <;> omega

/-- The text starts with the end of a line. -/
def isLineEnd : Text → Bool
  | '\n' :: _ => true
  | '\r' :: '\n' :: _ => true
  | _ => false

/--
A string up to its three double quotes, of which two more may stand right before. A backslash at the
end of a line takes away the blanks and line ends that follow.
-/
def multiBasic? : Text → Option (Text × Text)
  | [] => none
  | '"' :: '"' :: '"' :: '"' :: '"' :: rest => some (['"', '"'], rest)
  | '"' :: '"' :: '"' :: '"' :: rest => some (['"'], rest)
  | '"' :: '"' :: '"' :: rest => some ([], rest)
  | '\\' :: rest =>
    if isLineEnd (skipBlanks rest) then multiBasic? (skipLines rest)
    else do
      let (c, used) ← escape? rest
      let (text, rest) ← multiBasic? (rest.drop used)
      return (c :: text, rest)
  | '\r' :: '\n' :: rest => do
    let (text, rest) ← multiBasic? rest
    return ('\r' :: '\n' :: text, rest)
  | c :: rest => do
    if !isPlain c && c ≠ '\n' then none
    let (text, rest) ← multiBasic? rest
    return (c :: text, rest)
termination_by t => t.length
decreasing_by
  all_goals simp only [List.length_cons, List.length_drop]
  · have := length_skipLines_le rest
    omega
  all_goals omega

/-- A string up to its three single quotes, of which two more may stand right before. -/
def multiLiteral? : Text → Option (Text × Text)
  | [] => none
  | '\'' :: '\'' :: '\'' :: '\'' :: '\'' :: rest => some (['\'', '\''], rest)
  | '\'' :: '\'' :: '\'' :: '\'' :: rest => some (['\''], rest)
  | '\'' :: '\'' :: '\'' :: rest => some ([], rest)
  | '\r' :: '\n' :: rest => do
    let (text, rest) ← multiLiteral? rest
    return ('\r' :: '\n' :: text, rest)
  | c :: rest => do
    if !isPlain c && c ≠ '\n' then none
    let (text, rest) ← multiLiteral? rest
    return (c :: text, rest)

/-- A line end right after the opening quotes does not count. -/
def dropFirstLineEnd : Text → Text
  | '\n' :: rest => rest
  | '\r' :: '\n' :: rest => rest
  | t => t

def string? : Text → Option (Text × Text)
  | '"' :: '"' :: '"' :: rest => multiBasic? (dropFirstLineEnd rest)
  | '\'' :: '\'' :: '\'' :: rest => multiLiteral? (dropFirstLineEnd rest)
  | '"' :: rest => basic? rest
  | '\'' :: rest => literal? rest
  | _ => none

/-! ## Keys and values -/

/-- May stand in a key without quotes. -/
def isBare (c : Char) : Bool := c.isAlphanum || c = '_' || c = '-'

def key? : Text → Option (Text × Text)
  | '"' :: rest => basic? rest
  | '\'' :: rest => literal? rest
  | t => if (t.takeWhile isBare).isEmpty then none else some (t.takeWhile isBare, t.dropWhile isBare)

/-- Takes the character `c` and the blanks before and after it. -/
def mark? (c : Char) (t : Text) : Option Text :=
  match skipBlanks t with
  | d :: rest => if d = c then some (skipBlanks rest) else none
  | [] => none

def boolean? (t : Text) : Option (Bool × Text) :=
  if List.isPrefixOf "true" t then some (true, t.drop 4)
  else if List.isPrefixOf "false" t then some (false, t.drop 5)
  else none

/-- Takes an equals sign and the gaps before and after it. -/
def equalsInGap? (t : Text) : Option Text := do
  match ← skipGap? false t with
  | '=' :: rest => skipGap? false rest
  | _ => none

/-- A key with its boolean. They may stand on lines of their own. -/
def switch? (t : Text) : Option ((Text × Bool) × Text) := do
  let (key, rest) ← key? t
  let (enabled, rest) ← boolean? (← equalsInGap? rest)
  return ((key, enabled), rest)

/--
Items with commas between them up to the character `close`. A comma may also stand behind the last
one. There are at most `bound` of them.
-/
def items? (item? : Text → Option (α × Text)) (close : Char) : Nat → Text → Option (List α × Text)
  | 0, _ => none
  | bound + 1, t => do
    match ← skipGap? false t with
    | [] => none
    | c :: rest =>
      if c = close then return ([], rest)
      let (item, rest) ← item? (c :: rest)
      match ← skipGap? false rest with
      | ',' :: rest =>
        let (items, rest) ← items? item? close bound rest
        return (item :: items, rest)
      | c :: rest => if c = close then return ([item], rest) else none
      | [] => none

inductive Value where
  | string (text : Text)
  | boolean (enabled : Bool)
  | strings (texts : List Text)
  | switches (entries : List (Text × Bool))
deriving DecidableEq, Repr

def value? : Text → Option (Value × Text)
  | '[' :: rest => do
    let (texts, rest) ← items? string? ']' (rest.length + 1) rest
    return (.strings texts, rest)
  | '\x7b' :: rest => do
    let (entries, rest) ← items? switch? '\x7d' (rest.length + 1) rest
    return (.switches entries, rest)
  | t =>
    match string? t with
    | some (text, rest) => some (.string text, rest)
    | none => do
      let (enabled, rest) ← boolean? t
      return (.boolean enabled, rest)

/-! ## Documents -/

inductive Entry where
  /-- The lines up to the next header are about the table with this name. -/
  | header (name : Text)
  | assignment (key : Text) (value : Value)
  /-- A value for a key of the table with this name. -/
  | dotted (table key : Text) (value : Value)
deriving DecidableEq, Repr

def assignment? (t : Text) : Option (Entry × Text) := do
  let (key, rest) ← key? t
  match mark? '.' rest with
  | some rest =>
    let (sub, rest) ← key? rest
    let (value, rest) ← value? (← mark? '=' rest)
    return (.dotted key sub value, rest)
  | none =>
    let (value, rest) ← value? (← mark? '=' rest)
    return (.assignment key value, rest)

def entry? : Text → Option (Entry × Text)
  | '[' :: rest => do
    let (name, rest) ← key? (skipBlanks rest)
    return (.header name, ← mark? ']' rest)
  | t => assignment? t

/-- The entries of a text, of which there are at most `bound`. -/
def entries? : Nat → Text → Option (List Entry)
  | 0, _ => none
  | bound + 1, t => do
    match ← skipGap? false t with
    | [] => return []
    | rest =>
      let (entry, rest) ← entry? rest
      return entry :: (← entries? bound (← endLine? false rest))

/-- The entries of a document. A byte order mark may stand before them. -/
def document? (t : Text) : Option (List Entry) :=
  let body := match t with
    | '\uFEFF' :: rest => rest
    | t => t
  entries? (body.length + 1) body

end Stencil.Toml
