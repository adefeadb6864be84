import Mathlib.Data.List.Find
import Mathlib.Data.List.TakeWhile
import Stencil.Token.Lexer

/-!
# How tokens are spelled

The texts that a token of each kind can have, said without the lexer. The main fact here is
`first_of_spells`: the lexer finds such a text again wherever something follows that breaks it off.
-/

namespace Stencil

/-! ## Characters -/

/-- The code points of some ranges. -/
def codes (ranges : List (Nat × Nat)) : List Nat :=
  ranges.flatMap fun r => List.range' r.1 (r.2 + 1 - r.1)

theorem mem_codes_of_isWithin {ranges : List (Nat × Nat)} {c : Char} (h : isWithin ranges c = true) :
    c.toNat ∈ codes ranges := by
  simp only [isWithin, List.any_eq_true, Bool.and_eq_true, decide_eq_true_eq] at h
  obtain ⟨r, hr, hlow, hhigh⟩ := h
  simp only [codes, List.mem_flatMap, List.mem_range'_1]
  exact ⟨r, hr, hlow, by omega⟩

theorem not_of_isWithin {ranges : List (Nat × Nat)} {p : Char → Bool}
    (h : ∀ n ∈ codes ranges, p (Char.ofNat n) = false) {c : Char} (hc : isWithin ranges c = true) :
    p c = false := by
  have := h _ (mem_codes_of_isWithin hc)
  rwa [Char.ofNat_toNat] at this

set_option maxRecDepth 4000 in
theorem not_isWordPart_of_isBlank {c : Char} (h : isBlank c = true) : isWordPart c = false :=
  not_of_isWithin (by decide +kernel) h

theorem not_isBlank_of_isWordPart {c : Char} (h : isWordPart c = true) : isBlank c = false := by
  rw [← Bool.not_eq_true]
  intro hb
  rw [not_isWordPart_of_isBlank hb] at h
  cases h

theorem isWordPart_of_isWordStart {c : Char} (h : isWordStart c = true) : isWordPart c = true := by
  simp only [isWordStart, isWordPart, Bool.or_eq_true] at h ⊢
  exact Or.inl h

theorem isWithin_of_isDigit {c : Char} (h : c.isDigit = true) : isWithin [(48, 57)] c = true := by
  simp only [Char.isDigit, Bool.and_eq_true, decide_eq_true_eq, ge_iff_le, UInt32.le_iff_toNat_le] at h
  simpa [isWithin] using h

theorem not_isWordStart_of_isDigit {c : Char} (h : c.isDigit = true) : isWordStart c = false :=
  not_of_isWithin (by decide) (isWithin_of_isDigit h)

theorem not_isBlank_of_isDigit {c : Char} (h : c.isDigit = true) : isBlank c = false :=
  not_of_isWithin (by decide) (isWithin_of_isDigit h)

theorem not_isSign_of_isDigit {c : Char} (h : c.isDigit = true) : Lexeme.isSign c = false :=
  not_of_isWithin (by decide) (isWithin_of_isDigit h)

/-! ## Words -/

/-- A word: a letter or an underscore, then letters, numerals and underscores. -/
def isWord : Text → Bool
  | [] => false
  | c :: rest => isWordStart c && rest.all isWordPart

theorem isWord_cons {c : Char} {rest : Text} :
    isWord (c :: rest) = true ↔ isWordStart c = true ∧ ∀ x ∈ rest, isWordPart x = true := by
  simp [isWord]

theorem isWordPart_of_mem {t : Text} (h : isWord t = true) {x : Char} (hx : x ∈ t) :
    isWordPart x = true := by
  cases t with
  | nil => simp at hx
  | cons c rest =>
    obtain ⟨hc, hrest⟩ := isWord_cons.mp h
    rcases List.mem_cons.mp hx with rfl | hx
    · exact isWordPart_of_isWordStart hc
    · exact hrest x hx

/-- A word that is no operator. -/
def isName (t : Text) : Bool := isWord t && t ∉ Symbol.words

/-! ## Numbers -/

/-- At least one digit, and nothing else. -/
def isDigits (t : Text) : Bool := !t.isEmpty && t.all Char.isDigit

theorem isDigits_cons {c : Char} {rest : Text} :
    isDigits (c :: rest) = true ↔ c.isDigit = true ∧ ∀ x ∈ rest, x.isDigit = true := by
  simp [isDigits]

theorem exists_cons_of_isDigits {t : Text} (h : isDigits t = true) :
    ∃ c rest, t = c :: rest ∧ c.isDigit = true ∧ ∀ x ∈ rest, x.isDigit = true := by
  cases t with
  | nil => simp [isDigits] at h
  | cons c rest => exact ⟨c, rest, rfl, isDigits_cons.mp h⟩

/-- The power of ten that a number ends with. -/
structure Power where
  /-- The letter `e` in capitals. -/
  capital : Bool
  /-- A sign, negative or not. -/
  sign : Option Bool
  digits : Text
  isDigits_digits : isDigits digits = true

def Power.mark (p : Power) : Char := if p.capital then 'E' else 'e'

/-- The sign of a power, as far as it is written. -/
def Power.signText (p : Power) : Text :=
  match p.sign with
  | none => []
  | some false => ['+']
  | some true => ['-']

def Power.text (p : Power) : Text := p.mark :: (p.signText ++ p.digits)

/-- A number that is written with a point or a power of ten, or both. -/
structure Decimal where
  whole : Text
  isDigits_whole : isDigits whole = true
  fraction : Option { t : Text // isDigits t = true }
  power : Option Power
  isSome_part : (fraction.isSome || power.isSome) = true

namespace Decimal

def fractionText (d : Decimal) : Text :=
  match d.fraction with
  | none => []
  | some digits => '.' :: digits.val

def powerText (d : Decimal) : Text := (d.power.map Power.text).getD []

def text (d : Decimal) : Text := d.whole ++ (d.fractionText ++ d.powerText)

end Decimal

/-! ## Strings -/

/-- A string literal: the quote around it, and each character in it with or without a backslash. -/
structure Literal where
  /-- Double quotes, or else single ones. -/
  double : Bool
  /-- The characters, with `true` for those after a backslash. -/
  inside : List (Bool × Char)
  /-- Backslashes and quotes stand only after a backslash. -/
  closed : ∀ c, (false, c) ∈ inside → c ≠ '\\' ∧ c ≠ (if double then '"' else '\x27')

namespace Literal

def quote (l : Literal) : Char := if l.double then '"' else '\x27'

/-- A character of a literal as it is written. -/
def partText : Bool × Char → Text
  | (true, c) => ['\\', c]
  | (false, c) => [c]

def insideText (l : Literal) : Text := l.inside.flatMap partText

def text (l : Literal) : Text := l.quote :: (l.insideText ++ [l.quote])

/-- What a character of a literal stands for. -/
def partValue (quote : Char) : Bool × Char → Text
  | (true, c) => Token.escaped quote c
  | (false, c) => [c]

/-- The string that a literal stands for. -/
def value (l : Literal) : Text := l.inside.flatMap (partValue l.quote)

theorem unescape_parts (quote : Char) : ∀ (parts : List (Bool × Char)),
    (∀ c, (false, c) ∈ parts → c ≠ '\\') →
    Token.unescape quote (parts.flatMap partText) = parts.flatMap (partValue quote)
  | [], _ => rfl
  | (true, c) :: more, h => by
    have ih := unescape_parts quote more fun c hc => h c (List.mem_cons_of_mem _ hc)
    simp [partText, partValue, Token.unescape, ih]
  | (false, c) :: more, h => by
    have ih := unescape_parts quote more fun c hc => h c (List.mem_cons_of_mem _ hc)
    have hc : c ≠ '\\' := h c List.mem_cons_self
    simp only [List.flatMap_cons, partText, partValue, List.cons_append, List.nil_append]
    rw [Token.unescape.eq_4 _ _ _ (fun e _ => hc e) (fun _ _ e _ => hc e), ih]

theorem quote_lt (l : Literal) : l.quote.toNat < 0x80 := by
  unfold quote
  split <;> decide

theorem unquote?_token (l : Literal) (space : Text) (line : Nat) :
    Token.unquote? { kind := .quoted, text := l.text, space, line } = some l.value := by
  have hq := l.quote_lt
  have hv := unescape_parts l.quote l.inside fun c hc => (l.closed c hc).1
  obtain ⟨next, rest, htail⟩ := List.exists_cons_of_ne_nil (l := l.insideText ++ [l.quote]) (by simp)
  have hlast : (next :: rest).getLast? = some l.quote := by rw [← htail]; simp
  have hinit : (next :: rest).dropLast = l.insideText := by rw [← htail]; simp
  simp only [Token.unquote?, text, htail, hlast, hinit]
  simp [hq, value, ← hv, insideText]

end Literal

/-! ## Kinds -/

/-- The symbols of an expression; braces belong to tags. -/
def innerSymbols : List Text := Symbol.spellings.filter (· ∉ [['\x7b'], ['\x7d']])

/-- The text can be that of a token of the kind. -/
inductive Spells : Kind → Text → Prop
  | dollar {name : Text} (h : isWord name = true) : Spells .variable ('$' :: name)
  | name {t : Text} (h : isName t = true) : Spells .name t
  | integer {t : Text} (h : isDigits t = true) : Spells .integer t
  | float (d : Decimal) : Spells .float d.text
  | quoted (l : Literal) : Spells .quoted l.text
  | word {t : Text} (h : t ∈ Symbol.words) : Spells (.symbol t) t
  | symbol {t : Text} (h : t ∈ innerSymbols) : Spells (.symbol t) t

/--
A token of the kind cannot go on in this text. White space breaks off every token, and a colon
every token but the colon itself.
-/
def breaks (k : Kind) : Text → Bool
  | [] => true
  | c :: _ => isBlank c || (c = ':' && k ≠ .symbol [':'])

theorem breaks_of_blank {k : Kind} {c : Char} {rest : Text} (h : isBlank c = true) :
    breaks k (c :: rest) = true := by
  simp [breaks, h]

theorem head_of_breaks {k : Kind} {p : Char → Bool} (hblank : ∀ c, isBlank c = true → p c = false)
    (hcolon : p ':' = false) {follow : Text} (h : breaks k follow = true) :
    ∀ c ∈ follow.head?, p c = false := by
  intro c hc
  cases follow with
  | nil => simp at hc
  | cons x rest =>
    obtain rfl : x = c := by simpa using hc
    simp only [breaks, Bool.or_eq_true, Bool.and_eq_true, decide_eq_true_eq] at h
    rcases h with h | ⟨rfl, _⟩
    · exact hblank x h
    · exact hcolon

theorem ne_of_breaks {k : Kind} {x : Char} (hblank : isBlank x = false) (hcolon : x ≠ ':')
    {follow : Text} (h : breaks k follow = true) : ∀ c ∈ follow.head?, c ≠ x := by
  have := head_of_breaks (p := (· == x)) (fun c hc => ?_) (by simpa using hcolon.symm) h
  · simpa using this
  · rw [beq_eq_false_iff_ne]
    rintro rfl
    rw [hblank] at hc
    cases hc

namespace Lexeme

/-! ## Finding a spelling again -/

theorem takeWhile_append_stop {p : Char → Bool} (t : Text) {follow : Text}
    (hf : ∀ c ∈ follow.head?, p c = false) : (t ++ follow).takeWhile p = t.takeWhile p := by
  induction t with
  | nil => cases follow <;> simp_all
  | cons c t ih => by_cases hc : p c = true <;> simp_all

theorem dropWhile_append_stop {p : Char → Bool} (t : Text) {follow : Text}
    (hf : ∀ c ∈ follow.head?, p c = false) :
    (t ++ follow).dropWhile p = t.dropWhile p ++ follow := by
  induction t with
  | nil => cases follow <;> simp_all
  | cons c t ih => by_cases hc : p c = true <;> simp_all

theorem takeWhile_append_of_stop {p : Char → Bool} {t follow : Text} (h : ∀ x ∈ t, p x = true)
    (hf : ∀ c ∈ follow.head?, p c = false) : (t ++ follow).takeWhile p = t := by
  rw [takeWhile_append_stop t hf, List.takeWhile_eq_self_iff.mpr h]

theorem dropWhile_append_of_stop {p : Char → Bool} {t follow : Text} (h : ∀ x ∈ t, p x = true)
    (hf : ∀ c ∈ follow.head?, p c = false) : (t ++ follow).dropWhile p = follow := by
  rw [dropWhile_append_stop t hf, List.dropWhile_eq_nil_iff.mpr h, List.nil_append]

theorem span_append_of_stop (kind : Kind) {p : Char → Bool} {t follow : Text}
    (h : ∀ x ∈ t, p x = true) (hf : ∀ c ∈ follow.head?, p c = false) :
    span kind p (t ++ follow) = ⟨kind, t, follow⟩ := by
  rw [span, takeWhile_append_of_stop h hf, dropWhile_append_of_stop h hf]

theorem isWordPart_head_of_breaks {k : Kind} {follow : Text} (h : breaks k follow = true) :
    ∀ c ∈ follow.head?, isWordPart c = false :=
  head_of_breaks (fun _ => not_isWordPart_of_isBlank) (by decide) h

theorem isDigit_head_of_breaks {k : Kind} {follow : Text} (h : breaks k follow = true) :
    ∀ c ∈ follow.head?, c.isDigit = false :=
  head_of_breaks (fun _ => not_of_isWithin (by decide)) (by decide) h

/-! ### Words -/

theorem word_append {c : Char} {rest follow : Text} (h : ∀ x ∈ rest, isWordPart x = true)
    (hf : ∀ x ∈ follow.head?, isWordPart x = false) :
    word c (rest ++ follow) =
      ⟨if c :: rest ∈ Symbol.words then .symbol (c :: rest) else .name, rest, follow⟩ := by
  rw [word, takeWhile_append_of_stop h hf, span_append_of_stop _ h hf]

theorem first_dollar {c : Char} (h : isWordStart c = true) (t : Text) :
    first '$' (c :: t) = span .variable isWordPart (c :: t) := by
  simp [first, h]

theorem first_wordStart {c : Char} (h : isWordStart c = true) (t : Text) : first c t = word c t := by
  have hd : c ≠ '$' := by
    rintro rfl
    revert h
    decide
  simp [first, hd, h]

/-! ### Numbers -/

theorem first_digit {c : Char} (h : c.isDigit = true) (t : Text) : first c t = number t := by
  have hd : c ≠ '$' := by
    rintro rfl
    revert h
    decide
  simp [first, hd, not_isWordStart_of_isDigit h, h]

theorem fraction?_eq_none {t : Text} (h : ∀ c ∈ t.head?, c ≠ '.') : fraction? t = none := by
  unfold fraction?
  split
  · exact absurd rfl (h '.' rfl)
  · rfl

theorem exponent?_eq_none {t : Text} (h : ∀ c ∈ t.head?, isExponentMark c = false) :
    exponent? t = none := by
  unfold exponent?
  split
  · simp [h _ rfl]
  · simp [h _ rfl]
  · rfl

theorem fraction?_append_of_stop {digits follow : Text} (h : isDigits digits = true)
    (hf : ∀ c ∈ follow.head?, c.isDigit = false) :
    fraction? ('.' :: (digits ++ follow)) = some ('.' :: digits, follow) := by
  obtain ⟨d, rest, rfl, hd, hrest⟩ := exists_cons_of_isDigits h
  simp only [List.cons_append, fraction?, hd, if_true]
  rw [takeWhile_append_of_stop hrest hf, dropWhile_append_of_stop hrest hf]

theorem exponent?_append_of_stop (p : Power) {follow : Text}
    (hf : ∀ c ∈ follow.head?, c.isDigit = false) :
    exponent? (p.text ++ follow) = some (p.text, follow) := by
  obtain ⟨d, rest, hp, hd, hrest⟩ := exists_cons_of_isDigits p.isDigits_digits
  have hmark : isExponentMark p.mark = true := by
    unfold Power.mark
    split <;> decide
  have hfirst : (d :: (rest ++ follow)).takeWhile Char.isDigit = d :: rest := by
    simp [hd, takeWhile_append_of_stop hrest hf]
  have hlast : (rest ++ follow).dropWhile Char.isDigit = follow := dropWhile_append_of_stop hrest hf
  have htake : (rest ++ follow).takeWhile Char.isDigit = rest := takeWhile_append_of_stop hrest hf
  unfold Power.text Power.signText
  rw [hp]
  split
  · -- Without a sign the second character is a digit, and perhaps the last one.
    simp only [List.nil_append, List.cons_append]
    cases hr : rest ++ follow with
    | nil =>
      obtain ⟨rfl, rfl⟩ := List.append_eq_nil_iff.mp hr
      simp [exponent?, hmark, hd]
    | cons x t =>
      rw [hr] at htake hlast
      simp only [exponent?, hmark, hd, not_isSign_of_isDigit hd, Bool.and_false, Bool.false_and,
        Bool.true_and, Bool.false_eq_true, if_false, if_true]
      rw [htake, hlast]
  · simp only [List.cons_append, List.nil_append, exponent?, hmark, hd]
    simp [isSign, htake, hlast]
  · simp only [List.cons_append, List.nil_append, exponent?, hmark, hd]
    simp [isSign, htake, hlast]

theorem fraction?_of_breaks {k : Kind} {follow : Text} (h : breaks k follow = true) :
    fraction? follow = none :=
  fraction?_eq_none (ne_of_breaks (by decide) (by decide) h)

theorem exponent?_of_breaks {k : Kind} {follow : Text} (h : breaks k follow = true) :
    exponent? follow = none :=
  exponent?_eq_none (head_of_breaks (fun _ => not_of_isWithin (by decide)) (by decide) h)

theorem number_integer {rest follow : Text} (h : ∀ x ∈ rest, x.isDigit = true) {k : Kind}
    (hf : breaks k follow = true) : number (rest ++ follow) = ⟨.integer, rest, follow⟩ := by
  have hd := isDigit_head_of_breaks hf
  simp [number, takeWhile_append_of_stop h hd, dropWhile_append_of_stop h hd, optional,
    fraction?_of_breaks hf, exponent?_of_breaks hf]

theorem optional_fraction (d : Decimal) {follow : Text}
    (hdigit : ∀ c ∈ follow.head?, c.isDigit = false) (hpoint : ∀ c ∈ follow.head?, c ≠ '.') :
    optional fraction? (d.fractionText ++ follow) = (d.fractionText, follow, d.fraction.isSome) := by
  unfold Decimal.fractionText
  split
  · rename_i h
    simp [optional, fraction?_eq_none hpoint, h]
  · rename_i digits h
    simp [optional, fraction?_append_of_stop digits.property hdigit, h]

theorem optional_power (d : Decimal) {k : Kind} {follow : Text} (h : breaks k follow = true) :
    optional exponent? (d.powerText ++ follow) = (d.powerText, follow, d.power.isSome) := by
  unfold Decimal.powerText
  cases hp : d.power with
  | none => simp [optional, exponent?_of_breaks h]
  | some p => simp [optional, exponent?_append_of_stop p (isDigit_head_of_breaks h)]

theorem isDigit_head_powerText (d : Decimal) {k : Kind} {follow : Text} (h : breaks k follow = true) :
    ∀ c ∈ (d.powerText ++ follow).head?, c.isDigit = false ∧ c ≠ '.' := by
  unfold Decimal.powerText
  cases d.power with
  | none =>
    simp only [Option.map_none, Option.getD_none, List.nil_append]
    intro c hc
    exact ⟨isDigit_head_of_breaks h c hc, ne_of_breaks (by decide) (by decide) h c hc⟩
  | some p =>
    intro c hc
    obtain rfl : p.mark = c := by simpa [Power.text] using hc
    unfold Power.mark
    split <;> decide

theorem isDigit_head_fractionText (d : Decimal) {k : Kind} {follow : Text}
    (h : breaks k follow = true) :
    ∀ c ∈ (d.fractionText ++ (d.powerText ++ follow)).head?, c.isDigit = false := by
  unfold Decimal.fractionText
  split
  · intro c hc
    exact (isDigit_head_powerText d h c hc).1
  · intro c hc
    obtain rfl : '.' = c := by simpa using hc
    decide

theorem number_decimal (d : Decimal) {c : Char} {tail : Text} (ht : d.text = c :: tail) {k : Kind}
    {follow : Text} (hf : breaks k follow = true) :
    c.isDigit = true ∧ number (tail ++ follow) = ⟨.float, tail, follow⟩ := by
  obtain ⟨x, rest, hw, hx, hrest⟩ := exists_cons_of_isDigits d.isDigits_whole
  rw [Decimal.text, hw, List.cons_append, List.cons.injEq] at ht
  obtain ⟨rfl, rfl⟩ := ht
  have hpower := isDigit_head_powerText d hf
  have hfraction := isDigit_head_fractionText d hf
  have hsome := d.isSome_part
  refine ⟨hx, ?_⟩
  simp only [number, List.append_assoc]
  rw [takeWhile_append_of_stop hrest hfraction, dropWhile_append_of_stop hrest hfraction,
    optional_fraction d (fun c hc => (hpower c hc).1) (fun c hc => (hpower c hc).2)]
  simp only [optional_power d hf, hsome, if_true]

/-! ### Strings -/

theorem closeQuote?_parts {quote : Char} (hquote : quote ≠ '\\') (follow : Text) :
    ∀ (parts : List (Bool × Char)), (∀ c, (false, c) ∈ parts → c ≠ '\\' ∧ c ≠ quote) →
    closeQuote? quote (parts.flatMap Literal.partText ++ quote :: follow) =
      some (parts.flatMap Literal.partText ++ [quote], follow)
  | [], _ => by
    rw [List.flatMap_nil, List.nil_append,
      closeQuote?.eq_4 _ _ _ (fun e _ => hquote e) (fun _ _ e _ => hquote e)]
    simp
  | (true, c) :: more, h => by
    have ih := closeQuote?_parts hquote follow more fun c hc => h c (List.mem_cons_of_mem _ hc)
    simp [Literal.partText, closeQuote?, ih]
  | (false, c) :: more, h => by
    have ih := closeQuote?_parts hquote follow more fun c hc => h c (List.mem_cons_of_mem _ hc)
    obtain ⟨hslash, hc⟩ := h c List.mem_cons_self
    simp only [List.flatMap_cons, Literal.partText, List.cons_append, List.nil_append]
    rw [closeQuote?.eq_4 _ _ _ (fun e _ => hslash e) (fun _ _ e _ => hslash e), if_neg hc, ih]
    rfl

theorem string_literal (l : Literal) (follow : Text) :
    string l.quote (l.insideText ++ [l.quote] ++ follow) =
      ⟨.quoted, l.insideText ++ [l.quote], follow⟩ := by
  have hquote : l.quote ≠ '\\' := by
    unfold Literal.quote
    split <;> decide
  have h := closeQuote?_parts hquote follow l.inside l.closed
  simp only [Literal.insideText, List.append_assoc, List.singleton_append] at h ⊢
  simp only [string, h]

theorem first_quote (l : Literal) (t : Text) : first l.quote t = string l.quote t := by
  unfold Literal.quote first
  split <;> rfl

/-! ### Symbols -/

theorem isPrefixOf_append {x : Char} : ∀ {p s follow : Text},
    p.isPrefixOf (s ++ x :: follow) = true → p.isPrefixOf s = true ∨ s ++ [x] <+: p
  | [], _, _, _ => Or.inl rfl
  | a :: p, [], follow, h => by
    simp only [List.nil_append, List.isPrefixOf, Bool.and_eq_true, beq_iff_eq] at h
    obtain ⟨rfl, _⟩ := h
    exact Or.inr ⟨p, by simp⟩
  | a :: p, b :: s, follow, h => by
    simp only [List.cons_append, List.isPrefixOf, Bool.and_eq_true, beq_iff_eq] at h
    obtain ⟨rfl, h⟩ := h
    rcases isPrefixOf_append h with h | ⟨t, rfl⟩
    · exact Or.inl (by simp [List.isPrefixOf, h])
    · exact Or.inr ⟨t, by simp⟩

theorem isPrefixOf_append_of_isPrefixOf {p s : Text} (h : p.isPrefixOf s = true) (follow : Text) :
    p.isPrefixOf (s ++ follow) = true := by
  rw [List.isPrefixOf_iff_prefix] at h ⊢
  exact h.trans (List.prefix_append s follow)

/-- The symbols go from the longest to the shortest, so each finds itself. -/
theorem find?_spelling : ∀ s ∈ Symbol.spellings,
    Symbol.spellings.find? (·.isPrefixOf s) = some s := by
  decide

theorem not_isBlank_of_mem_spelling : ∀ s ∈ Symbol.spellings, ∀ x ∈ s, isBlank x = false := by
  have hall : ∀ s ∈ Symbol.spellings, s.any isBlank = false := by decide
  intro s hs x hx
  simpa using List.any_eq_false.mp (hall s hs) x hx

theorem colon_mem_spelling : ∀ s ∈ Symbol.spellings, s ≠ [':'] →
    ∀ p ∈ Symbol.spellings, ¬ (s ++ [':']).isPrefixOf p = true := by
  decide

theorem not_prefix_of_breaks {s p : Text} {x : Char} {follow : Text} (hs : s ∈ Symbol.spellings)
    (hp : p ∈ Symbol.spellings) (hf : breaks (.symbol s) (x :: follow) = true) : ¬ s ++ [x] <+: p := by
  intro h
  simp only [breaks, Bool.or_eq_true, Bool.and_eq_true, decide_eq_true_eq] at hf
  rcases hf with hf | ⟨rfl, hne⟩
  · have hx : x ∈ p := h.subset (by simp)
    rw [not_isBlank_of_mem_spelling p hp x hx] at hf
    cases hf
  · have hne : s ≠ [':'] := fun he => hne (by rw [he])
    exact colon_mem_spelling s hs hne p hp (List.isPrefixOf_iff_prefix.mpr h)

theorem find?_symbol {s follow : Text} (hs : s ∈ Symbol.spellings)
    (hf : breaks (.symbol s) follow = true) :
    Symbol.spellings.find? (·.isPrefixOf (s ++ follow)) = some s := by
  rw [← find?_spelling s hs]
  apply List.find?_congr
  intro p hp
  rw [Bool.eq_iff_iff]
  constructor
  · intro h
    cases follow with
    | nil => simpa using h
    | cons x follow =>
      rcases isPrefixOf_append h with h | h
      · exact h
      · exact absurd h (not_prefix_of_breaks hs hp hf)
  · intro h
    exact isPrefixOf_append_of_isPrefixOf h follow

/-- No symbol starts like a token of another kind, apart from a comment. -/
theorem first_symbol {c : Char} {tail : Text} (h : c :: tail ∈ Symbol.spellings) :
    c ≠ '$' ∧ isWordStart c = false ∧ c.isDigit = false ∧ c ≠ '"' ∧ c ≠ '\x27' ∧
      (c = '/' → tail.head? ≠ some '*') := by
  have hall : ∀ s ∈ Symbol.spellings, s.head?.all (fun c => decide (c ≠ '$' ∧
      isWordStart c = false ∧ c.isDigit = false ∧ c ≠ '"' ∧ c ≠ '\x27' ∧
      (c = '/' → s.tail.head? ≠ some '*'))) = true := by decide
  exact of_decide_eq_true (hall _ h)

theorem symbol_append_of_breaks {c : Char} {tail follow : Text} (hs : c :: tail ∈ Symbol.spellings)
    (hf : breaks (.symbol (c :: tail)) follow = true) :
    first c (tail ++ follow) = ⟨.symbol (c :: tail), tail, follow⟩ := by
  obtain ⟨hdollar, hword, hdigit, hdouble, hsingle, hslash⟩ := first_symbol hs
  have hstar : ∀ c ∈ follow.head?, c ≠ '*' := ne_of_breaks (by decide) (by decide) hf
  have hfind := find?_symbol hs hf
  simp only [List.cons_append] at hfind
  have hsymbol : symbol c (tail ++ follow) = ⟨.symbol (c :: tail), tail, follow⟩ := by
    simp [symbol, hfind]
  simp only [first, hdollar, hword, hdigit, hdouble, hsingle, decide_false, Bool.false_and,
    Bool.false_eq_true, if_false, Bool.or_false]
  split
  · rename_i inside ht
    exfalso
    cases tail with
    | nil =>
      rw [List.nil_append] at ht
      exact hstar '*' (by rw [ht]; rfl) rfl
    | cons x rest =>
      rw [List.cons_append, List.cons.injEq] at ht
      exact hslash rfl (by simp [ht.1])
  · exact hsymbol

/-! ### All kinds -/

theorem first_of_spells {k : Kind} {t : Text} (h : Spells k t) :
    ∃ c tail, t = c :: tail ∧ isBlank c = false ∧
      ∀ follow, breaks k follow = true → first c (tail ++ follow) = ⟨k, tail, follow⟩ := by
  cases h with
  | @dollar name h =>
    refine ⟨'$', name, rfl, by decide, ?_⟩
    intro follow hf
    have hparts : ∀ x ∈ name, isWordPart x = true := fun x hx => isWordPart_of_mem h hx
    cases name with
    | nil => simp [isWord] at h
    | cons c rest =>
      have hc := (isWord_cons.mp h).1
      rw [List.cons_append, first_dollar hc, ← List.cons_append,
        span_append_of_stop _ hparts (isWordPart_head_of_breaks hf)]
  | name h =>
    simp only [isName, Bool.and_eq_true, decide_eq_true_eq] at h
    obtain ⟨h, hoperator⟩ := h
    cases t with
    | nil => simp [isWord] at h
    | cons c rest =>
      obtain ⟨hc, hrest⟩ := isWord_cons.mp h
      refine ⟨c, rest, rfl, not_isBlank_of_isWordPart (isWordPart_of_isWordStart hc), ?_⟩
      intro follow hf
      rw [first_wordStart hc, word_append hrest (isWordPart_head_of_breaks hf), if_neg hoperator]
  | integer h =>
    obtain ⟨c, rest, rfl, hc, hrest⟩ := exists_cons_of_isDigits h
    refine ⟨c, rest, rfl, not_isBlank_of_isDigit hc, ?_⟩
    intro follow hf
    rw [first_digit hc, number_integer hrest hf]
  | float d =>
    obtain ⟨c, tail, ht⟩ := List.exists_cons_of_ne_nil (l := d.text) (by
      obtain ⟨x, rest, hw, -⟩ := exists_cons_of_isDigits d.isDigits_whole
      simp [Decimal.text, hw])
    refine ⟨c, tail, ht, ?_, ?_⟩
    · have hend : breaks .float [] = true := rfl
      exact not_isBlank_of_isDigit (number_decimal d ht hend).1
    · intro follow hf
      obtain ⟨hc, hn⟩ := number_decimal d ht hf
      rw [first_digit hc, hn]
  | quoted l =>
    refine ⟨l.quote, l.insideText ++ [l.quote], rfl, ?_, ?_⟩
    · unfold Literal.quote
      split <;> decide
    · intro follow _
      rw [first_quote, string_literal]
  | word h =>
    have hword : ∀ s ∈ Symbol.words, isWord s = true := by decide
    have hw := hword t h
    cases t with
    | nil => simp [isWord] at hw
    | cons c rest =>
      obtain ⟨hc, hrest⟩ := isWord_cons.mp hw
      refine ⟨c, rest, rfl, not_isBlank_of_isWordPart (isWordPart_of_isWordStart hc), ?_⟩
      intro follow hf
      rw [first_wordStart hc, word_append hrest (isWordPart_head_of_breaks hf), if_pos h]
  | symbol h =>
    have h := (List.mem_filter.mp h).1
    have hfilled : ∀ s ∈ Symbol.spellings, s ≠ [] := by decide
    obtain ⟨c, tail, rfl⟩ := List.exists_cons_of_ne_nil (hfilled t h)
    refine ⟨c, tail, rfl, not_isBlank_of_mem_spelling _ h c List.mem_cons_self, ?_⟩
    intro follow hf
    exact symbol_append_of_breaks h hf

end Lexeme

end Stencil
