import Mathlib.Data.List.Forall2
import Stencil.Proofs.Spelling
import Stencil.Script.Step
import Stencil.Statement

/-!
# Code as forms

The code of an expression is read back as one form, if every name in it is an atom. Text in quotes
is read back whatever it holds, and none of it breaks a line.
-/

namespace Stencil

/-! ## Quotes -/

namespace Quoted

theorem mem_shortEscapes {c letter : Char} (h : shortEscapes.lookup c = some letter) :
    (c, letter) ∈ shortEscapes := by
  obtain ⟨before, after, heq, -⟩ := List.lookup_eq_some_iff.mp h
  rw [heq]
  simp

theorem ne_of_lookup_eq_none {c : Char} (h : shortEscapes.lookup c = none) {x : Char}
    (hx : x ∈ shortEscapes.map Prod.fst) : c ≠ x := by
  rintro rfl
  obtain ⟨e, he, rfl⟩ := List.mem_map.mp hx
  have := List.lookup_eq_none_iff.mp h e he
  simp at this

theorem escape_cases (c : Char) :
    (∃ letter, (c, letter) ∈ shortEscapes ∧ escape c = ['\\', letter]) ∨
    (c.toNat < 0x20 ∧ escape c =
      ['\\', 'u', '0', '0', hexDigit (c.toNat / 16), hexDigit (c.toNat % 16)]) ∨
    (0x20 ≤ c.toNat ∧ c ≠ '"' ∧ c ≠ '\\' ∧ escape c = [c]) := by
  unfold escape
  cases h : shortEscapes.lookup c with
  | some letter => exact .inl ⟨letter, mem_shortEscapes h, rfl⟩
  | none =>
    by_cases hc : c.toNat < 0x20
    · exact .inr (.inl ⟨hc, by simp [hc]⟩)
    · have hquote : c ≠ '"' := ne_of_lookup_eq_none h (by decide)
      have hslash : c ≠ '\\' := ne_of_lookup_eq_none h (by decide)
      exact .inr (.inr ⟨by omega, hquote, hslash, by simp [hc]⟩)

theorem hexDigit_ne : ∀ n < 16, hexDigit n ≠ '"' ∧ hexDigit n ≠ '\\' := by decide

theorem hexValue?_hexDigit : ∀ n < 16, hexValue? (hexDigit n) = some n := by decide

theorem close?_cons {c : Char} (hquote : c ≠ '"') (hslash : c ≠ '\\') (rest : Text) :
    close? (c :: rest) = (close? rest).map fun (inside, rest) => (c :: inside, rest) := by
  simp [close?, hslash]

theorem close?_backslash (c : Char) (rest : Text) :
    close? ('\\' :: c :: rest) =
      (close? rest).map fun (inside, rest) => ('\\' :: c :: inside, rest) := by
  simp [close?]

theorem close?_escape (c : Char) (rest : Text) :
    close? (escape c ++ rest) =
      (close? rest).map fun (inside, rest) => (escape c ++ inside, rest) := by
  rcases escape_cases c with ⟨letter, -, h⟩ | ⟨hc, h⟩ | ⟨-, hquote, hslash, h⟩
  · rw [h]
    rfl
  · have hhigh := hexDigit_ne (c.toNat / 16) (by omega)
    have hlow := hexDigit_ne (c.toNat % 16) (by omega)
    rw [h]
    simp only [List.cons_append, List.nil_append]
    rw [close?_backslash, close?_cons (by decide) (by decide), close?_cons (by decide) (by decide),
      close?_cons hhigh.1 hhigh.2, close?_cons hlow.1 hlow.2]
    simp [Function.comp_def]
  · rw [h]
    exact close?_cons hquote hslash rest

theorem close?_escapes (t rest : Text) :
    close? (t.flatMap escape ++ '"' :: rest) = some (t.flatMap escape, rest) := by
  induction t with
  | nil => rfl
  | cons c t ih =>
    rw [List.flatMap_cons, List.append_assoc, close?_escape, ih]
    rfl

theorem hex4?_of_lt {n : Nat} (h : n < 0x20) :
    hex4? '0' '0' (hexDigit (n / 16)) (hexDigit (n % 16)) = some n := by
  unfold hex4?
  rw [hexValue?_hexDigit _ (by omega), hexValue?_hexDigit _ (by omega)]
  simp [hexValue?]
  omega

theorem unescape?_letter {letter c : Char} (h : unescapeLetter? letter = some c) (rest : Text) :
    unescape? ('\\' :: letter :: rest) = (unescape? rest).map (c :: ·) := by
  have hu : letter ≠ 'u' := by
    rintro rfl
    simp [unescapeLetter?] at h
  cases hr : unescape? rest <;> simp [unescape?, h, hu, hr]

theorem unescape?_hex {a b c d : Char} {n : Nat} (h : hex4? a b c d = some n) (hn : n < 0xD800)
    (rest : Text) : unescape? ('\\' :: 'u' :: a :: b :: c :: d :: rest) =
      (unescape? rest).map (Char.ofNat n :: ·) := by
  have hhigh : ¬ (0xD800 ≤ n ∧ n ≤ 0xDBFF) := by omega
  have hlow : ¬ (0xDC00 ≤ n ∧ n ≤ 0xDFFF) := by omega
  cases hr : unescape? rest <;> simp [unescape?, h, hhigh, hlow, hr]

theorem unescape?_escape (c : Char) (rest : Text) :
    unescape? (escape c ++ rest) = (unescape? rest).map (c :: ·) := by
  rcases escape_cases c with ⟨letter, hmem, h⟩ | ⟨hc, h⟩ | ⟨hc, hquote, hslash, h⟩
  · rw [h]
    have hall : ∀ e ∈ shortEscapes, unescapeLetter? e.2 = some e.1 := by decide
    exact unescape?_letter (hall _ hmem) rest
  · rw [h]
    have hhex := unescape?_hex (hex4?_of_lt hc) (by omega) rest
    rw [Char.ofNat_toNat] at hhex
    exact hhex
  · have hcontrol : ¬ c.toNat < 0x20 := by omega
    rw [h]
    simp [unescape?, hslash, hquote, hcontrol]

theorem unescape?_escapes (t : Text) : unescape? (t.flatMap escape) = some t := by
  induction t with
  | nil => rfl
  | cons c t ih =>
    rw [List.flatMap_cons, unescape?_escape, ih]
    rfl

end Quoted

/-! ## Reading forms -/

namespace Form

/-- One atom, and nothing that would start a string. -/
def isAtom : Text → Bool
  | [] => false
  | c :: rest => c != '"' && isAtomPart c && rest.all isAtomPart

/-- In front of anything that ends an atom, the text is read as the form. -/
def Reads (t : Text) (f : Form) : Prop :=
  ∀ outer done rest, (∀ c ∈ rest.head?, isAtomPart c = false) →
    readFrom outer done (t ++ rest) = readFrom outer (f :: done) rest

/-- In front of anything that ends an atom, the text is read as these forms. -/
def ReadsAll (t : Text) (forms : List Form) : Prop :=
  ∀ outer done rest, (∀ c ∈ rest.head?, isAtomPart c = false) →
    readFrom outer done (t ++ rest) = readFrom outer (forms.reverse ++ done) rest

section Steps

variable {c : Char} {t : Text} (outer : List (List Form)) (done : List Form)

theorem readFrom_nil : readFrom [] done [] = some done.reverse := by
  rw [readFrom.eq_def]
  rfl

theorem readFrom_blank (h : isBlank c = true) :
    readFrom outer done (c :: t) = readFrom outer done t := by
  rw [readFrom.eq_def]
  simp [h]

theorem readFrom_open : readFrom outer done ('(' :: t) = readFrom (done :: outer) [] t := by
  have hblank : isBlank '(' = false := by decide
  rw [readFrom.eq_def]
  simp [hblank]

theorem readFrom_close (around : List Form) :
    readFrom (around :: outer) done (')' :: t) =
      readFrom outer (.list done.reverse :: around) t := by
  have hblank : isBlank ')' = false := by decide
  rw [readFrom.eq_def]
  simp [hblank]

theorem readFrom_quote {inside rest value : Text} (hclose : Quoted.close? t = some (inside, rest))
    (hvalue : Quoted.unescape? inside = some value) :
    readFrom outer done ('"' :: t) = readFrom outer (.string value :: done) rest := by
  have hblank : isBlank '"' = false := by decide
  rw [readFrom.eq_def]
  simp only [hblank, Char.reduceEq, Bool.false_eq_true, if_false, if_true]
  split
  · simp_all
  · simp_all

theorem readFrom_atomPart (h : isAtomPart c = true) (hquote : c ≠ '"') :
    readFrom outer done (c :: t) =
      readFrom outer (.atom (c :: t.takeWhile isAtomPart) :: done) (t.dropWhile isAtomPart) := by
  have hc : isBlank c = false ∧ c ≠ '(' ∧ c ≠ ')' := by simpa [isAtomPart, and_assoc] using h
  rw [readFrom.eq_def]
  simp [hc.1, hc.2.1, hc.2.2, hquote]

end Steps

theorem space_not_mem_of_isAtom {t : Text} (h : isAtom t = true) : ' ' ∉ t := by
  intro hspace
  cases t with
  | nil => cases hspace
  | cons c t =>
    simp only [isAtom, Bool.and_eq_true, List.all_eq_true] at h
    have hpart : isAtomPart ' ' = true := by
      rcases List.mem_cons.mp hspace with rfl | hspace
      · exact h.1.2
      · exact h.2 ' ' hspace
    revert hpart
    decide

theorem reads_atom {t : Text} (h : isAtom t = true) : Reads t (.atom t) := by
  intro outer done rest hrest
  cases t with
  | nil => simp [isAtom] at h
  | cons c t =>
    simp only [isAtom, Bool.and_eq_true, List.all_eq_true, bne_iff_ne] at h
    obtain ⟨⟨hquote, hc⟩, ht⟩ := h
    rw [List.cons_append, readFrom_atomPart outer done hc hquote,
      Lexeme.takeWhile_append_of_stop ht hrest, Lexeme.dropWhile_append_of_stop ht hrest]

theorem reads_encode (t : Text) : Reads (Quoted.encode t) (.string t) := by
  intro outer done rest _
  rw [Quoted.encode, List.cons_append, List.append_assoc]
  exact readFrom_quote outer done (Quoted.close?_escapes t rest) (Quoted.unescape?_escapes t)

theorem readsAll_nil : ReadsAll [] [] := fun _ _ _ _ => rfl

theorem readsAll_of_reads {parts : List Text} {forms : List Form}
    (h : List.Forall₂ Reads parts forms) : List.Forall₂ ReadsAll parts (forms.map ([·])) :=
  List.forall₂_map_right_iff.mpr (h.imp fun _ _ hpart => hpart)

theorem readFrom_parts {parts : List Text} {forms : List (List Form)}
    (h : List.Forall₂ ReadsAll parts forms) (outer : List (List Form)) (done : List Form)
    {rest : Text} (hrest : ∀ c ∈ rest.head?, isAtomPart c = false) :
    readFrom outer done (parts.flatMap (' ' :: ·) ++ rest) =
      readFrom outer (forms.flatten.reverse ++ done) rest := by
  induction h generalizing done with
  | nil => rfl
  | @cons part f parts forms hpart hparts ih =>
    have hstop : ∀ c ∈ (parts.flatMap (' ' :: ·) ++ rest).head?, isAtomPart c = false := by
      cases parts with
      | nil => exact hrest
      | cons => simp; decide
    rw [List.flatMap_cons, List.cons_append, List.cons_append, readFrom_blank outer done (by decide),
      List.append_assoc, hpart outer done _ hstop, ih]
    simp

theorem reads_formAll {head : Text} (hhead : isAtom head = true) {parts : List Text}
    {forms : List (List Form)} (h : List.Forall₂ ReadsAll parts forms) :
    Reads (form head parts) (.list (.atom head :: forms.flatten)) := by
  intro outer done rest hrest
  have hstop : ∀ c ∈ (parts.flatMap (' ' :: ·) ++ (')' :: rest)).head?, isAtomPart c = false := by
    cases parts with
    | nil => simp; decide
    | cons => simp; decide
  rw [form, List.cons_append, readFrom_open, List.append_assoc, List.append_assoc,
    reads_atom hhead _ _ _ (by simpa using hstop)]
  rw [List.singleton_append, readFrom_parts h _ _ (by simp; decide), readFrom_close]
  simp

theorem reads_form {head : Text} (hhead : isAtom head = true) {parts : List Text}
    {forms : List Form} (h : List.Forall₂ Reads parts forms) :
    Reads (form head parts) (.list (.atom head :: forms)) := by
  have hform := reads_formAll hhead (readsAll_of_reads h)
  rwa [← List.flatMap_def, List.flatMap_singleton'] at hform

end Form

/-! ## Lines -/

/-- No character that ends a line. -/
def Text.OneLine (t : Text) : Prop := ∀ c ∈ t, c ≠ '\n' ∧ c ≠ '\r'

namespace Text

instance : DecidablePred OneLine := fun t => List.decidableBAll _ t

theorem OneLine.append {s t : Text} (hs : OneLine s) (ht : OneLine t) : OneLine (s ++ t) := by
  intro c hc
  rcases List.mem_append.mp hc with hc | hc
  · exact hs c hc
  · exact ht c hc

theorem OneLine.cons {c : Char} {t : Text} (hc : c ≠ '\n' ∧ c ≠ '\r') (ht : OneLine t) :
    OneLine (c :: t) := by
  intro x hx
  rcases List.mem_cons.mp hx with rfl | hx
  · exact hc
  · exact ht x hx

theorem OneLine.flatMap {α : Type} {xs : List α} {f : α → Text} (h : ∀ x ∈ xs, OneLine (f x)) :
    OneLine (xs.flatMap f) := by
  intro c hc
  obtain ⟨x, hx, hc⟩ := List.mem_flatMap.mp hc
  exact h x hx c hc

theorem lines_append {t : Text} (h : OneLine t) (rest : Text) :
    lines (t ++ '\n' :: rest) = t :: lines rest := by
  induction t with
  | nil => simp [lines]
  | cons c t ih =>
    have hc := h c (by simp)
    have htail := ih fun x hx => h x (by simp [hx])
    rw [List.cons_append, lines]
    · rw [htail]
    · exact hc.1
    · exact fun _ hr => absurd hr hc.2

theorem lines_eq {t : Text} (h : OneLine t) (ht : t ≠ []) : lines t = [t] := by
  induction t with
  | nil => exact absurd rfl ht
  | cons c t ih =>
    have hc := h c (by simp)
    rw [lines]
    · cases t with
      | nil => rfl
      | cons next t => rw [ih (fun x hx => h x (by simp [hx])) (by simp)]
    · exact hc.1
    · exact fun _ hr => absurd hr hc.2

theorem lines_flatMap {ls : List Text} (h : ∀ l ∈ ls, OneLine l) :
    lines (ls.flatMap (· ++ ['\n'])) = ls := by
  induction ls with
  | nil => rfl
  | cons l ls ih =>
    rw [List.flatMap_cons, List.append_assoc, List.singleton_append, lines_append (h l (by simp)),
      ih fun x hx => h x (by simp [hx])]

end Text

open Text (OneLine)

theorem Form.oneLine_of_isAtom {t : Text} (h : isAtom t = true) : OneLine t := by
  intro c hc
  have hpart : isAtomPart c = true := by
    cases t with
    | nil => simp at hc
    | cons x t =>
      simp only [isAtom, Bool.and_eq_true, List.all_eq_true] at h
      rcases List.mem_cons.mp hc with rfl | hc
      · exact h.1.2
      · exact h.2 c hc
  constructor <;> rintro rfl <;> revert hpart <;> decide

theorem Quoted.oneLine_encode (t : Text) : OneLine (encode t) := by
  have hletters : ∀ e ∈ shortEscapes, OneLine ['\\', e.2] := by decide
  have hdigits : ∀ n < 16, hexDigit n ≠ '\n' ∧ hexDigit n ≠ '\r' := by decide
  refine .cons (by decide) (.append (.flatMap fun c _ => ?_) (by decide))
  rcases escape_cases c with ⟨letter, hmem, h⟩ | ⟨hc, h⟩ | ⟨hc, -, -, h⟩
  · rw [h]
    exact hletters _ hmem
  · rw [h]
    have hfront : OneLine ['\\', 'u', '0', '0'] := by decide
    exact hfront.append (.cons (hdigits _ (by omega)) (.cons (hdigits _ (by omega)) (by decide)))
  · rw [h]
    refine .cons ⟨?_, ?_⟩ (by decide)
    · rintro rfl
      simp at hc
    · rintro rfl
      simp at hc

theorem oneLine_form {head : Text} (hhead : OneLine head) {parts : List Text}
    (h : ∀ part ∈ parts, OneLine part) : OneLine (form head parts) :=
  .cons (by decide) (hhead.append
    ((OneLine.flatMap fun part hpart => .cons (by decide) (h part hpart)).append (by decide)))

/-! ## Forms of expressions -/

namespace Expr

mutual

/-- All names and numbers of an expression are atoms. -/
def Clean : Expr → Prop
  | .number text | .constant text | .variable text => Form.isAtom text = true
  | .string _ => True
  | .member base _ | .property base _ | .count _ base => base.Clean
  | .item base text | .selected base text | .unary text base => Form.isAtom text = true ∧ base.Clean
  | .index left right | .fallback left right => left.Clean ∧ right.Clean
  | .binary operator left right => Form.isAtom operator = true ∧ left.Clean ∧ right.Clean
  | .method base _ arguments => base.Clean ∧ AllClean arguments
  | .call name arguments => Form.isAtom name = true ∧ AllClean arguments
  | .list items => AllClean items
  | .modified _ symbol value arguments =>
    Form.isAtom symbol = true ∧ value.Clean ∧ AllClean arguments
  | .choice condition yes no => condition.Clean ∧ yes.Clean ∧ no.Clean

def AllClean : List Expr → Prop
  | [] => True
  | e :: more => e.Clean ∧ AllClean more

end

mutual

/-- The form that the code of an expression is read as. -/
def form : Expr → Form
  | .number text | .constant text => .atom text
  | .string value => .string value
  | .variable name => .list [.atom "var", .atom name]
  | .member base name => .list [.atom "get", base.form, .string name]
  | .item base digits => .list [.atom "get", base.form, .atom digits]
  | .selected base name => .list [.atom "get", base.form, .list [.atom "var", .atom name]]
  | .index base key => .list [.atom "get", base.form, key.form]
  | .property base name => .list [.atom "prop", base.form, .string name]
  | .method base name arguments => .list (.atom "method" :: base.form :: .string name :: forms arguments)
  | .call name arguments => .list (.atom "fn" :: .atom name :: forms arguments)
  | .list items => .list (.atom "list" :: forms items)
  | .unary operator operand => .list [.atom operator, operand.form]
  | .count way target => .list [.atom way.head, target.form]
  | .binary operator left right => .list [.atom operator, left.form, right.form]
  | .modified _ symbol value arguments =>
    .list (.atom "mod" :: .atom symbol :: value.form :: forms arguments)
  | .choice condition yes no => .list [.atom "?", condition.form, yes.form, no.form]
  | .fallback value otherwise => .list [.atom "?:", value.form, otherwise.form]

def forms : List Expr → List Form
  | [] => []
  | e :: more => e.form :: forms more

end

open Form (Reads reads_atom reads_encode reads_form)

mutual

theorem reads_spelling : ∀ (e : Expr), e.Clean → Reads e.spelling e.form
  | .number _, h | .constant _, h => reads_atom h
  | .string value, _ => reads_encode value
  | .variable _, h => reads_form (by decide) (.cons (reads_atom h) .nil)
  | .member base name, h | .property base name, h =>
    reads_form (by decide) (.cons (reads_spelling base h) (.cons (reads_encode name) .nil))
  | .item base _, h =>
    reads_form (by decide) (.cons (reads_spelling base h.2) (.cons (reads_atom h.1) .nil))
  | .selected base _, h =>
    reads_form (by decide) (.cons (reads_spelling base h.2)
      (.cons (reads_form (by decide) (.cons (reads_atom h.1) .nil)) .nil))
  | .index left right, h | .fallback left right, h =>
    reads_form (by decide)
      (.cons (reads_spelling left h.1) (.cons (reads_spelling right h.2) .nil))
  | .method base name arguments, h =>
    reads_form (by decide) (.cons (reads_spelling base h.1)
      (.cons (reads_encode name) (reads_spellings arguments h.2)))
  | .call _ arguments, h =>
    reads_form (by decide) (.cons (reads_atom h.1) (reads_spellings arguments h.2))
  | .list items, h => reads_form (by decide) (reads_spellings items h)
  | .unary _ operand, h => reads_form h.1 (.cons (reads_spelling operand h.2) .nil)
  | .count way target, h =>
    reads_form (by cases way <;> decide) (.cons (reads_spelling target h) .nil)
  | .binary _ left right, h =>
    reads_form h.1 (.cons (reads_spelling left h.2.1) (.cons (reads_spelling right h.2.2) .nil))
  | .modified _ _ value arguments, h =>
    reads_form (by decide) (.cons (reads_atom h.1)
      (.cons (reads_spelling value h.2.1) (reads_spellings arguments h.2.2)))
  | .choice condition yes no, h =>
    reads_form (by decide) (.cons (reads_spelling condition h.1)
      (.cons (reads_spelling yes h.2.1) (.cons (reads_spelling no h.2.2) .nil)))

theorem reads_spellings : ∀ (es : List Expr), AllClean es →
    List.Forall₂ Reads (spellings es) (forms es)
  | [], _ => .nil
  | e :: more, h => .cons (reads_spelling e h.1) (reads_spellings more h.2)

end

mutual

theorem oneLine_spelling : ∀ (e : Expr), e.Clean → OneLine e.spelling
  | .number _, h | .constant _, h => Form.oneLine_of_isAtom h
  | .string value, _ => Quoted.oneLine_encode value
  | .variable _, h => oneLine_form (by decide) (by simpa using Form.oneLine_of_isAtom h)
  | .member base name, h | .property base name, h =>
    oneLine_form (by decide) (by simpa using ⟨oneLine_spelling base h, Quoted.oneLine_encode name⟩)
  | .item base _, h =>
    oneLine_form (by decide) (by simpa using ⟨oneLine_spelling base h.2, Form.oneLine_of_isAtom h.1⟩)
  | .selected base _, h => by
    have hname := Form.oneLine_of_isAtom h.1
    refine oneLine_form (by decide) ?_
    simpa using ⟨oneLine_spelling base h.2, oneLine_form (by decide) (by simpa using hname)⟩
  | .index left right, h | .fallback left right, h =>
    oneLine_form (by decide) (by simpa using ⟨oneLine_spelling left h.1, oneLine_spelling right h.2⟩)
  | .method base name arguments, h =>
    oneLine_form (by decide) (by
      simpa using ⟨oneLine_spelling base h.1, Quoted.oneLine_encode name,
        oneLine_spellings arguments h.2⟩)
  | .call _ arguments, h =>
    oneLine_form (by decide) (by
      simpa using ⟨Form.oneLine_of_isAtom h.1, oneLine_spellings arguments h.2⟩)
  | .list items, h => oneLine_form (by decide) (oneLine_spellings items h)
  | .unary _ operand, h =>
    oneLine_form (Form.oneLine_of_isAtom h.1) (by simpa using oneLine_spelling operand h.2)
  | .count way target, h =>
    oneLine_form (by cases way <;> decide) (by simpa using oneLine_spelling target h)
  | .binary _ left right, h =>
    oneLine_form (Form.oneLine_of_isAtom h.1)
      (by simpa using ⟨oneLine_spelling left h.2.1, oneLine_spelling right h.2.2⟩)
  | .modified _ _ value arguments, h =>
    oneLine_form (by decide) (by
      simpa using ⟨Form.oneLine_of_isAtom h.1, oneLine_spelling value h.2.1,
        oneLine_spellings arguments h.2.2⟩)
  | .choice condition yes no, h =>
    oneLine_form (by decide) (by
      simpa using ⟨oneLine_spelling condition h.1, oneLine_spelling yes h.2.1,
        oneLine_spelling no h.2.2⟩)

theorem oneLine_spellings : ∀ (es : List Expr), AllClean es → ∀ t ∈ spellings es, OneLine t
  | [], _ => by simp [spellings]
  | e :: more, h => by
    simpa [spellings] using ⟨oneLine_spelling e h.1, oneLine_spellings more h.2⟩

end

theorem oneLine_code {e : Expr} (h : e.Clean) : OneLine e.code := by
  rw [code_eq_spelling]
  exact oneLine_spelling e h

theorem reads_code {e : Expr} (h : e.Clean) : Reads e.code e.form := by
  rw [code_eq_spelling]
  exact reads_spelling e h

end Expr

end Stencil
