import Stencil.Cursor.Basic
import Stencil.Proofs.Spelling

/-!
# Words

A token without its line is a word. The main fact here is `words_tokenize`: words that are written
with a space between them, or without one before a colon, are the words of the tokens of that text.
-/

namespace Stencil

structure Word where
  kind : Kind
  text : Text
  /-- The white space up to the next word. -/
  space : Text
deriving DecidableEq, Repr

def Token.word (t : Token) : Word := { kind := t.kind, text := t.text, space := t.space }

namespace Word

def source (w : Word) : Text := w.text ++ w.space

/-- The text of some words. -/
def join (words : List Word) : Text := words.flatMap source

@[simp] theorem join_nil : join [] = [] := rfl

@[simp] theorem join_cons (w : Word) (words : List Word) :
    join (w :: words) = w.text ++ (w.space ++ join words) := by
  simp [join, source]

/-- A symbol as a word. -/
def symbol (spelling space : Text) : Word := { kind := .symbol spelling, text := spelling, space }

/-- A symbol with a space behind it. -/
def spaced (spelling : Text) : Word := symbol spelling [' ']

/-- The colon that comes before an argument of a modifier. -/
def colon : Word := spaced [':']

@[simp] theorem kind_symbol (spelling space : Text) : (symbol spelling space).kind = .symbol spelling :=
  rfl

@[simp] theorem kind_spaced (spelling : Text) : (spaced spelling).kind = .symbol spelling := rfl

/--
Words that can be told apart when they are written down: a space stands behind each of them, and
`after` behind the last. Before a colon the space may be left out.
-/
inductive Flows : List Word → Text → Prop
  | last {w : Word} (h : Spells w.kind w.text) (hcolon : w.kind ≠ colon.kind) : Flows [w] w.space
  | spaced {w : Word} (h : Spells w.kind w.text) (hspace : w.space = [' ']) {words : List Word}
      {after : Text} (hwords : Flows words after) : Flows (w :: words) after
  | glued {w : Word} (h : Spells w.kind w.text) (hcolon : w.kind ≠ colon.kind) (hspace : w.space = [])
      {words : List Word} {after : Text} (hwords : Flows (colon :: words) after) :
      Flows (w :: colon :: words) after

namespace Flows

variable {words more : List Word} {after : Text}

theorem one {k : Kind} {t : Text} (h : Spells k t) (hcolon : k ≠ colon.kind) (after : Text) :
    Flows [⟨k, t, after⟩] after :=
  last (w := ⟨k, t, after⟩) h hcolon

theorem cons {k : Kind} {t : Text} (h : Spells k t) (hwords : Flows words after) :
    Flows (⟨k, t, [' ']⟩ :: words) after :=
  spaced (w := ⟨k, t, [' ']⟩) h rfl hwords

theorem ne_nil (h : Flows words after) : words ≠ [] := by
  cases h <;> simp

theorem append (h : Flows words [' ']) (hmore : Flows more after) : Flows (words ++ more) after := by
  generalize hs : [' '] = s at h
  induction h with
  | last h _ => exact spaced h hs.symm hmore
  | spaced h hspace _ ih => exact spaced h hspace (ih hs)
  | glued h hcolon hspace _ ih => exact glued h hcolon hspace (ih hs)

theorem append_colon (h : Flows words []) (hmore : Flows (colon :: more) after) :
    Flows (words ++ colon :: more) after := by
  generalize hs : ([] : Text) = s at h
  induction h with
  | last h hcolon => exact glued h hcolon hs.symm hmore
  | spaced h hspace _ ih => exact spaced h hspace (ih hs)
  | glued h hcolon hspace _ ih => exact glued h hcolon hspace (ih hs)

theorem space_getLast (h : Flows words after) : words.getLast?.map Word.space = some after := by
  induction h with
  | last => simp
  | @spaced w _ _ words _ hwords ih =>
    cases words with
    | nil => exact absurd rfl hwords.ne_nil
    | cons next rest => simpa using ih
  | glued _ _ _ _ ih => simpa using ih

theorem spells (h : Flows words after) : ∀ w ∈ words, Spells w.kind w.text := by
  induction h with
  | last h _ => simpa using h
  | spaced h _ _ ih =>
    intro w hw
    rcases List.mem_cons.mp hw with rfl | hw
    · exact h
    · exact ih w hw
  | glued h _ _ _ ih =>
    intro w hw
    rcases List.mem_cons.mp hw with rfl | hw
    · exact h
    · exact ih w hw

end Flows

/-! ## Tokens of written words -/

theorem first_slash {c : Char} {t : Text} (h : isWordStart c = true) :
    Lexeme.first '/' (c :: t) = ⟨.symbol ['/'], [], c :: t⟩ := by
  have heq : c ≠ '=' := by
    rintro rfl
    exact absurd h (by decide)
  have hstar : c ≠ '*' := by
    rintro rfl
    exact absurd h (by decide)
  have hfind : Symbol.spellings.find? (·.isPrefixOf ('/' :: c :: t)) = some ['/'] := by
    simp [Symbol.spellings, Symbol.ofThree, Symbol.ofTwo, Symbol.ofOne, List.isPrefixOf, heq.symm]
  have hsymbol : Lexeme.symbol '/' (c :: t) = ⟨.symbol ['/'], [], c :: t⟩ := by
    simp [Lexeme.symbol, hfind]
  have hword : isWordStart '/' = false := by decide
  have hdigit : Char.isDigit '/' = false := by decide
  simp [Lexeme.first, hword, hdigit, hstar, hsymbol]

/-- Words that the lexer keeps apart when they are written one after the other. -/
inductive Apart : List Word → Prop
  | nil : Apart []
  | cons {w : Word} {words : List Word} (h : Spells w.kind w.text)
      (hspace : ∀ x ∈ w.space, isBlank x = true) (hbreak : breaks w.kind (w.space ++ join words) = true)
      (hwords : Apart words) : Apart (w :: words)
  | slash {w : Word} {words : List Word} (h : isWord w.text = true) (hwords : Apart (w :: words)) :
      Apart (symbol ['/'] [] :: w :: words)

theorem Flows.apart {words : List Word} {after : Text} (h : Flows words after)
    (hafter : ∀ x ∈ after, isBlank x = true) : Apart words := by
  induction h with
  | @last w h _ =>
    refine .cons h hafter ?_ .nil
    rw [join_nil, List.append_nil]
    cases hs : w.space with
    | nil => rfl
    | cons x rest => exact breaks_of_blank (hafter x (by simp [hs]))
  | @spaced w h hspace words _ _ ih =>
    refine .cons h ?_ ?_ (ih hafter)
    · simp [hspace, isBlank, isWithin, blankRanges]
    · rw [hspace]
      exact breaks_of_blank (by decide)
  | @glued w h hcolon hspace words _ _ ih =>
    refine .cons h (by simp [hspace]) ?_ (ih hafter)
    simp only [hspace, List.nil_append, join_cons]
    have hne : w.kind ≠ .symbol [':'] := hcolon
    simp [colon, Word.spaced, symbol, breaks, hne]

theorem Apart.not_isBlank_head {words : List Word} (h : Apart words) :
    ∀ c ∈ (join words).head?, isBlank c = false := by
  intro c hc
  cases h with
  | nil => simp at hc
  | cons h _ _ _ =>
    obtain ⟨x, tail, ht, hx, -⟩ := Lexeme.first_of_spells h
    obtain rfl : x = c := by simpa [ht] using hc
    exact hx
  | slash =>
    obtain rfl : '/' = c := by simpa [source, symbol] using hc
    decide

theorem Apart.word_tokensOf {words : List Word} (h : Apart words) :
    ∀ line, (tokensOf line (join words)).map Token.word = words := by
  induction h with
  | nil =>
    intro line
    rw [join_nil, tokensOf]
    rfl
  | @cons w words h hspace hbreak hwords ih =>
    intro line
    obtain ⟨c, tail, ht, -, hfirst⟩ := Lexeme.first_of_spells h
    have hf := hfirst _ hbreak
    have hrest := hwords.not_isBlank_head
    rw [join_cons, ht, List.cons_append, tokensOf]
    simp only [hf, Lexeme.takeWhile_append_of_stop hspace hrest,
      Lexeme.dropWhile_append_of_stop hspace hrest, List.map_cons, ih]
    simp only [Token.word, ← ht]
  | @slash w words h hwords ih =>
    intro line
    have hhead := hwords.not_isBlank_head
    obtain ⟨c, rest, hjoin, hc⟩ : ∃ c rest, join (w :: words) = c :: rest ∧ isWordStart c = true := by
      cases ht : w.text with
      | nil => simp [ht, isWord] at h
      | cons c tail =>
        exact ⟨c, tail ++ w.space ++ join words, by simp [ht], (isWord_cons.mp (ht ▸ h)).1⟩
    rw [hjoin] at hhead ih
    have hblank := hhead c rfl
    rw [join_cons, hjoin]
    simp only [symbol, List.singleton_append]
    rw [tokensOf]
    simp [first_slash hc, hblank, ih, Token.word]

end Word

theorem words_tokenize {words : List Word} (h : Word.Apart words) (line : Nat) :
    (tokenize line (Word.join words)).map Token.word = words := by
  have hhead := h.not_isBlank_head
  have htake : (Word.join words).takeWhile isBlank = [] := by
    simpa using Lexeme.takeWhile_append_of_stop (t := []) (by simp) hhead
  have hdrop : (Word.join words).dropWhile isBlank = Word.join words := by
    simpa using Lexeme.dropWhile_append_of_stop (t := []) (by simp) hhead
  rw [tokenize, htake, hdrop]
  exact h.word_tokensOf _

theorem word_tokensOf_line (line line' : Nat) (t : Text) :
    (tokensOf line t).map Token.word = (tokensOf line' t).map Token.word := by
  induction hn : t.length using Nat.strongRecOn generalizing line line' t with
  | ind n ih =>
  cases t with
  | nil => simp [tokensOf]
  | cons c t =>
    have hlength : ((Lexeme.first c t).rest.dropWhile isBlank).length < n := by
      have hrest := Lexeme.length_rest_first_le c t
      have hblank := (List.dropWhile_sublist isBlank (l := (Lexeme.first c t).rest)).length_le
      rw [← hn, List.length_cons]
      omega
    rw [tokensOf, tokensOf, List.map_cons, List.map_cons, ih _ hlength _ _ _ rfl]
    rfl

end Stencil
