import Mathlib.Data.List.TakeWhile
import Stencil.Expr.Grammar
import Stencil.Proofs.Forms

/-!
# Texts of tokens

What the text of a token looks like, for each kind of token: names and numbers are atoms, and a
symbol is its spelling. So every expression that is read from tokens has code that can be read back.
-/

namespace Stencil

open Form (isAtom isAtomPart)

/-! ## Atoms -/

theorem notMem_of_any {p : Char → Bool} {t : Text} (ht : t.any p = false) {c : Char}
    (h : p c = true) : c ∉ t := by
  intro hc
  have hany : t.any p = true := List.any_eq_true.mpr ⟨c, hc, h⟩
  rw [ht] at hany
  cases hany

theorem isAtomPart_of_notMem {c : Char} (hblank : isBlank c = false) (h : c ∉ ['(', ')', '"']) :
    isAtomPart c = true ∧ c ≠ '"' := by
  simp only [List.mem_cons, List.not_mem_nil, or_false, not_or] at h
  simp [isAtomPart, hblank, h]

theorem isAtomPart_of_isWordPart {c : Char} (h : isWordPart c = true) :
    isAtomPart c = true ∧ c ≠ '"' := by
  exact isAtomPart_of_notMem (not_isBlank_of_isWordPart h) (notMem_of_any (by decide) h)

/-- A character of a number. -/
def isNumberPart (c : Char) : Bool := c.isDigit || c ∈ ['.', 'e', 'E', '+', '-']

theorem isAtomPart_of_isNumberPart {c : Char} (h : isNumberPart c = true) :
    isAtomPart c = true ∧ c ≠ '"' := by
  rcases Bool.or_eq_true_iff.mp h with h | h
  · exact isAtomPart_of_notMem (not_isBlank_of_isDigit h) (notMem_of_any (by decide) h)
  · have hall : ['.', 'e', 'E', '+', '-'].all (fun x => isAtomPart x && x != '"') = true := by decide
    simpa using List.all_eq_true.mp hall c (of_decide_eq_true h)

theorem isAtom_of_forall {t : Text} (ht : t ≠ [])
    (h : ∀ c ∈ t, isAtomPart c = true ∧ c ≠ '"') : isAtom t = true := by
  cases t with
  | nil => exact absurd rfl ht
  | cons c t =>
    have hc := h c (by simp)
    simp only [isAtom, Bool.and_eq_true, bne_iff_ne, List.all_eq_true]
    exact ⟨⟨hc.2, hc.1⟩, fun x hx => (h x (by simp [hx])).1⟩

/-! ## The lexer -/

/-- What the lexer makes sure of. -/
def Token.Lexed (t : Token) : Prop :=
  match t.kind with
  | .integer | .float | .name => isAtom t.text = true
  | .variable => isAtom t.name = true
  | .symbol spelling => t.text = spelling
  | _ => True

namespace Lexeme

theorem isNumberPart_of_mem_takeWhile {t : Text} {c : Char} (h : c ∈ t.takeWhile Char.isDigit) :
    isNumberPart c = true := by
  have hd := List.mem_takeWhile_imp h
  simp [isNumberPart, hd]

theorem isNumberPart_of_fraction {t part rest : Text} (h : fraction? t = some (part, rest)) :
    ∀ c ∈ part, isNumberPart c = true := by
  unfold fraction? at h
  split at h
  · split at h <;> simp only [Option.some.injEq, Prod.mk.injEq, reduceCtorEq] at h
    rename_i d t hd
    obtain ⟨rfl, -⟩ := h
    intro c hc
    simp only [List.mem_cons] at hc
    rcases hc with rfl | rfl | hc
    · decide
    · simp [isNumberPart, hd]
    · exact isNumberPart_of_mem_takeWhile hc
  · simp at h

theorem isNumberPart_of_exponent {t part rest : Text} (h : exponent? t = some (part, rest)) :
    ∀ c ∈ part, isNumberPart c = true := by
  have hmark {c : Char} (h : isExponentMark c = true) : isNumberPart c = true := by
    simp only [isExponentMark, Bool.or_eq_true, decide_eq_true_eq] at h
    rcases h with rfl | rfl <;> decide
  have hsign {c : Char} (h : isSign c = true) : isNumberPart c = true := by
    simp only [isSign, Bool.or_eq_true, decide_eq_true_eq] at h
    rcases h with rfl | rfl <;> decide
  have hdigit {c : Char} (h : c.isDigit = true) : isNumberPart c = true := by simp [isNumberPart, h]
  unfold exponent? at h
  split at h
  · split at h
    · rename_i e s d t hc
      simp only [Bool.and_eq_true] at hc
      simp only [Option.some.injEq, Prod.mk.injEq] at h
      obtain ⟨rfl, -⟩ := h
      intro c hmem
      simp only [List.mem_cons] at hmem
      rcases hmem with rfl | rfl | rfl | hmem
      · exact hmark hc.1.1
      · exact hsign hc.1.2
      · exact hdigit hc.2
      · exact isNumberPart_of_mem_takeWhile hmem
    · split at h <;> simp only [Option.some.injEq, Prod.mk.injEq, reduceCtorEq] at h
      rename_i e s d t _ hc
      simp only [Bool.and_eq_true] at hc
      obtain ⟨rfl, -⟩ := h
      intro c hmem
      simp only [List.mem_cons] at hmem
      rcases hmem with rfl | rfl | hmem
      · exact hmark hc.1
      · exact hdigit hc.2
      · exact isNumberPart_of_mem_takeWhile hmem
  · split at h <;> simp only [Option.some.injEq, Prod.mk.injEq, reduceCtorEq] at h
    rename_i e d hc
    simp only [Bool.and_eq_true] at hc
    obtain ⟨rfl, -⟩ := h
    intro c hmem
    simp only [List.mem_cons, List.not_mem_nil, or_false] at hmem
    rcases hmem with rfl | rfl
    · exact hmark hc.1
    · exact hdigit hc.2
  · simp at h

theorem forall_mem_optional {part? : Text → Option (Text × Text)} {p : Char → Prop}
    (h : ∀ {t part rest}, part? t = some (part, rest) → ∀ c ∈ part, p c) (t : Text) :
    ∀ c ∈ (optional part? t).1, p c := by
  unfold optional
  split
  · rename_i hpart
    exact h hpart
  · simp

theorem isNumberPart_of_mem_number {t : Text} {c : Char} (h : c ∈ (number t).tail) :
    isNumberPart c = true := by
  simp only [number, List.append_assoc, List.mem_append] at h
  rcases h with h | h | h
  · exact isNumberPart_of_mem_takeWhile h
  · exact forall_mem_optional isNumberPart_of_fraction _ c h
  · exact forall_mem_optional isNumberPart_of_exponent _ c h

theorem symbol_eq {c : Char} {t s : Text} (h : (symbol c t).kind = .symbol s) :
    c :: (symbol c t).tail = s := by
  unfold symbol at h ⊢
  split at h
  · rename_i spelling hfind
    obtain rfl : spelling = s := Kind.symbol.inj h
    have hmem := List.mem_of_find?_eq_some hfind
    have hpre := List.find?_some hfind
    cases spelling with
    | nil => exact absurd hmem (by decide)
    | cons x spelling =>
      obtain ⟨rest, hrest⟩ := List.isPrefixOf_iff_prefix.mp hpre
      obtain ⟨rfl, rfl⟩ := List.cons.inj hrest
      simp
  · cases h

theorem isAtom_word {c : Char} (hc : isWordStart c = true) (t : Text) :
    isAtom (c :: t.takeWhile isWordPart) = true := by
  refine isAtom_of_forall (by simp) fun x hx => isAtomPart_of_isWordPart ?_
  rcases List.mem_cons.mp hx with rfl | hx
  · exact isWordPart_of_isWordStart hc
  · exact List.mem_takeWhile_imp hx

theorem lexed_first (c : Char) (t space : Text) (line : Nat) :
    Token.Lexed { kind := (first c t).kind, text := c :: (first c t).tail, space, line } := by
  unfold first
  split
  · rename_i hc
    cases t with
    | nil => simp at hc
    | cons d t =>
      simp only [Bool.and_eq_true, decide_eq_true_eq, List.head?_cons, Option.any_some] at hc
      obtain ⟨rfl, hd⟩ := hc
      have hne : d ≠ '$' := by
        rintro rfl
        exact absurd hd (by decide)
      have hword := isAtom_word hd t
      simpa [Token.Lexed, span, Token.name, isWordPart_of_isWordStart hd, hne] using hword
  · split
    · rename_i hc
      unfold word
      by_cases hop : c :: t.takeWhile isWordPart ∈ Symbol.words
      · simp [Token.Lexed, span, hop]
      · simpa [Token.Lexed, span, hop] using isAtom_word hc t
    · split
      · rename_i hc
        have hatom : isAtom (c :: (number t).tail) = true := by
          refine isAtom_of_forall (by simp) fun x hx => isAtomPart_of_isNumberPart ?_
          rcases List.mem_cons.mp hx with rfl | hx
          · simp [isNumberPart, hc]
          · exact isNumberPart_of_mem_number hx
        have hkind : (number t).kind = .float ∨ (number t).kind = .integer := by
          simp only [number]
          split <;> simp
        rcases hkind with hkind | hkind <;> simpa [Token.Lexed, hkind] using hatom
      · split
        · unfold string
          split <;> exact trivial
        · split
          · unfold comment
            split <;> exact trivial
          · unfold Token.Lexed
            have hkind : (∃ s, (symbol c t).kind = .symbol s) ∨ (symbol c t).kind = .stray := by
              unfold symbol
              split <;> simp
            rcases hkind with ⟨s, hkind⟩ | hkind <;> rw [hkind]
            · exact symbol_eq hkind
            · trivial

end Lexeme

theorem lexed_tokensOf (line : Nat) (t : Text) : ∀ token ∈ tokensOf line t, token.Lexed := by
  fun_induction tokensOf line t with
  | case1 => simp
  | case2 line c t lexeme text space ih =>
    intro token htoken
    rcases List.mem_cons.mp htoken with rfl | htoken
    · exact Lexeme.lexed_first c t space line
    · exact ih token htoken

theorem lexed_tokenize (line : Nat) (t : Text) : ∀ token ∈ tokenize line t, token.Lexed :=
  lexed_tokensOf _ _

/-! ## Cursors -/

/-- All tokens come from the lexer. -/
def Cursor.Lexed (c : Cursor) : Prop := (∀ t ∈ c.behind, t.Lexed) ∧ ∀ t ∈ c.ahead, t.Lexed

namespace Cursor

theorem lexed_place {tokens : List Token} (h : ∀ t ∈ tokens, t.Lexed) (position endLine : Nat) :
    (place tokens position endLine).Lexed := by
  constructor
  · intro t ht
    exact h t (List.mem_of_mem_take (List.mem_reverse.mp ht))
  · intro t ht
    exact h t (List.mem_of_mem_drop ht)

theorem lexed_ofText (source : Text) (line : Nat) : (ofText source line).Lexed :=
  lexed_place (lexed_tokenize line source) _ _

theorem Lexed.tokens {c : Cursor} (h : c.Lexed) : ∀ t ∈ c.tokens, t.Lexed := by
  intro t ht
  rcases List.mem_append.mp ht with ht | ht
  · exact h.1 t (List.mem_reverse.mp ht)
  · exact h.2 t ht

theorem Lexed.filter {c : Cursor} (h : c.Lexed) (keep : Token → Bool) : (c.filter keep).Lexed :=
  lexed_place (fun t ht => h.tokens t (List.mem_of_mem_filter ht)) _ _

theorem Lexed.advance {c : Cursor} (h : c.Lexed) : c.advance.Lexed := by
  obtain ⟨behind, _ | ⟨t, ahead⟩, endLine⟩ := c
  · exact h
  · refine ⟨?_, fun x hx => h.2 x (List.mem_cons_of_mem _ hx)⟩
    intro x hx
    rcases List.mem_cons.mp hx with rfl | hx
    · exact h.2 x (by simp)
    · exact h.1 x hx

theorem Lexed.current {c : Cursor} (h : c.Lexed) {t : Token} (ht : c.current? = some t) : t.Lexed :=
  h.2 t (List.mem_of_mem_head? ht)

theorem Lexed.collect {c : Cursor} (h : c.Lexed) (stops : List Want) : (c.collect stops).2.Lexed := by
  constructor
  · intro t ht
    rcases List.mem_append.mp ht with ht | ht
    · exact h.2 t ((List.takeWhile_sublist _).subset (List.mem_reverse.mp ht))
    · exact h.1 t ht
  · intro t ht
    exact h.2 t ((List.dropWhile_sublist _).subset ht)

theorem exists_of_mem_addSpace {space : Text} {tokens : List Token} {t : Token}
    (h : t ∈ addSpace space tokens) :
    ∃ u ∈ tokens, ∃ blanks, t = { u with space := u.space ++ blanks } := by
  fun_induction addSpace space tokens with
  | case1 => cases h
  | case2 last => exact ⟨last, by simp, space, List.mem_singleton.mp h⟩
  | case3 first more _ ih =>
    rcases List.mem_cons.mp h with rfl | h
    · exact ⟨t, by simp, [], by simp⟩
    · obtain ⟨u, hu, hsame⟩ := ih h
      exact ⟨u, List.mem_cons_of_mem _ hu, hsame⟩

theorem Lexed.splice {c : Cursor} (h : c.Lexed) (offset : Nat) (text : Text) :
    (c.splice offset text).Lexed := by
  refine lexed_place (fun t ht => ?_) _ _
  rcases List.mem_append.mp ht with ht | ht
  · obtain ⟨u, hu, blanks, rfl⟩ := exists_of_mem_addSpace ht
    exact h.tokens u (List.mem_of_mem_take hu)
  · exact lexed_tokenize _ _ t ht

end Cursor

end Stencil
