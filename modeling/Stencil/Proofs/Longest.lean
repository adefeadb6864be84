import Stencil.Proofs.Cuts
import Stencil.Proofs.Lexed
import Stencil.Proofs.Lossless

/-!
# Tokens are as long as can be

`Complete` and `Decided` are the lexical grammar, said without the lexer: what a text decides about
the token at its front. A text leaves no choice, and the lexer cuts off the token that it decides.
-/

namespace Stencil

/-! ## The lexical grammar -/

/-- The longest text of a class at the front of another text. -/
structure Longest (P : Text → Prop) (t rest : Text) : Prop where
  holds : P t
  front : t <+: rest
  longest : ∀ u, P u → u <+: rest → u.length ≤ t.length

/-- Digits, perhaps with a fraction and perhaps with a power of ten. -/
def IsNumber (t : Text) : Prop := isDigits t = true ∨ ∃ d : Decimal, d.text = t

def commentStart : Text := ['/', '*']

def commentEnd : Text := ['*', '/']

/-- The text starts with a token that is all there. -/
inductive Complete (rest : Text) : Kind → Text → Prop
  | dollar {name after : Text} (hrest : rest = '$' :: after)
      (h : Longest (isWord · = true) name after) : Complete rest .variable ('$' :: name)
  | name {t : Text} (h : Longest (isWord · = true) t rest) (hword : t ∉ Symbol.words) :
      Complete rest .name t
  | word {t : Text} (h : Longest (isWord · = true) t rest) (hword : t ∈ Symbol.words) :
      Complete rest (.symbol t) t
  | integer {t : Text} (h : Longest IsNumber t rest) (hdigits : isDigits t = true) :
      Complete rest .integer t
  | float (d : Decimal) (h : Longest IsNumber d.text rest) : Complete rest .float d.text
  /-- Inside a literal its quote stands only after a backslash. -/
  | quoted (l : Literal) (h : l.text <+: rest) : Complete rest .quoted l.text
  | comment {inside : Text} (h : commentStart ++ (inside ++ commentEnd) <+: rest)
      (hinside : ¬ commentEnd <:+: inside) :
      Complete rest .comment (commentStart ++ (inside ++ commentEnd))
  | symbol {t : Text} (h : Longest (· ∈ Symbol.spellings) t rest)
      (hcomment : ¬ commentStart <+: rest) : Complete rest (.symbol t) t

/-- What the text decides about the token at its front. -/
inductive Decided (rest : Text) : Kind → Text → Prop
  | complete {k : Kind} {t : Text} (h : Complete rest k t) : Decided rest k t
  | openString (hquote : rest.head? = some '"' ∨ rest.head? = some '\x27')
      (h : ∀ l : Literal, ¬ l.text <+: rest) : Decided rest .stray rest
  | openComment {after : Text} (hrest : rest = commentStart ++ after)
      (h : ¬ commentEnd <:+: after) : Decided rest .stray rest
  | lone {c : Char} {after : Text} (hrest : rest = c :: after) (h : ∀ k t, ¬ Complete rest k t)
      (hquote : c ≠ '"' ∧ c ≠ '\x27') (hcomment : ¬ commentStart <+: rest) :
      Decided rest .stray [c]

theorem Longest.unique {P : Text → Prop} {t u rest : Text} (h : Longest P t rest)
    (h' : Longest P u rest) : t = u := by
  have hlength : t.length = u.length :=
    Nat.le_antisymm (h'.longest t h.holds h.front) (h.longest u h'.holds h'.front)
  have hfront := List.prefix_of_prefix_length_le h.front h'.front (Nat.le_of_eq hlength)
  exact hfront.eq_of_length hlength

namespace Lexeme

/-! ## Words -/

theorem length_le_takeWhile {p : Char → Bool} {u t : Text} (h : ∀ x ∈ u, p x = true)
    (hfront : u <+: t) : u.length ≤ (t.takeWhile p).length := by
  obtain ⟨rest, rfl⟩ := hfront
  rw [List.takeWhile_append_of_pos h, List.length_append]
  omega

theorem longest_word {c : Char} (hc : isWordStart c = true) (t : Text) :
    Longest (isWord · = true) (c :: t.takeWhile isWordPart) (c :: t) := by
  refine ⟨?_, ?_, ?_⟩
  · rw [isWord_cons]
    exact ⟨hc, fun x hx => List.mem_takeWhile_imp hx⟩
  · rw [List.cons_prefix_cons]
    exact ⟨rfl, List.takeWhile_prefix isWordPart⟩
  · intro u hu hfront
    cases u with
    | nil => simp
    | cons x u =>
      obtain ⟨-, hparts⟩ := isWord_cons.mp hu
      obtain ⟨-, hfront⟩ := List.cons_prefix_cons.mp hfront
      simpa using length_le_takeWhile hparts hfront

theorem isWordStart_of_longest {t : Text} {c : Char} {rest : Text}
    (h : Longest (isWord · = true) t (c :: rest)) : isWordStart c = true := by
  cases t with
  | nil => exact absurd h.holds (by decide)
  | cons x t =>
    obtain ⟨rfl, -⟩ := List.cons_prefix_cons.mp h.front
    exact (isWord_cons.mp h.holds).1

/-! ## Numbers -/

theorem isDigits_append {t more : Text} (h : isDigits t = true)
    (hmore : ∀ x ∈ more, x.isDigit = true) : isDigits (t ++ more) = true := by
  obtain ⟨c, rest, rfl, hc, hrest⟩ := exists_cons_of_isDigits h
  rw [List.cons_append, isDigits_cons]
  refine ⟨hc, fun x hx => ?_⟩
  rcases List.mem_append.mp hx with hx | hx
  · exact hrest x hx
  · exact hmore x hx

theorem isDigits_takeWhile {c : Char} (hc : c.isDigit = true) (t : Text) :
    isDigits (c :: t.takeWhile Char.isDigit) = true :=
  isDigits_cons.mpr ⟨hc, fun _ hx => List.mem_takeWhile_imp hx⟩

theorem isNumber_append {t more : Text} (h : IsNumber t) (hmore : ∀ x ∈ more, x.isDigit = true) :
    IsNumber (t ++ more) := by
  rcases h with h | ⟨⟨whole, hwhole, fraction, power, hsome⟩, rfl⟩
  · exact .inl (isDigits_append h hmore)
  refine .inr ?_
  cases power with
  | some p =>
    let longer : Power := { p with
      digits := p.digits ++ more
      isDigits_digits := isDigits_append p.isDigits_digits hmore }
    refine ⟨⟨whole, hwhole, fraction, some longer, by simp⟩, ?_⟩
    simp [Decimal.text, Decimal.powerText, Decimal.fractionText, Power.text, Power.mark,
      Power.signText, longer]
  | none =>
    cases fraction with
    | none => simp at hsome
    | some digits =>
      let longer : { t : Text // isDigits t = true } :=
        ⟨digits.val ++ more, isDigits_append digits.property hmore⟩
      refine ⟨⟨whole, hwhole, some longer, none, rfl⟩, ?_⟩
      simp [Decimal.text, Decimal.powerText, Decimal.fractionText, longer]

theorem not_isDigits_text (d : Decimal) : isDigits d.text = false := by
  obtain ⟨c, hmem, hc⟩ : ∃ c ∈ d.text, c.isDigit = false := by
    cases hp : d.power with
    | some p =>
      refine ⟨p.mark, by simp [Decimal.text, Decimal.powerText, hp, Power.text], ?_⟩
      unfold Power.mark
      split <;> decide
    | none =>
      cases hf : d.fraction with
      | some digits => exact ⟨'.', by simp [Decimal.text, Decimal.fractionText, hf], by decide⟩
      | none => simpa [hp, hf] using d.isSome_part
  rw [← Bool.not_eq_true]
  intro h
  obtain ⟨x, rest, hx, hdigit, hdigits⟩ := exists_cons_of_isDigits h
  rw [hx] at hmem
  have hall : c.isDigit = true := by
    rcases List.mem_cons.mp hmem with rfl | hmem
    · exact hdigit
    · exact hdigits c hmem
  rw [hc] at hall
  cases hall

theorem exists_digits_of_fraction? {t part rest : Text} (h : fraction? t = some (part, rest)) :
    ∃ digits : { t : Text // isDigits t = true }, part = '.' :: digits.val := by
  unfold fraction? at h
  split at h
  · rename_i d t
    split at h
    · rename_i hd
      cases h
      exact ⟨⟨_, isDigits_takeWhile hd t⟩, rfl⟩
    · cases h
  · cases h

theorem exists_power_of_exponent? {t part rest : Text} (h : exponent? t = some (part, rest)) :
    ∃ p : Power, part = p.text := by
  have hmark {e : Char} (he : isExponentMark e = true) : (if e = 'E' then 'E' else 'e') = e := by
    simp only [isExponentMark, Bool.or_eq_true, decide_eq_true_eq] at he
    rcases he with rfl | rfl <;> rfl
  unfold exponent? at h
  split at h
  · rename_i e s d t
    split at h
    · rename_i hc
      simp only [Bool.and_eq_true] at hc
      obtain ⟨⟨he, hs⟩, hd⟩ := hc
      cases h
      refine ⟨⟨e = 'E', some (s = '-'), _, isDigits_takeWhile hd t⟩, ?_⟩
      simp only [isSign, Bool.or_eq_true, decide_eq_true_eq] at hs
      rcases hs with rfl | rfl <;> simp [Power.text, Power.mark, Power.signText, hmark he]
    · split at h
      · rename_i hc
        simp only [Bool.and_eq_true] at hc
        obtain ⟨he, hs⟩ := hc
        cases h
        refine ⟨⟨e = 'E', none, _, isDigits_takeWhile hs (d :: t)⟩, ?_⟩
        simp [Power.text, Power.mark, Power.signText, hmark he]
      · cases h
  · rename_i e d
    split at h
    · rename_i hc
      simp only [Bool.and_eq_true] at hc
      obtain ⟨he, hd⟩ := hc
      cases h
      refine ⟨⟨e = 'E', none, [d], isDigits_cons.mpr ⟨hd, by simp⟩⟩, ?_⟩
      simp [Power.text, Power.mark, Power.signText, hmark he]
    · cases h
  · cases h

theorem number_form {c : Char} (hc : c.isDigit = true) (t : Text) :
    ((number t).kind = .integer ∧ isDigits (c :: (number t).tail) = true) ∨
    ((number t).kind = .float ∧ ∃ d : Decimal, d.text = c :: (number t).tail) := by
  have hwhole := isDigits_takeWhile hc t
  cases hf : fraction? (t.dropWhile Char.isDigit) with
  | none =>
    cases he : exponent? (t.dropWhile Char.isDigit) with
    | none =>
      refine .inl ⟨?_, ?_⟩
      · simp [number, optional, hf, he]
      · simpa [number, optional, hf, he] using hwhole
    | some power =>
      obtain ⟨p, hp⟩ := exists_power_of_exponent? he
      refine .inr ⟨by simp [number, optional, hf, he], ⟨_, hwhole, none, some p, rfl⟩, ?_⟩
      simp [number, optional, hf, he, hp, Decimal.text, Decimal.fractionText, Decimal.powerText]
  | some fraction =>
    obtain ⟨digits, hdigits⟩ := exists_digits_of_fraction? hf
    cases he : exponent? fraction.2 with
    | none =>
      refine .inr ⟨by simp [number, optional, hf, he], ⟨_, hwhole, some digits, none, rfl⟩, ?_⟩
      simp [number, optional, hf, he, hdigits, Decimal.text, Decimal.fractionText,
        Decimal.powerText]
    | some power =>
      obtain ⟨p, hp⟩ := exists_power_of_exponent? he
      refine .inr ⟨by simp [number, optional, hf, he], ⟨_, hwhole, some digits, some p, rfl⟩, ?_⟩
      simp [number, optional, hf, he, hdigits, hp, Decimal.text, Decimal.fractionText,
        Decimal.powerText]

theorem length_decimal_le (d : Decimal) {c : Char} {t rest : Text} (h : d.text ++ rest = c :: t)
    (hrest : ∀ x ∈ rest.head?, x.isDigit = false) :
    d.text.length ≤ (c :: (number t).tail).length := by
  obtain ⟨x, digits, hwhole, hx, hdigits⟩ := exists_cons_of_isDigits d.isDigits_whole
  rw [Decimal.text, hwhole, List.append_assoc, List.append_assoc, List.cons_append,
    List.cons.injEq] at h
  obtain ⟨rfl, rfl⟩ := h
  cases hp : d.power with
  | none =>
    cases hf : d.fraction with
    | none => simpa [hp, hf] using d.isSome_part
    | some part =>
      have hstop : ∀ x ∈ ('.' :: (part.val ++ rest)).head?, x.isDigit = false := by
        intro x hx
        obtain rfl : '.' = x := by simpa using hx
        decide
      simp [Decimal.text, Decimal.fractionText, Decimal.powerText, hp, hf, hwhole, number,
        takeWhile_append_of_stop hdigits hstop, dropWhile_append_of_stop hdigits hstop, optional,
        fraction?_append_of_stop part.property hrest]
  | some p =>
    have hmark : ∀ x ∈ (p.text ++ rest).head?, x.isDigit = false ∧ x ≠ '.' := by
      intro x hx
      obtain rfl : p.mark = x := by simpa [Power.text] using hx
      unfold Power.mark
      split <;> decide
    have hstop : ∀ x ∈ (d.fractionText ++ (p.text ++ rest)).head?, x.isDigit = false := by
      unfold Decimal.fractionText
      split
      · exact fun x hx => (hmark x hx).1
      · intro x hx
        obtain rfl : '.' = x := by simpa using hx
        decide
    have hfraction := optional_fraction d (fun x hx => (hmark x hx).1) (fun x hx => (hmark x hx).2)
    have hpower : optional exponent? (p.text ++ rest) = (p.text, rest, true) := by
      simp [optional, exponent?_append_of_stop p hrest]
    simp [Decimal.text, Decimal.powerText, hp, hwhole, number,
      takeWhile_append_of_stop hdigits hstop, dropWhile_append_of_stop hdigits hstop, hfraction,
      hpower]

theorem longest_number {c : Char} (hc : c.isDigit = true) (t : Text) :
    Longest IsNumber (c :: (number t).tail) (c :: t) := by
  refine ⟨?_, ?_, ?_⟩
  · rcases number_form hc t with ⟨-, h⟩ | ⟨-, h⟩
    · exact .inl h
    · exact .inr h
  · rw [List.cons_prefix_cons]
    exact ⟨rfl, _, number_append t⟩
  · rintro u hu ⟨rest, hrest⟩
    -- The number may stop in the middle of digits: it is measured with those that are left.
    have hmore : IsNumber (u ++ rest.takeWhile Char.isDigit) :=
      isNumber_append hu fun x hx => List.mem_takeWhile_imp hx
    have hstop : ∀ x ∈ (rest.dropWhile Char.isDigit).head?, x.isDigit = false := by
      intro x hx
      have hnot := List.head?_dropWhile_not Char.isDigit rest
      simpa [Option.mem_def.mp hx] using hnot
    have hsplit : (u ++ rest.takeWhile Char.isDigit) ++ rest.dropWhile Char.isDigit = c :: t := by
      rw [List.append_assoc, List.takeWhile_append_dropWhile, hrest]
    refine Nat.le_trans (m := (u ++ rest.takeWhile Char.isDigit).length) (by simp) ?_
    rcases hmore with hdigits | ⟨d, hd⟩
    · obtain ⟨x, digits, hx, -, hall⟩ := exists_cons_of_isDigits hdigits
      rw [hx] at hsplit ⊢
      obtain ⟨rfl, rfl⟩ := List.cons.inj hsplit
      simp [number, takeWhile_append_of_stop hall hstop]
    · rw [← hd] at hsplit ⊢
      exact length_decimal_le d hsplit hstop

/-! ## Strings -/

theorem exists_parts_of_closeQuote? {quote : Char} {t s rest : Text}
    (h : closeQuote? quote t = some (s, rest)) :
    ∃ parts : List (Bool × Char), (∀ c, (false, c) ∈ parts → c ≠ '\\' ∧ c ≠ quote) ∧
      s = parts.flatMap Literal.partText ++ [quote] := by
  fun_induction closeQuote? quote t generalizing s rest with
  | case1 => cases h
  | case2 => cases h
  | case3 c t ih =>
    obtain ⟨⟨inner, rest'⟩, hinner, heq⟩ := Option.map_eq_some_iff.mp h
    obtain ⟨parts, hparts, rfl⟩ := ih hinner
    obtain ⟨rfl, rfl⟩ := Prod.mk.inj heq
    refine ⟨(true, c) :: parts, ?_, by simp [Literal.partText]⟩
    intro x hx
    exact hparts x (by simpa using hx)
  | case4 t =>
    cases h
    exact ⟨[], by simp, by simp⟩
  | case5 c t hslash hpair hc ih =>
    obtain ⟨⟨inner, rest'⟩, hinner, heq⟩ := Option.map_eq_some_iff.mp h
    obtain ⟨parts, hparts, rfl⟩ := ih hinner
    obtain ⟨rfl, rfl⟩ := Prod.mk.inj heq
    refine ⟨(false, c) :: parts, ?_, by simp [Literal.partText]⟩
    intro x hx
    rcases List.mem_cons.mp hx with heq | hx
    · obtain rfl := (Prod.mk.inj heq).2
      refine ⟨?_, hc⟩
      intro hx
      cases t with
      | nil => exact hslash hx rfl
      | cons y t => exact hpair y t hx rfl
    · exact hparts x hx

theorem exists_literal {c : Char} (hc : c = '"' ∨ c = '\x27') {t s rest : Text}
    (h : closeQuote? c t = some (s, rest)) : ∃ l : Literal, l.text <+: c :: t := by
  obtain ⟨parts, hparts, rfl⟩ := exists_parts_of_closeQuote? h
  rw [← closeQuote?_append h]
  rcases hc with rfl | rfl
  · exact ⟨⟨true, parts, hparts⟩, rest, rfl⟩
  · exact ⟨⟨false, parts, hparts⟩, rest, rfl⟩

theorem first_of_literal (l : Literal) {c : Char} {t : Text} (h : l.text <+: c :: t) :
    (first c t).kind = .quoted ∧ c :: (first c t).tail = l.text := by
  obtain ⟨rest, hrest⟩ := h
  rw [Literal.text, List.cons_append, List.cons.injEq] at hrest
  obtain ⟨rfl, rfl⟩ := hrest
  rw [first_quote, string_literal]
  exact ⟨rfl, rfl⟩

theorem first_of_quote {c : Char} (hc : c = '"' ∨ c = '\x27') (t : Text) :
    first c t = string c t := by
  rcases hc with rfl | rfl <;> rfl

theorem first_of_openString {c : Char} (hc : c = '"' ∨ c = '\x27') {t : Text}
    (h : ∀ l : Literal, ¬ l.text <+: c :: t) : first c t = unfinished t := by
  rw [first_of_quote hc, string]
  split
  · rename_i hclose
    obtain ⟨l, hl⟩ := exists_literal hc hclose
    exact absurd hl (h l)
  · rfl

/-! ## Comments -/

theorem first_comment (t : Text) : first '/' ('*' :: t) = comment t := rfl

theorem comment_of_cut? {t inside rest : Text}
    (h : Text.cut? commentEnd t = some (inside, rest)) :
    comment t = ⟨.comment, '*' :: (inside ++ commentEnd), rest⟩ := by
  have h : Text.cut? "*/" t = _ := h
  simp only [comment, h]
  rfl

theorem comment_of_cut?_eq_none {t : Text} (h : Text.cut? commentEnd t = none) :
    comment t = unfinished ('*' :: t) := by
  have h : Text.cut? "*/" t = _ := h
  simp only [comment, h]

theorem comment_of_open {t : Text} (h : ¬ commentEnd <:+: t) :
    comment t = unfinished ('*' :: t) := by
  refine comment_of_cut?_eq_none (Option.eq_none_iff_forall_not_mem.mpr ?_)
  rintro ⟨inside, rest⟩ hcut
  exact h ⟨inside, rest, Text.cut?_append hcut⟩

theorem commentStart_prefix {c : Char} {t : Text} (h : commentStart <+: c :: t) :
    ∃ after, c = '/' ∧ t = '*' :: after := by
  obtain ⟨after, hafter⟩ := h
  obtain ⟨rfl, rfl⟩ := List.cons.inj hafter
  exact ⟨after, rfl, rfl⟩

/-! ## Symbols -/

theorem first_plain {c : Char} {t : Text} (hdollar : c = '$' → t.head?.any isWordStart = false)
    (hword : isWordStart c = false) (hdigit : c.isDigit = false) (hquote : c ≠ '"' ∧ c ≠ '\x27')
    (hcomment : ¬ commentStart <+: c :: t) : first c t = symbol c t := by
  have hvariable : (decide (c = '$') && t.head?.any isWordStart) = false := by
    by_cases hc : c = '$'
    · simp [hdollar hc]
    · simp [hc]
  simp only [first, hvariable, hword, hdigit, hquote, decide_false, Bool.false_eq_true, if_false,
    Bool.or_false]
  split
  · exact absurd ⟨_, rfl⟩ hcomment
  · rfl

/-- The first spelling that fits is the longest one. -/
theorem longest_symbol {rest s : Text}
    (h : Symbol.spellings.find? (·.isPrefixOf rest) = some s) :
    Longest (· ∈ Symbol.spellings) s rest := by
  have hsorted : Symbol.spellings.Pairwise fun s u => u.length ≤ s.length := by decide
  obtain ⟨hs, before, after, hsplit, hbefore⟩ := List.find?_eq_some_iff_append.mp h
  refine ⟨by simp [hsplit], List.isPrefixOf_iff_prefix.mp hs, ?_⟩
  intro u hu hfront
  rw [hsplit] at hu hsorted
  have hnot : u ∉ before := by
    intro hmem
    simpa [List.isPrefixOf_iff_prefix.mpr hfront] using hbefore u hmem
  rcases List.mem_cons.mp ((List.mem_append.mp hu).resolve_left hnot) with rfl | hmem
  · exact Nat.le_refl _
  · exact List.rel_of_pairwise_cons (List.pairwise_append.mp hsorted).2.1 hmem

/-! ## All kinds -/

theorem isDigit_of_longest {u : Text} {c : Char} {t : Text} (h : Longest IsNumber u (c :: t)) :
    c.isDigit = true := by
  have hhead : ∀ {digits more : Text}, isDigits digits = true → digits ++ more <+: c :: t →
      c.isDigit = true := by
    intro digits more hdigits hfront
    obtain ⟨x, rest, rfl, hx, -⟩ := exists_cons_of_isDigits hdigits
    obtain ⟨rfl, -⟩ := List.cons_prefix_cons.mp hfront
    exact hx
  rcases h.holds with hdigits | ⟨d, hd⟩
  · exact hhead hdigits (List.append_nil u ▸ h.front)
  · exact hhead d.isDigits_whole (hd ▸ h.front)

theorem first_of_complete {c : Char} {t : Text} {k : Kind} {u : Text} (h : Complete (c :: t) k u) :
    (first c t).kind = k ∧ c :: (first c t).tail = u := by
  cases h with
  | dollar hrest h =>
    obtain ⟨rfl, rfl⟩ := List.cons.inj hrest
    cases t with
    | nil =>
      obtain rfl := List.prefix_nil.mp h.front
      exact absurd h.holds (by decide)
    | cons d t =>
      have hd := isWordStart_of_longest h
      rw [first_dollar hd, h.unique (longest_word hd t)]
      simp [span, isWordPart_of_isWordStart hd]
  | name h hword =>
    have hc := isWordStart_of_longest h
    rw [h.unique (longest_word hc t)] at hword ⊢
    simp [first_wordStart hc, word, span, hword]
  | word h hword =>
    have hc := isWordStart_of_longest h
    rw [h.unique (longest_word hc t)] at hword ⊢
    simp [first_wordStart hc, word, span, hword]
  | integer h hdigits =>
    have hc := isDigit_of_longest h
    rw [h.unique (longest_number hc t)] at hdigits ⊢
    rw [first_digit hc]
    rcases number_form hc t with ⟨hkind, -⟩ | ⟨-, d, hd⟩
    · exact ⟨hkind, rfl⟩
    · rw [← hd, not_isDigits_text] at hdigits
      cases hdigits
  | float d h =>
    have hc := isDigit_of_longest h
    have hd := h.unique (longest_number hc t)
    rw [first_digit hc]
    rcases number_form hc t with ⟨-, hdigits⟩ | ⟨hkind, -⟩
    · rw [← hd, not_isDigits_text] at hdigits
      cases hdigits
    · exact ⟨hkind, hd.symm⟩
  | quoted l h => exact first_of_literal l h
  | @comment inside h hinside =>
    obtain ⟨rest, hrest⟩ := h
    obtain ⟨rfl, rfl⟩ := List.cons.inj hrest
    have hcut : Text.cut? commentEnd (inside ++ commentEnd ++ rest) = some (inside, rest) := by
      rw [List.append_assoc]
      exact Text.cut?_append_mark (by decide) hinside rest
    have hfirst := first_comment (inside ++ commentEnd ++ rest)
    rw [comment_of_cut? hcut] at hfirst
    rw [List.append_assoc] at hfirst
    simp [commentStart, hfirst]
  | symbol h hcomment =>
    cases u with
    | nil => exact absurd h.holds (by decide)
    | cons x u =>
      obtain ⟨rfl, hfront⟩ := List.cons_prefix_cons.mp h.front
      obtain ⟨hdollar, hword, hdigit, hdouble, hsingle, -⟩ := first_symbol h.holds
      rw [first_plain (absurd · hdollar) hword hdigit ⟨hdouble, hsingle⟩ hcomment]
      have hfits : (x :: u).isPrefixOf (x :: t) = true := List.isPrefixOf_iff_prefix.mpr h.front
      obtain ⟨s, hs⟩ := Option.isSome_iff_exists.mp
        (List.find?_isSome (p := (·.isPrefixOf (x :: t))).mpr ⟨_, h.holds, hfits⟩)
      obtain rfl := h.unique (longest_symbol hs)
      have hkind : (symbol x t).kind = .symbol (x :: u) := by simp [symbol, hs]
      exact ⟨hkind, symbol_eq hkind⟩

theorem ne_stray_of_complete {rest : Text} {k : Kind} {u : Text} (h : Complete rest k u) :
    k ≠ .stray := by
  cases h <;> exact nofun

theorem decided_word {c : Char} (hc : isWordStart c = true) (t : Text) :
    Decided (c :: t) (first c t).kind (c :: (first c t).tail) := by
  have hlongest := longest_word hc t
  rw [first_wordStart hc, word]
  by_cases hword : c :: t.takeWhile isWordPart ∈ Symbol.words
  · simp only [if_pos hword]
    exact .complete (.word hlongest hword)
  · simp only [if_neg hword]
    exact .complete (.name hlongest hword)

theorem decided_number {c : Char} (hc : c.isDigit = true) (t : Text) :
    Decided (c :: t) (first c t).kind (c :: (first c t).tail) := by
  have hlongest := longest_number hc t
  rw [first_digit hc]
  rcases number_form hc t with ⟨hkind, hdigits⟩ | ⟨hkind, d, hd⟩
  · rw [hkind]
    exact .complete (.integer hlongest hdigits)
  · rw [← hd] at hlongest
    rw [hkind, ← hd]
    exact .complete (.float d hlongest)

theorem decided_string {c : Char} (hc : c = '"' ∨ c = '\x27') (t : Text) :
    Decided (c :: t) (first c t).kind (c :: (first c t).tail) := by
  by_cases h : ∃ l : Literal, l.text <+: c :: t
  · obtain ⟨l, hl⟩ := h
    obtain ⟨hkind, htext⟩ := first_of_literal l hl
    rw [hkind, htext]
    exact .complete (.quoted l hl)
  · rw [not_exists] at h
    rw [first_of_openString hc h]
    exact .openString (by simpa using hc) h

theorem decided_comment (t : Text) :
    Decided ('/' :: '*' :: t) (comment t).kind ('/' :: (comment t).tail) := by
  cases hcut : Text.cut? commentEnd t with
  | some split =>
    rw [comment_of_cut? hcut]
    refine .complete (.comment ⟨split.2, ?_⟩ (Text.not_infix_of_cut? (by decide) hcut))
    rw [← Text.cut?_append hcut]
    simp [commentStart]
  | none =>
    rw [comment_of_cut?_eq_none hcut]
    exact .openComment rfl (Text.not_infix_of_cut?_eq_none (by decide) hcut)

theorem decided_first (c : Char) (t : Text) :
    Decided (c :: t) (first c t).kind (c :: (first c t).tail) := by
  by_cases hword : isWordStart c = true
  · exact decided_word hword t
  by_cases hdigit : c.isDigit = true
  · exact decided_number hdigit t
  by_cases hquote : c = '"' ∨ c = '\x27'
  · exact decided_string hquote t
  by_cases hcomment : commentStart <+: c :: t
  · obtain ⟨after, rfl, rfl⟩ := commentStart_prefix hcomment
    exact decided_comment after
  by_cases hdollar : c = '$' ∧ t.head?.any isWordStart = true
  · obtain ⟨rfl, hhead⟩ := hdollar
    cases t with
    | nil => simp at hhead
    | cons d t =>
      have hd : isWordStart d = true := by simpa using hhead
      have hname := longest_word hd t
      rw [first_dollar hd]
      simp only [span, List.takeWhile_cons, isWordPart_of_isWordStart hd, if_true]
      exact .complete (.dollar rfl hname)
  rw [not_or] at hquote
  have hfirst := first_plain (fun hc => by simpa [hc] using hdollar) (by simpa using hword)
    (by simpa using hdigit) hquote hcomment
  cases hfind : Symbol.spellings.find? (·.isPrefixOf (c :: t)) with
  | some s =>
    have hkind : (symbol c t).kind = .symbol s := by simp [symbol, hfind]
    rw [hfirst, hkind, symbol_eq hkind]
    exact .complete (.symbol (longest_symbol hfind) hcomment)
  | none =>
    have hsymbol : symbol c t = ⟨.stray, [], t⟩ := by simp [symbol, hfind]
    rw [hfirst, hsymbol]
    refine .lone rfl ?_ hquote hcomment
    intro k u h
    have hkind := (first_of_complete h).1
    rw [hfirst, hsymbol] at hkind
    exact ne_stray_of_complete h hkind.symm

/-- A text leaves no choice about the token at its front. -/
theorem decided_iff (c : Char) (t : Text) (k : Kind) (u : Text) :
    Decided (c :: t) k u ↔ k = (first c t).kind ∧ u = c :: (first c t).tail := by
  constructor
  · intro h
    cases h with
    | complete h =>
      obtain ⟨hkind, htext⟩ := first_of_complete h
      exact ⟨hkind.symm, htext.symm⟩
    | openString hquote h =>
      rw [first_of_openString (by simpa using hquote) h]
      exact ⟨rfl, rfl⟩
    | @openComment after hrest h =>
      obtain ⟨rfl, rfl⟩ := List.cons.inj hrest
      have hfirst : first '/' ('*' :: after) = unfinished ('*' :: after) := by
        rw [first_comment, comment_of_open h]
      simp [hfirst, unfinished]
    | lone hrest h hquote hcomment =>
      obtain ⟨rfl, rfl⟩ := List.cons.inj hrest
      have hdecided := decided_first c t
      generalize (first c t).kind = k at hdecided ⊢
      generalize c :: (first c t).tail = u at hdecided ⊢
      cases hdecided with
      | complete hk => exact absurd hk (h k u)
      | openString hopen => simp [hquote] at hopen
      | openComment hopen => exact absurd ⟨_, hopen.symm⟩ hcomment
      | lone hrest' =>
        obtain ⟨rfl, -⟩ := List.cons.inj hrest'
        exact ⟨rfl, rfl⟩
  · rintro ⟨rfl, rfl⟩
    exact decided_first c t

end Lexeme

/--
The text from a token on decides the token: its kind and its text are the only ones that the lexical
grammar allows there.
-/
theorem tokenize_decided {line : Nat} {source : Text} {before after : List Token} {t : Token}
    (h : tokenize line source = before ++ t :: after) :
    ∃ front, source = front ++ Token.join (t :: after) ∧
      ∀ kind text, Decided (Token.join (t :: after)) kind text ↔ kind = t.kind ∧ text = t.text := by
  obtain ⟨front, c, rest, -, hjoin, hsource, rfl⟩ := atFront_of_tokenize h
  refine ⟨front, by rw [hjoin, hsource], ?_⟩
  rw [hjoin]
  exact Lexeme.decided_iff c rest

/-- Points and letters that belong to no number, a lone dollar sign and a comment that never ends. -/
def jaggedNumbers : Text := "a1.5.2e-7e $9.e3/*/"

theorem tokenize_decided_jaggedNumbers :
    ∃ before after t, tokenize 1 jaggedNumbers = before ++ t :: after ∧
      t.kind = .float ∧ t.text = "5.2e-7".toList ∧
      Token.join (t :: after) = "5.2e-7e $9.e3/*/".toList ∧
      ∀ kind text, Decided (Token.join (t :: after)) kind text ↔
        kind = .float ∧ text = "5.2e-7".toList := by
  have h : tokenize 1 jaggedNumbers = (tokenize 1 jaggedNumbers).take 2 ++
      ⟨.float, "5.2e-7".toList, [], 1⟩ :: (tokenize 1 jaggedNumbers).drop 3 := by decide +kernel
  obtain ⟨front, -, hdecided⟩ := tokenize_decided h
  exact ⟨_, _, _, h, rfl, rfl, by decide +kernel, hdecided⟩

end Stencil
