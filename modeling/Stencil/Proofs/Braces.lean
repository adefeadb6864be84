import Stencil.Proofs.Longest
import Stencil.Proofs.Parts

/-!
# Braces and the end of a tag

The end of a tag is looked for character by character, before the tag is cut into tokens. Where
there are no comments the two readings agree: a brace that counts there is a brace among the tokens,
and a quote that is open there makes a string that never ends.
-/

namespace Stencil

namespace Token

/-- A string that never ends. -/
def isOpenString (t : Token) : Bool :=
  t.kind = .stray && (t.text.head? = some '"' || t.text.head? = some '\x27')

/-- A comment that never ends. -/
def isOpenComment (t : Token) : Bool := t.kind = .stray && commentStart.isPrefixOf t.text

def isOpening (t : Token) : Bool := t.kind = .symbol ['\x7b']

def isClosing (t : Token) : Bool := t.kind = .symbol ['\x7d']

/-- Inside of `depth` braces, nothing is closed that is not open, and all is closed in the end. -/
structure Balances (depth : Nat) (tokens : List Token) : Prop where
  closed_le : ∀ front, front <+: tokens → front.countP isClosing ≤ depth + front.countP isOpening
  closed_eq : tokens.countP isClosing = depth + tokens.countP isOpening

theorem balances_nil {depth : Nat} : Balances depth [] ↔ depth = 0 := by
  constructor
  · intro h
    simpa using h.closed_eq.symm
  · rintro rfl
    constructor <;> simp

theorem balances_cons {depth : Nat} {t : Token} {tokens : List Token} :
    Balances depth (t :: tokens) ↔ [t].countP isClosing ≤ depth + [t].countP isOpening ∧
      Balances (depth + [t].countP isOpening - [t].countP isClosing) tokens := by
  simp only [List.countP_cons, List.countP_nil, Nat.zero_add]
  constructor
  · intro h
    have hfirst := h.closed_le [t] (by simp)
    have hlast := h.closed_eq
    simp only [List.countP_cons, List.countP_nil, Nat.zero_add] at hfirst hlast
    refine ⟨hfirst, fun front hfront => ?_, by omega⟩
    have hmore := h.closed_le (t :: front) (List.cons_prefix_cons.mpr ⟨rfl, hfront⟩)
    simp only [List.countP_cons] at hmore
    omega
  · rintro ⟨hfirst, h⟩
    have hlast := h.closed_eq
    constructor
    · intro front hfront
      rcases List.prefix_cons_iff.mp hfront with rfl | ⟨more, rfl, hmore⟩
      · simp
      · have hclosed := h.closed_le more hmore
        simp only [List.countP_cons]
        omega
    · simp only [List.countP_cons]
      omega

end Token

namespace Segment

open Token (Balances atFront behindFront)

/-! ## The end of a tag behind a token -/

theorem tagEnd?_opening (depth : Nat) (rest : Text) :
    tagEnd? .plain depth ('\x7b' :: rest) =
      (tagEnd? .plain (depth + 1) rest).map fun (body, rest) => ('\x7b' :: body, rest) := by
  simp [tagEnd?, Mode.next, depthAfter]

theorem tagEnd?_closing (depth : Nat) (rest : Text) :
    tagEnd? .plain (depth + 1) ('\x7d' :: rest) =
      (tagEnd? .plain depth rest).map fun (body, rest) => ('\x7d' :: body, rest) := by
  simp [tagEnd?, Mode.next, depthAfter]

theorem tagEnd?_last (rest : Text) : tagEnd? .plain 0 ('\x7d' :: rest) = some ([], rest) := by
  simp [tagEnd?]

theorem tagEnd?_nil_iff {depth : Nat} {tail : Text} :
    tagEnd? .plain depth ('\x7d' :: tail) = some ([], tail) ↔ depth = 0 := by
  cases depth with
  | zero => simp [tagEnd?_last]
  | succ depth => simp [tagEnd?_closing]

theorem Passable.ends_iff {s : Text} (hs : Passable s) (depth : Nat) (t tail : Text) :
    tagEnd? .plain depth (s ++ t ++ '\x7d' :: tail) = some (s ++ t, tail) ↔
      tagEnd? .plain depth (t ++ '\x7d' :: tail) = some (t, tail) := by
  rw [List.append_assoc, hs]
  simp

theorem closeQuote?_of_tagEnd? {quote : Char} {depth : Nat} {t tail : Text}
    (h : tagEnd? (.quoted quote) depth (t ++ '\x7d' :: tail) = some (t, tail)) :
    Lexeme.closeQuote? quote t ≠ none := by
  fun_induction Lexeme.closeQuote? quote t with
  | case1 => simp [tagEnd?, Mode.next, depthAfter] at h
  | case2 => simp [tagEnd?, Mode.next, depthAfter] at h
  | case3 c t ih =>
    simp [tagEnd?, Mode.next, depthAfter] at h
    simpa using ih h
  | case4 t => simp
  | case5 c t hslash hpair hc ih =>
    have hne : c ≠ '\\' := by
      rintro rfl
      cases t with
      | nil => exact hslash rfl rfl
      | cons x t => exact hpair x t rfl rfl
    simp [tagEnd?, Mode.next, depthAfter, hne, hc] at h
    simpa using ih h

theorem exists_literal_of_tagEnd? {c : Char} (hc : c = '"' ∨ c = '\x27') {depth : Nat}
    {t tail : Text} (h : tagEnd? .plain depth (c :: t ++ '\x7d' :: tail) = some (c :: t, tail)) :
    ∃ l : Literal, l.text <+: c :: t := by
  have hquoted : tagEnd? (.quoted c) depth (t ++ '\x7d' :: tail) = some (t, tail) := by
    rcases hc with rfl | rfl <;> simpa [tagEnd?, Mode.next, depthAfter] using h
  obtain ⟨⟨s, rest⟩, hclose⟩ := Option.ne_none_iff_exists'.mp (closeQuote?_of_tagEnd? hquoted)
  exact Lexeme.exists_literal hc hclose

/-! ## Tokens -/

theorem complete_brace {c : Char} (hc : c = '\x7b' ∨ c = '\x7d') (t : Text) :
    Complete (c :: t) (.symbol [c]) [c] := by
  have hfind : Symbol.spellings.find? (·.isPrefixOf (c :: t)) = some [c] := by
    rcases hc with rfl | rfl <;> rfl
  refine .symbol (Lexeme.longest_symbol hfind) fun hcomment => ?_
  obtain ⟨after, rfl, -⟩ := Lexeme.commentStart_prefix hcomment
  simp at hc

/-- A text that is no comment and no open string is passed, unless it is a brace. -/
theorem passable_of_decided {rest text : Text} {k : Kind} (h : Decided rest k text)
    (hcomment : ¬ commentStart <+: text) (hopening : k ≠ .symbol ['\x7b'])
    (hclosing : k ≠ .symbol ['\x7d'])
    (hstring : k = .stray → text.head? ≠ some '"' ∧ text.head? ≠ some '\x27') : Passable text := by
  cases h with
  | complete h =>
    cases h with
    | dollar _ h => exact passable_of_spells (.dollar h.holds)
    | name h hword => exact passable_word h.holds
    | word h hword => exact passable_of_spells (.word hword)
    | integer _ hdigits => exact passable_digits hdigits
    | float d => exact passable_decimal d
    | quoted l => exact passable_literal l
    | comment => exact absurd ⟨_, rfl⟩ hcomment
    | symbol h =>
      refine passable_of_spells (.symbol (List.mem_filter.mpr ⟨h.holds, ?_⟩))
      simpa using And.intro hopening hclosing
  | openString hquote =>
    obtain ⟨hdouble, hsingle⟩ := hstring rfl
    rcases hquote with hquote | hquote <;> contradiction
  | openComment hrest => exact absurd ⟨_, hrest.symm⟩ hcomment
  | @lone c after hrest h hquote =>
    have hbrace : ¬ (c = '\x7b' ∨ c = '\x7d') := fun hc => h _ _ (hrest ▸ complete_brace hc after)
    rw [not_or] at hbrace
    exact .of_isQuiet (by simp [isQuiet, hquote, hbrace])

theorem decided_atFront (line : Nat) (c : Char) (t : Text) :
    Decided (c :: t) (atFront line c t).kind (atFront line c t).text :=
  Lexeme.decided_first c t

theorem text_atFront {line : Nat} {c : Char} {t spelling : Text}
    (h : (atFront line c t).kind = .symbol spelling) : (atFront line c t).text = spelling := by
  have hlexed : (atFront line c t).Lexed := Lexeme.lexed_first c t _ line
  simpa [Token.Lexed, h] using hlexed

/-- Behind its first token, the body goes on inside of `depth'` braces. -/
theorem tagEnd?_atFront (line : Nat) {depth depth' : Nat} {c : Char} {t : Text} (tail : Text)
    (h : ∀ rest, tagEnd? .plain depth ((atFront line c t).text ++ rest) =
      (tagEnd? .plain depth' rest).map fun (body, rest) => ((atFront line c t).text ++ body, rest)) :
    tagEnd? .plain depth (c :: t ++ '\x7d' :: tail) = some (c :: t, tail) ↔
      tagEnd? .plain depth' (behindFront c t ++ '\x7d' :: tail) = some (behindFront c t, tail) := by
  have hblank : ∀ x ∈ (atFront line c t).space, isBlank x = true :=
    fun x hx => List.mem_takeWhile_imp hx
  have hspace : Passable (atFront line c t).space := .of_isQuiet (all_isQuiet (by decide) hblank)
  rw [← hspace.ends_iff depth', ← Token.source_atFront line c t, Token.source]
  simp only [List.append_assoc, h]
  simp

theorem open_of_isOpenString {line : Nat} {c : Char} {t : Text}
    (h : (atFront line c t).isOpenString = true) :
    (c = '"' ∨ c = '\x27') ∧ ∀ l : Literal, ¬ l.text <+: c :: t := by
  have hdecided := decided_atFront line c t
  simp only [Token.isOpenString, Bool.and_eq_true, Bool.or_eq_true, decide_eq_true_eq] at h
  obtain ⟨hkind, hhead⟩ := h
  have hc : c = '"' ∨ c = '\x27' := by simpa [atFront] using hhead
  refine ⟨hc, ?_⟩
  rw [hkind] at hdecided
  generalize (atFront line c t).text = text at hdecided
  cases hdecided with
  | complete h => exact absurd rfl (Lexeme.ne_stray_of_complete h)
  | openString _ h => exact h
  | openComment hrest =>
    obtain ⟨rfl, -⟩ := List.cons.inj hrest
    simp at hc
  | lone hrest _ hquote =>
    obtain ⟨rfl, -⟩ := List.cons.inj hrest
    simp [hquote] at hc

theorem tagEnd?_tokensOf {line : Nat} {body tail : Text} {depth : Nat}
    (hcomment : ∀ t ∈ tokensOf line body, ¬ commentStart <+: t.text) :
    tagEnd? .plain depth (body ++ '\x7d' :: tail) = some (body, tail) ↔
      (∀ t ∈ tokensOf line body, t.isOpenString = false) ∧
        Balances depth (tokensOf line body) := by
  induction hn : body.length using Nat.strongRecOn generalizing line body depth with
  | ind n ih =>
    cases body with
    | nil => simp [tokensOf, tagEnd?_nil_iff, Token.balances_nil]
    | cons c t =>
      have hlength : (behindFront c t).length < n := by
        have hsource := congrArg List.length (Token.source_atFront line c t)
        simp [Token.source, atFront] at hsource hn
        omega
      rw [tokensOf_cons, List.forall_mem_cons] at hcomment
      rw [tokensOf_cons, List.forall_mem_cons, Token.balances_cons]
      have hbehind (depth : Nat) :
          tagEnd? .plain depth (behindFront c t ++ '\x7d' :: tail) = some (behindFront c t, tail) ↔ _ :=
        ih _ hlength hcomment.2 rfl
      by_cases hstring : (atFront line c t).isOpenString = true
      · obtain ⟨hquote, hopen⟩ := open_of_isOpenString hstring
        refine ⟨fun hend => ?_, fun h => ?_⟩
        · obtain ⟨l, hl⟩ := exists_literal_of_tagEnd? hquote hend
          exact absurd hl (hopen l)
        · rw [h.1.1] at hstring
          cases hstring
      by_cases hopening : (atFront line c t).kind = .symbol ['\x7b']
      · rw [tagEnd?_atFront line tail (by rw [text_atFront hopening]; exact tagEnd?_opening depth),
          hbehind]
        simp [Token.isOpening, Token.isClosing, hopening, hstring]
      by_cases hclosing : (atFront line c t).kind = .symbol ['\x7d']
      · cases depth with
        | zero =>
          obtain rfl : c = '\x7d' := (List.cons.inj (text_atFront hclosing)).1
          simp [tagEnd?_last, Token.isOpening, Token.isClosing, hclosing]
        | succ depth =>
          rw [tagEnd?_atFront line tail (by rw [text_atFront hclosing]; exact tagEnd?_closing depth),
            hbehind]
          simp [Token.isOpening, Token.isClosing, hclosing, hstring]
      · have hpass : Passable (atFront line c t).text := by
          refine passable_of_decided (decided_atFront line c t) hcomment.1 hopening hclosing ?_
          intro hstray
          simpa [Token.isOpenString, hstray] using hstring
        rw [tagEnd?_atFront line tail (hpass depth), hbehind]
        simp [Token.isOpening, Token.isClosing, hopening, hclosing, hstring]

theorem tagEnd?_tokenize {line : Nat} {body tail : Text}
    (hcomment : ∀ t ∈ tokenize line body, ¬ commentStart <+: t.text) :
    tagEnd? .plain 0 (body ++ '\x7d' :: tail) = some (body, tail) ↔
      (∀ t ∈ tokenize line body, t.isOpenString = false) ∧ Balances 0 (tokenize line body) := by
  have hblank : Passable (body.takeWhile isBlank) :=
    .of_isQuiet (all_isQuiet (by decide) fun x hx => List.mem_takeWhile_imp hx)
  have hsplit : body.takeWhile isBlank ++ body.dropWhile isBlank = body :=
    List.takeWhile_append_dropWhile
  have hends := hblank.ends_iff 0 (body.dropWhile isBlank) tail
  rw [hsplit] at hends
  rw [hends, tagEnd?_tokensOf hcomment, tokenize]

/-! ## Comments -/

theorem kind_of_commentStart {line : Nat} {c : Char} {t : Text}
    (h : commentStart <+: (atFront line c t).text) :
    (atFront line c t).kind = .comment ∨ (atFront line c t).isOpenComment = true := by
  have hfront : (atFront line c t).text <+: c :: t :=
    List.cons_prefix_cons.mpr ⟨rfl, _, Lexeme.first_append c t⟩
  obtain ⟨after, rfl, rfl⟩ := Lexeme.commentStart_prefix (h.trans hfront)
  have hkind : (Lexeme.comment after).kind = .comment ∨ (Lexeme.comment after).kind = .stray := by
    unfold Lexeme.comment
    split <;> simp [Lexeme.unfinished]
  rcases hkind with hkind | hkind
  · exact .inl hkind
  · refine .inr (Bool.and_eq_true_iff.mpr ⟨decide_eq_true hkind, ?_⟩)
    exact List.isPrefixOf_iff_prefix.mpr h

end Segment

open Token (Balances) in
open Segment (tagEnd?) in
/--
The search for the end of a tag and the lexer agree about strings and braces. A body whose tokens
are balanced ends where it should, whatever follows it; and a body that has been cut out has no open
string and balanced braces. Only comments are seen by the lexer alone.
-/
theorem tagEnd?_agrees (line : Nat) :
    (∀ body, (∀ t ∈ tokenize line body,
        t.kind ≠ .comment ∧ t.isOpenString = false ∧ t.isOpenComment = false) →
      Balances 0 (tokenize line body) →
      ∀ tail, tagEnd? .plain 0 (body ++ '\x7d' :: tail) = some (body, tail)) ∧
    ∀ source body tail, tagEnd? .plain 0 source = some (body, tail) →
      (∀ t ∈ tokenize line body, t.kind ≠ .quoted → ¬ commentStart <:+: t.text) →
      source = body ++ '\x7d' :: tail ∧
        (∀ t ∈ tokenize line body, t.isOpenString = false) ∧ Balances 0 (tokenize line body) := by
  constructor
  · intro body htokens hbalances tail
    refine (Segment.tagEnd?_tokenize fun t ht hstart => ?_).mpr
      ⟨fun t ht => (htokens t ht).2.1, hbalances⟩
    obtain ⟨before, after, h⟩ := List.append_of_mem ht
    obtain ⟨front, c, rest, -, -, -, rfl⟩ := atFront_of_tokenize h
    obtain ⟨hkind, -, hopen⟩ := htokens _ ht
    simpa [hkind, hopen] using Segment.kind_of_commentStart hstart
  · intro source body tail hend houtside
    obtain rfl := Segment.tagEnd?_append hend
    refine ⟨rfl, (Segment.tagEnd?_tokenize fun t ht hstart => ?_).mp hend⟩
    obtain ⟨before, after, h⟩ := List.append_of_mem ht
    obtain ⟨front, c, rest, -, -, -, rfl⟩ := atFront_of_tokenize h
    refine houtside _ ht ?_ hstart.isInfix
    rcases Segment.kind_of_commentStart hstart with hkind | hopen
    · simp [hkind]
    · simp only [Token.isOpenComment, Bool.and_eq_true, decide_eq_true_eq] at hopen
      simp [hopen.1]

/-- Braces inside of strings and of braces, quotes of both kinds, and what looks like a comment. -/
def nestedBraces : Text := "ä\x7b'\x7d\\'\x7b' $a\x7b1\x7d\x7d \"/*\x7d\""

open Token (Balances) in
open Segment (tagEnd?) in
theorem tagEnd?_agrees_nestedBraces :
    tagEnd? .plain 0 (nestedBraces ++ ['\x7d', '\x7d', 'x']) = some (nestedBraces, ['\x7d', 'x']) ∧
      Balances 0 (tokenize 3 nestedBraces) ∧
      ∀ tail, tagEnd? .plain 0 (nestedBraces ++ '\x7d' :: tail) = some (nestedBraces, tail) := by
  have hend : tagEnd? .plain 0 (nestedBraces ++ ['\x7d', '\x7d', 'x']) =
      some (nestedBraces, ['\x7d', 'x']) := by decide +kernel
  have houtside : ∀ t ∈ tokenize 3 nestedBraces, t.kind ≠ .quoted → ¬ commentStart <:+: t.text := by
    decide +kernel
  have htokens : ∀ t ∈ tokenize 3 nestedBraces,
      t.kind ≠ .comment ∧ t.isOpenString = false ∧ t.isOpenComment = false := by decide +kernel
  obtain ⟨-, -, hbalances⟩ := (tagEnd?_agrees 3).2 _ _ _ hend houtside
  exact ⟨hend, hbalances, (tagEnd?_agrees 3).1 _ htokens hbalances⟩

end Stencil
