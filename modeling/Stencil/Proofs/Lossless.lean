import Mathlib.Algebra.Group.Nat.Defs
import Mathlib.Data.List.TakeWhile
import Stencil.Cursor.Basic

/-!
# Tokens and the text they are cut from

Tokens are cut from a text one after the other, so no character of it gets lost but the white space
in front of the first one. What stands before a token tells its line, and what stands behind its
first character tells all the rest.
-/

namespace Stencil

theorem Text.not_isBlank_trimStart (t : Text) : ∀ x ∈ t.trimStart.head?, isBlank x = false := by
  intro x hx
  have hnot := List.head?_dropWhile_not isBlank t
  rw [trimStart] at hx
  simpa [Option.mem_def.mp hx] using hnot

namespace Token

theorem join_cons (t : Token) (tokens : List Token) :
    join (t :: tokens) = t.text ++ (t.space ++ join tokens) := by
  simp [join, source]

/-- The token at the front of a text that starts with `c` on `line`. -/
def atFront (line : Nat) (c : Char) (t : Text) : Token where
  kind := (Lexeme.first c t).kind
  text := c :: (Lexeme.first c t).tail
  space := (Lexeme.first c t).rest.takeWhile isBlank
  line := line

/-- The text behind the token at the front. -/
def behindFront (c : Char) (t : Text) : Text := (Lexeme.first c t).rest.dropWhile isBlank

theorem source_atFront (line : Nat) (c : Char) (t : Text) :
    (atFront line c t).source ++ behindFront c t = c :: t := by
  simp only [source, atFront, behindFront, List.cons_append, List.append_assoc]
  rw [List.takeWhile_append_dropWhile, Lexeme.first_append]

theorem not_isBlank_behindFront (c : Char) (t : Text) :
    ∀ x ∈ (behindFront c t).head?, isBlank x = false :=
  Text.not_isBlank_trimStart _

theorem length_behindFront_le (c : Char) (t : Text) : (behindFront c t).length ≤ t.length :=
  (List.dropWhile_sublist isBlank).length_le.trans (Lexeme.length_rest_first_le c t)

theorem front_induction {motive : Text → Prop} (nil : motive [])
    (cons : ∀ c t, motive (behindFront c t) → motive (c :: t)) : ∀ t, motive t
  | [] => nil
  | c :: t => cons c t (front_induction nil cons (behindFront c t))
termination_by t => t.length
decreasing_by exact Nat.lt_succ_of_le (length_behindFront_le c t)

end Token

open Token (atFront behindFront)

theorem tokensOf_cons (line : Nat) (c : Char) (t : Text) :
    tokensOf line (c :: t) = atFront line c t ::
      tokensOf (line + Text.newlines (atFront line c t).source) (behindFront c t) := by
  have hlines : Text.newlines (atFront line c t).source =
      Text.newlines (atFront line c t).text + Text.newlines (atFront line c t).space :=
    List.count_append
  rw [tokensOf, hlines, ← Nat.add_assoc]
  rfl

theorem join_tokensOf (line : Nat) (t : Text) : Token.join (tokensOf line t) = t := by
  fun_induction tokensOf line t with
  | case1 => rfl
  | case2 line c t lexeme text space ih =>
    simp only [Token.join_cons, ih, space, text, lexeme]
    rw [List.takeWhile_append_dropWhile, List.cons_append, Lexeme.first_append]

theorem tokensOf_suffix {line : Nat} {t : Text} {before after : List Token}
    (h : tokensOf line t = before ++ after) :
    after = tokensOf (line + Text.newlines (Token.join before)) (Token.join after) := by
  induction before generalizing line t with
  | nil =>
    rw [List.nil_append] at h
    rw [← h, join_tokensOf]
    rfl
  | cons first before ih =>
    cases t with
    | nil => simp [tokensOf] at h
    | cons c t =>
      rw [tokensOf_cons, List.cons_append] at h
      obtain ⟨rfl, hmore⟩ := List.cons.inj h
      have hlines : Text.newlines (Token.join (atFront line c t :: before)) =
          Text.newlines (atFront line c t).source + Text.newlines (Token.join before) := by
        simp [Token.join, Text.newlines]
      rw [hlines, ← Nat.add_assoc]
      exact ih hmore

/-- A token is the one at the front of what is left of the text when all before it are cut off. -/
theorem atFront_of_tokensOf {line : Nat} {t : Text} {before after : List Token} {token : Token}
    (hhead : ∀ x ∈ t.head?, isBlank x = false) (h : tokensOf line t = before ++ token :: after) :
    ∃ c rest, isBlank c = false ∧ Token.join (token :: after) = c :: rest ∧
      t = Token.join before ++ c :: rest ∧
      token = atFront (line + Text.newlines (Token.join before)) c rest := by
  induction before generalizing line t with
  | nil =>
    cases t with
    | nil => simp [tokensOf] at h
    | cons c t =>
      have hjoin := join_tokensOf line (c :: t)
      rw [h] at hjoin
      rw [tokensOf_cons] at h
      refine ⟨c, t, hhead c rfl, hjoin, rfl, ?_⟩
      exact (List.cons.inj h).1.symm
  | cons first before ih =>
    cases t with
    | nil => simp [tokensOf] at h
    | cons c t =>
      rw [tokensOf_cons, List.cons_append] at h
      obtain ⟨rfl, hmore⟩ := List.cons.inj h
      obtain ⟨d, rest, hblank, hjoin, hsplit, htoken⟩ :=
        ih (Token.not_isBlank_behindFront c t) hmore
      refine ⟨d, rest, hblank, hjoin, ?_, ?_⟩
      · rw [← Token.source_atFront line c t, hsplit]
        simp [Token.join]
      · rw [htoken]
        simp [Token.join, Text.newlines, Nat.add_assoc]

theorem tokenize_of_head {t : Text} (h : ∀ b ∈ t.head?, isBlank b = false) (line : Nat) :
    tokenize line t = tokensOf line t := by
  cases t with
  | nil => rfl
  | cons c t =>
    have hc := h c rfl
    simp [tokenize, hc, Text.newlines]

theorem atFront_of_tokenize {line : Nat} {source : Text} {before after : List Token} {token : Token}
    (h : tokenize line source = before ++ token :: after) :
    ∃ front c rest, isBlank c = false ∧ Token.join (token :: after) = c :: rest ∧
      source = front ++ c :: rest ∧ token = atFront (line + Text.newlines front) c rest := by
  obtain ⟨c, rest, hblank, hjoin, hsplit, htoken⟩ :=
    atFront_of_tokensOf source.not_isBlank_trimStart h
  refine ⟨source.takeWhile isBlank ++ Token.join before, c, rest, hblank, hjoin, ?_, ?_⟩
  · rw [List.append_assoc, ← hsplit, Text.trimStart, List.takeWhile_append_dropWhile]
  · rw [htoken]
    simp [Text.newlines, Nat.add_assoc]

/-! ## Lines in words -/

namespace Overflow

variable {overflow : Overflow} {w : Nat} {a b c : BitVec w}

theorem toNat_ofNat_of_lt {n : Nat} (h : n < 2 ^ w) : (BitVec.ofNat w n).toNat = n := by
  rw [BitVec.toNat_ofNat, Nat.mod_eq_of_lt h]

theorem add?_of_lt (h : a.toNat + b.toNat < 2 ^ w) : overflow.add? a b = some (a + b) := by
  cases overflow with
  | wraps => rfl
  | stops => simp [add?, BitVec.uaddOverflow, h]

theorem add?_stops_of_le (h : 2 ^ w ≤ a.toNat + b.toNat) : stops.add? a b = none := by
  simp [add?, BitVec.uaddOverflow, h]

theorem toNat_of_add? (h : overflow.add? a b = some c) :
    c.toNat = (a.toNat + b.toNat) % 2 ^ w := by
  have hsum : c = a + b := by
    unfold add? at h
    split at h
    · split at h <;> cases h
      rfl
    · exact (Option.some.inj h).symm
  rw [hsum, BitVec.toNat_add]

end Overflow

/-- The token with its line cut to 32 bits. -/
def Token.wrapped (t : Token) : Token := { t with line := t.line % 2 ^ 32 }

theorem Token.wrapped_atFront (line : Nat) (c : Char) (t : Text) :
    (atFront line c t).wrapped = atFront (line % 2 ^ 32) c t :=
  rfl

theorem Token.join_map_wrapped (tokens : List Token) :
    Token.join (tokens.map Token.wrapped) = Token.join tokens := by
  simp only [Token.join, List.flatMap_map]
  rfl

/-- From `line` on the program can count so many lines more, rightly or not. -/
def Overflow.Admits (overflow : Overflow) (line : BitVec 32) (lines : Nat) : Prop :=
  overflow = .wraps ∨ line.toNat + lines < 2 ^ 32

section Words

variable {overflow : Overflow} {line : BitVec 32} {t source : Text} {tokens : List Token}

/-- A number that agrees with a line in a word still does after more lines. -/
theorem mod_of_add?_feeds {below : BitVec 32} {n : Nat}
    (h : overflow.add? line (Text.feeds t) = some below) (hn : n % 2 ^ 32 = line.toNat) :
    (n + t.newlines) % 2 ^ 32 = below.toNat := by
  rw [Overflow.toNat_of_add? h, ← hn, Text.feeds, BitVec.toNat_ofNat, ← Nat.add_mod]

theorem Overflow.Admits.add? {u : Text} (h : overflow.Admits line (t ++ u).newlines) :
    ∃ below, overflow.add? line (Text.feeds t) = some below ∧
      overflow.Admits below u.newlines := by
  rcases h with rfl | h
  · exact ⟨_, rfl, .inl rfl⟩
  · rw [Text.newlines_append] at h
    have hfeeds : (Text.feeds t).toNat = t.newlines := Overflow.toNat_ofNat_of_lt (by omega)
    have hadd : overflow.add? line (Text.feeds t) = some (line + Text.feeds t) :=
      Overflow.add?_of_lt (by omega)
    refine ⟨_, hadd, .inr ?_⟩
    rw [Overflow.toNat_of_add? hadd, hfeeds, Nat.mod_eq_of_lt (by omega)]
    omega

theorem tokensOf?_cons (c : Char) :
    tokensOf? overflow line (c :: t) = (do
      let below ← overflow.add? line (Text.feeds (atFront line.toNat c t).text)
      let below ← overflow.add? below (Text.feeds (atFront line.toNat c t).space)
      let more ← tokensOf? overflow below (behindFront c t)
      return atFront line.toNat c t :: more) := by
  rw [tokensOf?]
  rfl

theorem exists_of_tokensOf?_cons {c : Char} (h : tokensOf? overflow line (c :: t) = some tokens) :
    ∃ below more, (∀ n, n % 2 ^ 32 = line.toNat →
        (n + Text.newlines (atFront line.toNat c t).source) % 2 ^ 32 = below.toNat) ∧
      tokensOf? overflow below (behindFront c t) = some more ∧
      tokens = atFront line.toNat c t :: more := by
  rw [tokensOf?_cons] at h
  obtain ⟨middle, hmiddle, h⟩ := Option.bind_eq_some_iff.mp h
  obtain ⟨below, hbelow, h⟩ := Option.bind_eq_some_iff.mp h
  obtain ⟨more, hmore, h⟩ := Option.bind_eq_some_iff.mp h
  refine ⟨below, more, fun n hn => ?_, hmore, (Option.some.inj h).symm⟩
  rw [Token.source, Text.newlines_append, ← Nat.add_assoc]
  exact mod_of_add?_feeds hbelow (mod_of_add?_feeds hmiddle hn)

theorem eq_wrapped_of_tokensOf? (h : tokensOf? overflow line t = some tokens) {n : Nat}
    (hn : n % 2 ^ 32 = line.toNat) : tokens = (tokensOf n t).map Token.wrapped := by
  induction t using Token.front_induction generalizing line tokens n with
  | nil =>
    rw [tokensOf?] at h
    cases h
    simp [tokensOf]
  | cons c t ih =>
    obtain ⟨below, more, hbelow, hmore, rfl⟩ := exists_of_tokensOf?_cons h
    rw [tokensOf_cons, List.map_cons, Token.wrapped_atFront, hn]
    exact congrArg _ (ih hmore (hbelow n hn))

theorem exists_tokensOf? (h : overflow.Admits line t.newlines) :
    ∃ tokens, tokensOf? overflow line t = some tokens := by
  induction t using Token.front_induction generalizing line with
  | nil => exact ⟨[], by rw [tokensOf?]⟩
  | cons c t ih =>
    rw [← Token.source_atFront line.toNat c t, Token.source, List.append_assoc] at h
    obtain ⟨middle, hmiddle, h⟩ := h.add?
    obtain ⟨below, hbelow, h⟩ := h.add?
    obtain ⟨more, hmore⟩ := ih h
    refine ⟨atFront line.toNat c t :: more, ?_⟩
    simp [tokensOf?_cons, hmiddle, hbelow, hmore]

theorem eq_wrapped_of_tokenize? (h : tokenize? overflow line source = some tokens) :
    tokens = (tokenize line.toNat source).map Token.wrapped := by
  obtain ⟨below, hbelow, h⟩ := Option.bind_eq_some_iff.mp h
  exact eq_wrapped_of_tokensOf? h (mod_of_add?_feeds hbelow (Nat.mod_eq_of_lt line.isLt))

theorem exists_tokenize? (h : overflow.Admits line source.newlines) :
    ∃ tokens, tokenize? overflow line source = some tokens := by
  rw [← List.takeWhile_append_dropWhile (p := isBlank) (l := source)] at h
  obtain ⟨below, hbelow, h⟩ := h.add?
  obtain ⟨tokens, htokens⟩ := exists_tokensOf? h
  refine ⟨tokens, ?_⟩
  rw [tokenize?, hbelow]
  exact htokens

theorem join_of_tokensOf? (h : tokensOf? overflow line t = some tokens) :
    Token.join tokens = t := by
  rw [eq_wrapped_of_tokensOf? h (Nat.mod_eq_of_lt line.isLt), Token.join_map_wrapped, join_tokensOf]

theorem join_of_tokenize? (h : tokenize? overflow line source = some tokens) :
    Token.join tokens = source.trimStart := by
  obtain ⟨below, -, h⟩ := Option.bind_eq_some_iff.mp h
  exact join_of_tokensOf? h

theorem eq_of_tokenize? (h : tokenize? overflow line source = some tokens)
    (hfits : line.toNat + source.newlines < 2 ^ 32) : tokens = tokenize line.toNat source := by
  have hsame : ∀ t ∈ tokenize line.toNat source, t.wrapped = t := by
    intro t ht
    obtain ⟨before, after, hsplit⟩ := List.append_of_mem ht
    obtain ⟨front, c, rest, -, -, rfl, rfl⟩ := atFront_of_tokenize hsplit
    rw [Text.newlines_append] at hfits
    have hline : (line.toNat + front.newlines) % 2 ^ 32 = line.toNat + front.newlines :=
      Nat.mod_eq_of_lt (by omega)
    rw [Token.wrapped_atFront, hline]
  rw [eq_wrapped_of_tokenize? h, List.map_congr_left hsame, List.map_id']

theorem tokenize?_of_lt (hfits : line.toNat + source.newlines < 2 ^ 32) :
    tokenize? overflow line source = some (tokenize line.toNat source) := by
  obtain ⟨tokens, htokens⟩ := exists_tokenize? (.inr hfits)
  rw [htokens, eq_of_tokenize? htokens hfits]

theorem front_of_tokenize? {before after : List Token} {token : Token}
    (h : tokenize? overflow line source = some (before ++ token :: after)) :
    ∃ front c rest, isBlank c = false ∧ Token.join (token :: after) = c :: rest ∧
      source = front ++ c :: rest ∧
      token = (atFront (line.toNat + Text.newlines front) c rest).wrapped := by
  obtain ⟨before', back, hsplit, rfl, hback⟩ :=
    List.map_eq_append_iff.mp (eq_wrapped_of_tokenize? h).symm
  obtain ⟨token', after', rfl, rfl, rfl⟩ := List.map_eq_cons_iff.mp hback
  obtain ⟨front, c, rest, hblank, hjoin, hsource, rfl⟩ := atFront_of_tokenize hsplit
  refine ⟨front, c, rest, hblank, ?_, hsource, rfl⟩
  rw [← List.map_cons, Token.join_map_wrapped, hjoin]

end Words

/--
Nothing of a source gets lost in its tokens but the white space in front of them. A token starts
with no blank and is followed by blanks only, and its line counts the line feeds before it, as far
as 32 bits go. Where the lines fit, the words make no difference.
-/
theorem tokenize_lossless (overflow : Overflow) (line : BitVec 32) (source : Text) :
    (overflow.Admits line source.newlines →
      ∃ tokens, tokenize? overflow line source = some tokens) ∧
    ∀ tokens, tokenize? overflow line source = some tokens →
      Token.join tokens = source.trimStart ∧
      (∀ t ∈ tokens, t.text ≠ [] ∧ (∀ c ∈ t.text.head?, isBlank c = false) ∧
        ∀ c ∈ t.space, isBlank c = true) ∧
      (∀ before t after, tokens = before ++ t :: after →
        ∃ front, source = front ++ Token.join (t :: after) ∧
          t.line = (line.toNat + Text.newlines front) % 2 ^ 32 ∧
          (line.toNat + Text.newlines source < 2 ^ 32 →
            t.line = line.toNat + Text.newlines front)) ∧
      (line.toNat + Text.newlines source < 2 ^ 32 → tokens = tokenize line.toNat source) := by
  refine ⟨exists_tokenize?, fun tokens htokens => ⟨?_, ?_, ?_, eq_of_tokenize? htokens⟩⟩
  · exact join_of_tokenize? htokens
  · intro t ht
    obtain ⟨before, after, rfl⟩ := List.append_of_mem ht
    obtain ⟨front, c, rest, hblank, -, -, rfl⟩ := front_of_tokenize? htokens
    refine ⟨by simp [Token.wrapped, atFront], ?_, ?_⟩
    · simpa [Token.wrapped, atFront] using hblank
    · intro x hx
      exact List.mem_takeWhile_imp hx
  · rintro before t after rfl
    obtain ⟨front, c, rest, -, hjoin, hsource, rfl⟩ := front_of_tokenize? htokens
    refine ⟨front, by rw [hjoin, hsource], rfl, fun hfits => ?_⟩
    have hline : line.toNat + Text.newlines front < 2 ^ 32 := by
      rw [hsource, Text.newlines_append] at hfits
      omega
    exact Nat.mod_eq_of_lt hline

/-- Line feeds in front, inside a comment, after a backslash and inside a string that never ends. -/
def crookedLines : Text := "\n\t$a /*\n*/ 'b\\\n'.1e\n \"c\n d"

theorem tokenize_lossless_crookedLines :
    Overflow.stops.Admits 7 crookedLines.newlines ∧
    ∃ before t, tokenize? .stops 7 crookedLines = some (before ++ [t]) ∧
      t.text = "\"c\n d".toList ∧ t.line = 11 ∧ (∀ c ∈ t.text.head?, isBlank c = false) ∧
      ∃ front, crookedLines = front ++ Token.join [t] ∧ 11 = 7 + Text.newlines front := by
  have hadmits : Overflow.stops.Admits 7 crookedLines.newlines := .inr (by decide)
  obtain ⟨hexists, hall⟩ := tokenize_lossless .stops 7 crookedLines
  obtain ⟨tokens, htokens⟩ := hexists hadmits
  have hlast : (tokenize? .stops 7 crookedLines).bind List.getLast? =
      some ⟨.stray, "\"c\n d".toList, [], 11⟩ := by decide +kernel
  rw [htokens, Option.bind_some] at hlast
  obtain ⟨before, rfl⟩ := List.getLast?_eq_some_iff.mp hlast
  obtain ⟨-, hedges, hlines, -⟩ := hall _ htokens
  obtain ⟨front, hsource, -, hline⟩ := hlines before _ [] rfl
  exact ⟨hadmits, before, _, htokens, rfl, rfl, (hedges _ (by simp)).2.1, front, hsource,
    hline (by decide)⟩

end Stencil
