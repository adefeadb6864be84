import Mathlib.Logic.Relation
import Stencil.Proofs.Lexed
import Stencil.Proofs.Lossless

/-!
# Text put behind the last token

Text that is put behind the tokens of a cursor is cut together with the tokens from some place on.
Nothing of either gets lost, and what comes from that place on is cut as if it stood alone. Tokens
before the place stay as they are, but for white space behind the last of them.
-/

namespace Stencil

namespace Cursor

/-! ## Moves -/

/-- A move of a cursor. To skip or take a token is to advance over it, to refuse it is to stay. -/
inductive Move : Cursor → Cursor → Prop
  | advance (c : Cursor) : Move c c.advance
  | back (c : Cursor) : Move c c.back
  | toEnd (c : Cursor) : Move c c.toEnd
  | collect (c : Cursor) (stops : List Want) : Move c (c.collect stops).2

theorem Move.tokens_eq {c d : Cursor} (h : Move c d) : d.tokens = c.tokens := by
  obtain ⟨behind, ahead, endLine⟩ := c
  cases h with
  | advance => cases ahead <;> simp [Cursor.advance, tokens]
  | back => cases behind <;> simp [Cursor.back, tokens]
  | toEnd => simp [Cursor.toEnd, tokens]
  | collect stops => simp [Cursor.collect, tokens, List.takeWhile_append_dropWhile]

theorem Move.endLine_eq {c d : Cursor} (h : Move c d) : d.endLine = c.endLine := by
  obtain ⟨behind, ahead, endLine⟩ := c
  cases h with
  | advance => cases ahead <;> rfl
  | back => cases behind <;> rfl
  | toEnd => rfl
  | collect stops => rfl

theorem same_of_moves {c d : Cursor} (h : Relation.ReflTransGen Move c d) :
    d.tokens = c.tokens ∧ d.endLine = c.endLine := by
  induction h with
  | refl => exact ⟨rfl, rfl⟩
  | tail _ hmove ih => exact ⟨hmove.tokens_eq.trans ih.1, hmove.endLine_eq.trans ih.2⟩

/-! ## Tokens and places -/

theorem tokens_place (tokens : List Token) (position endLine : Nat) :
    (place tokens position endLine).tokens = tokens := by
  simp [place, Cursor.tokens]

theorem length_tokens (c : Cursor) : c.tokens.length = c.length := by simp [tokens, length]

theorem length_addSpace (space : Text) (tokens : List Token) :
    (addSpace space tokens).length = tokens.length := by
  fun_induction addSpace space tokens with
  | case1 => rfl
  | case2 => rfl
  | case3 t more hmore ih => rw [List.length_cons, ih, List.length_cons]

theorem addSpace_nil (tokens : List Token) : addSpace [] tokens = tokens := by
  fun_induction addSpace [] tokens with
  | case1 => rfl
  | case2 t => rw [List.append_nil]
  | case3 t more hmore ih => rw [ih]

theorem join_addSpace (space : Text) {tokens : List Token} (h : tokens ≠ []) :
    Token.join (addSpace space tokens) = Token.join tokens ++ space := by
  fun_induction addSpace space tokens with
  | case1 => exact absurd rfl h
  | case2 t => simp [Token.join, Token.source]
  | case3 t more hmore ih =>
    rw [Token.join_cons, ih (by simpa using hmore), Token.join_cons]
    simp

theorem getElem?_addSpace (space : Text) {tokens : List Token} {i : Nat} {t : Token}
    (h : tokens[i]? = some t) :
    ∃ blanks, (addSpace space tokens)[i]? = some { t with space := t.space ++ blanks } ∧
      (blanks = [] ∨ i + 1 = tokens.length ∧ blanks = space) := by
  fun_induction addSpace space tokens generalizing i with
  | case1 => cases h
  | case2 first =>
    obtain ⟨rfl, rfl⟩ : i = 0 ∧ first = t := by
      cases i with
      | zero => exact ⟨rfl, Option.some.inj h⟩
      | succ i => cases h
    exact ⟨space, rfl, .inr ⟨rfl, rfl⟩⟩
  | case3 first more hmore ih =>
    cases i with
    | zero =>
      obtain rfl := Option.some.inj h
      exact ⟨[], by simp, .inl rfl⟩
    | succ i =>
      obtain ⟨blanks, htoken, hblanks⟩ := ih h
      exact ⟨blanks, htoken, hblanks.imp_right (.imp_left (congrArg (· + 1)))⟩

end Cursor

section Words

variable {overflow : Overflow} {line : BitVec 32} {t source : Text} {tokens : List Token}

theorem tokenize?_of_head (h : ∀ b ∈ t.head?, isBlank b = false) :
    tokenize? overflow line t = tokensOf? overflow line t := by
  have hnone : t.takeWhile isBlank = [] ∧ t.dropWhile isBlank = t := by
    cases t with
    | nil => exact ⟨rfl, rfl⟩
    | cons c t => simp [h c rfl]
  have hline : overflow.add? line (Text.feeds []) = some line := by
    have hzero : Text.feeds [] = 0#32 := rfl
    rw [hzero, Overflow.add?_of_lt (by simpa using line.isLt), BitVec.add_zero]
  rw [tokenize?, hnone.1, hnone.2, hline]
  rfl

theorem tokenize?_trimStart (source : Text) :
    (do
      let line ← overflow.add? line (Text.feeds (source.takeWhile isBlank))
      tokenize? overflow line (source.dropWhile isBlank)) = tokenize? overflow line source := by
  refine Option.bind_congr fun below _ => ?_
  exact tokenize?_of_head source.not_isBlank_trimStart

theorem tokensOf?_suffix {before after : List Token} {token : Token}
    (h : tokensOf? overflow line t = some (before ++ token :: after)) :
    tokensOf? overflow (.ofNat 32 token.line) (Token.join (token :: after)) =
      some (token :: after) := by
  induction before generalizing line t with
  | nil =>
    have hjoin := join_of_tokensOf? h
    cases t with
    | nil => simp [tokensOf?] at h
    | cons c t =>
      obtain ⟨below, more, -, -, hcons⟩ := exists_of_tokensOf?_cons h
      obtain ⟨rfl, -⟩ := List.cons.inj hcons
      rw [List.nil_append] at h hjoin
      rw [hjoin, ← h, Token.atFront, BitVec.ofNat_toNat, BitVec.setWidth_eq]
  | cons first before ih =>
    cases t with
    | nil => simp [tokensOf?] at h
    | cons c t =>
      obtain ⟨below, more, -, hmore, hcons⟩ := exists_of_tokensOf?_cons h
      obtain ⟨-, rfl⟩ := List.cons.inj hcons
      exact ih hmore

end Words

namespace Token

/-- The text of the token starts with no blank. -/
def Solid (t : Token) : Prop := ∃ x ∈ t.text.head?, isBlank x = false

theorem solid_of_mem_tokenize? {overflow : Overflow} {line : BitVec 32} {source : Text}
    {tokens : List Token} (h : tokenize? overflow line source = some tokens) :
    ∀ t ∈ tokens, t.Solid := by
  intro t ht
  obtain ⟨before, after, rfl⟩ := List.append_of_mem ht
  obtain ⟨front, x, rest, hx, -, -, rfl⟩ := front_of_tokenize? h
  exact ⟨x, rfl, hx⟩

theorem Solid.join_cons {t : Token} (h : t.Solid) (more : List Token) :
    ∃ x rest, join (t :: more) = x :: rest ∧ isBlank x = false := by
  obtain ⟨x, htext, hx⟩ := h
  obtain ⟨rest, htext⟩ := List.head?_eq_some_iff.mp htext
  exact ⟨x, rest ++ (t.space ++ join more), by rw [Token.join_cons, htext, List.cons_append], hx⟩

end Token

namespace Cursor

/-! ## Other tokens from a place on -/

section Recut

variable (c : Cursor) (offset : Nat) (space : Text) (cut : List Token)

theorem tokens_recut :
    (c.recut offset space cut).tokens = addSpace space (c.tokens.take offset) ++ cut := by
  rw [recut, tokens_place]

theorem length_kept : (addSpace space (c.tokens.take offset)).length = min offset c.length := by
  rw [length_addSpace, List.length_take, length_tokens]

theorem drop_recut : (c.recut offset space cut).tokens.drop (min offset c.length) = cut := by
  rw [tokens_recut, List.drop_left' (c.length_kept offset space)]

/-- The tokens before the place keep what they are; only the last one may get more white space. -/
theorem getElem?_recut {i : Nat} {t : Token} (hi : i < min offset c.length)
    (ht : c.tokens[i]? = some t) :
    ∃ blanks, (c.recut offset space cut).tokens[i]? = some { t with space := t.space ++ blanks } ∧
      (blanks = [] ∨ i + 1 = min offset c.length ∧ blanks = space) := by
  have hkept : (c.tokens.take offset)[i]? = some t := by
    rw [List.getElem?_take_of_lt (by omega), ht]
  obtain ⟨blanks, htoken, hblanks⟩ := getElem?_addSpace space hkept
  rw [List.length_take, length_tokens] at hblanks
  refine ⟨blanks, ?_, hblanks⟩
  rw [tokens_recut, List.getElem?_append_left (by rw [length_kept]; exact hi), htoken]

theorem position_recut :
    (c.recut offset space cut).position = min c.position (min offset c.length) := by
  have hposition : c.position ≤ c.length := Nat.le_add_right _ _
  have hplaced : (c.recut offset space cut).position =
      min (min c.position offset) (c.recut offset space cut).tokens.length := by
    simp [recut, place, position, Cursor.tokens]
  rw [hplaced, tokens_recut, List.length_append, length_kept]
  omega

theorem endLine_recut : (c.recut offset space cut).endLine =
    lastLine (c.recut offset space cut).tokens (c.lineAt offset) := by
  rw [tokens_recut]
  rfl

end Recut

theorem join_tokens (c : Cursor) (offset : Nat) :
    Token.join (c.tokens.take offset) ++ c.textFrom offset none = c.textFrom 0 none := by
  simp only [textFrom, List.drop_zero, Token.join]
  rw [← List.flatMap_append, List.take_append_drop]

theorem textFrom_eq_nil {c : Cursor} {offset : Nat} (h : c.tokens[offset]? = none) :
    c.textFrom offset none = [] := by
  rw [textFrom, List.drop_eq_nil_of_le (List.getElem?_eq_none_iff.mp h)]
  rfl

/-! ## Text behind the last token -/

section Splices

variable {overflow : Overflow} {c d : Cursor} {offset : Nat} {text : Text}

theorem exists_of_splice? (h : c.splice? overflow offset text = some d) :
    ∃ cut, tokenize? overflow (.ofNat 32 (c.lineAt offset)) (c.textFrom offset none ++ text) =
        some cut ∧
      d = c.recut offset ((c.textFrom offset none ++ text).takeWhile isBlank) cut := by
  obtain ⟨line, hline, h⟩ := Option.bind_eq_some_iff.mp h
  obtain ⟨cut, hcut, h⟩ := Option.bind_eq_some_iff.mp h
  refine ⟨cut, ?_, (Option.some.inj h).symm⟩
  rw [← tokenize?_trimStart, hline]
  exact hcut

theorem splice?_of_tokenize? {cut : List Token}
    (h : tokenize? overflow (.ofNat 32 (c.lineAt offset)) (c.textFrom offset none ++ text) =
      some cut) :
    c.splice? overflow offset text =
      some (c.recut offset ((c.textFrom offset none ++ text).takeWhile isBlank) cut) := by
  rw [← tokenize?_trimStart] at h
  obtain ⟨line, hline, hcut⟩ := Option.bind_eq_some_iff.mp h
  simp [splice?, hline, hcut]

theorem exists_splice? (h : overflow = .wraps ∨
    c.lineAt offset + Text.newlines (c.textFrom offset none ++ text) < 2 ^ 32) :
    ∃ d, c.splice? overflow offset text = some d := by
  have hadmits : overflow.Admits (.ofNat 32 (c.lineAt offset))
      (Text.newlines (c.textFrom offset none ++ text)) := by
    refine h.imp_right fun h => ?_
    rw [Overflow.toNat_ofNat_of_lt (by omega)]
    exact h
  obtain ⟨cut, hcut⟩ := exists_tokenize? hadmits
  exact ⟨_, splice?_of_tokenize? hcut⟩

theorem splice?_of_lt
    (h : c.lineAt offset + Text.newlines (c.textFrom offset none ++ text) < 2 ^ 32) :
    c.splice? overflow offset text = some (c.splice offset text) := by
  have hline : (BitVec.ofNat 32 (c.lineAt offset)).toNat = c.lineAt offset :=
    Overflow.toNat_ofNat_of_lt (by omega)
  rw [← hline] at h
  rw [splice?_of_tokenize? (tokenize?_of_lt h), hline, splice]
  exact congrArg (fun cut => some (c.recut offset _ cut))
    (tokenize_of_head (Text.not_isBlank_trimStart _) _).symm

theorem place_min (c : Cursor) (offset : Nat) :
    c.lineAt (min offset c.length) = c.lineAt offset ∧
      c.textFrom (min offset c.length) none = c.textFrom offset none := by
  rcases Nat.le_total offset c.length with hle | hle
  · rw [Nat.min_eq_left hle]
    exact ⟨rfl, rfl⟩
  · have hend : ∀ n, c.length ≤ n → c.tokens[n]? = none := fun n hn => by
      rw [List.getElem?_eq_none_iff, length_tokens]
      exact hn
    rw [Nat.min_eq_right hle, textFrom_eq_nil (hend _ hle),
      textFrom_eq_nil (hend _ (Nat.le_refl _))]
    exact ⟨by rw [lineAt, lineAt, hend _ hle, hend _ (Nat.le_refl _)], rfl⟩

theorem textFrom_splice? (h : ∀ t ∈ c.tokens, t.Solid)
    (hsplice : c.splice? overflow offset text = some d) :
    d.textFrom 0 none = if c.length = 0 then text.trimStart else c.textFrom 0 none ++ text := by
  obtain ⟨cut, hcut, rfl⟩ := exists_of_splice? hsplice
  have hjoin : (c.recut offset ((c.textFrom offset none ++ text).takeWhile isBlank) cut).textFrom 0
      none = Token.join (addSpace ((c.textFrom offset none ++ text).takeWhile isBlank)
        (c.tokens.take offset)) ++ (c.textFrom offset none ++ text).trimStart := by
    rw [textFrom, List.drop_zero, tokens_recut, Token.join, List.flatMap_append]
    exact congrArg _ (join_of_tokenize? hcut)
  have hwhole := c.join_tokens offset
  rw [hjoin]
  cases hkept : c.tokens.take offset with
  | nil =>
    rw [hkept] at hwhole
    rw [show c.textFrom offset none = c.textFrom 0 none from hwhole]
    cases htokens : c.tokens with
    | nil =>
      have hempty : c.length = 0 := by rw [← length_tokens, htokens, List.length_nil]
      rw [if_pos hempty, textFrom_eq_nil (by rw [htokens]; rfl)]
      rfl
    | cons t more =>
      have hfilled : c.length ≠ 0 := by
        rw [← length_tokens, htokens]
        simp
      obtain ⟨x, rest, htext, hx⟩ := (h t (by simp [htokens])).join_cons more
      rw [if_neg hfilled, textFrom, htokens, List.drop_zero]
      simp only [htext]
      simp [addSpace, Token.join, Text.trimStart, hx]
  | cons t more =>
    have hfilled : c.length ≠ 0 := by
      have hle := congrArg List.length hkept
      rw [List.length_take, length_tokens, List.length_cons] at hle
      omega
    rw [if_neg hfilled, join_addSpace _ (by simp), ← hkept, List.append_assoc, Text.trimStart,
      List.takeWhile_append_dropWhile, ← List.append_assoc, hwhole]

end Splices

/-! ## Cutting again -/

section Sources

variable {overflow : Overflow} {c d : Cursor} {line : BitVec 32} {source : Text}

theorem exists_front {offset : Nat} {t : Token} (h : tokenize? overflow line source = some c.tokens)
    (ht : c.tokens[offset]? = some t) :
    ∃ front x rest, c.textFrom offset none = x :: rest ∧ isBlank x = false ∧
      source = front ++ x :: rest ∧
      t.line = (line.toNat + Text.newlines front) % 2 ^ 32 := by
  obtain ⟨hlt, hget⟩ := List.getElem?_eq_some_iff.mp ht
  have hdrop : c.tokens.drop offset = t :: c.tokens.drop (offset + 1) := by
    rw [List.drop_eq_getElem_cons hlt, hget]
  have hsplit : c.tokens = c.tokens.take offset ++ t :: c.tokens.drop (offset + 1) := by
    rw [← hdrop, List.take_append_drop]
  obtain ⟨front, x, rest, hx, hjoin, hsource, htoken⟩ := front_of_tokenize? (hsplit ▸ h)
  refine ⟨front, x, rest, by rw [textFrom, hdrop, ← hjoin], hx, hsource, ?_⟩
  rw [htoken]
  rfl

theorem not_isBlank_textFrom (h : tokenize? overflow line source = some c.tokens) (offset : Nat) :
    ∀ x ∈ (c.textFrom offset none).head?, isBlank x = false := by
  cases ht : c.tokens[offset]? with
  | none => simp [textFrom_eq_nil ht]
  | some t =>
    obtain ⟨front, x, rest, htext, hx, -⟩ := exists_front h ht
    rw [htext]
    simpa using hx

theorem tokenize?_textFrom (h : tokenize? overflow line source = some c.tokens) (offset : Nat) :
    tokenize? overflow (.ofNat 32 (c.lineAt offset)) (c.textFrom offset none) =
      some (c.tokens.drop offset) := by
  rw [tokenize?_of_head (not_isBlank_textFrom h offset)]
  cases ht : c.tokens[offset]? with
  | none =>
    rw [textFrom_eq_nil ht, List.drop_eq_nil_of_le (List.getElem?_eq_none_iff.mp ht), tokensOf?]
  | some t =>
    obtain ⟨hlt, hget⟩ := List.getElem?_eq_some_iff.mp ht
    have hdrop := List.drop_eq_getElem_cons hlt
    rw [hget] at hdrop
    obtain ⟨below, -, hcut⟩ := Option.bind_eq_some_iff.mp h
    rw [← List.take_append_drop offset c.tokens, hdrop] at hcut
    have hagain := tokensOf?_suffix hcut
    rw [← hdrop] at hagain
    rw [lineAt, ht]
    exact hagain

theorem splice?_nil (h : tokenize? overflow line source = some c.tokens)
    (hline : c.endLine = lastLine c.tokens line.toNat) (offset : Nat) :
    ∃ d, c.splice? overflow offset [] = some d ∧ d.tokens = c.tokens ∧ d.endLine = c.endLine := by
  have hblank : (c.textFrom offset none).takeWhile isBlank = [] := by
    have hhead := not_isBlank_textFrom h offset
    cases htext : c.textFrom offset none with
    | nil => rfl
    | cons x rest =>
      rw [htext] at hhead
      simp [hhead x rfl]
  have hcut := tokenize?_textFrom h offset
  rw [← List.append_nil (c.textFrom offset none)] at hcut hblank
  refine ⟨_, splice?_of_tokenize? hcut, ?_⟩
  have htokens : (c.recut offset ((c.textFrom offset none ++ []).takeWhile isBlank)
      (c.tokens.drop offset)).tokens = c.tokens := by
    rw [tokens_recut, hblank, addSpace_nil, List.take_append_drop]
  refine ⟨htokens, ?_⟩
  rw [endLine_recut, htokens, hline]
  cases hlast : c.tokens.getLast? with
  | some last => simp [lastLine, hlast]
  | none =>
    obtain hnil := List.getLast?_eq_none_iff.mp hlast
    simp [lastLine, lineAt, hline, hnil]

/-- The line of a token and the line feeds from there on come to no more than `lines`. -/
def Within (c : Cursor) (lines : Nat) : Prop :=
  ∀ offset, c.lineAt offset + Text.newlines (c.textFrom offset none) ≤ lines

theorem within_of_source (h : tokenize? overflow line source = some c.tokens)
    (hline : c.endLine = lastLine c.tokens line.toNat)
    (hfits : line.toNat + source.newlines < 2 ^ 32) :
    c.Within (line.toNat + source.newlines) := by
  have htoken {offset : Nat} {t : Token} (ht : c.tokens[offset]? = some t) :
      t.line + Text.newlines (c.textFrom offset none) = line.toNat + source.newlines := by
    obtain ⟨front, x, rest, htext, -, hsource, hfront⟩ := exists_front h ht
    rw [hsource, Text.newlines_append] at hfits
    rw [hfront, htext, hsource, Text.newlines_append, Nat.mod_eq_of_lt (by omega), Nat.add_assoc]
  intro offset
  cases ht : c.tokens[offset]? with
  | some t =>
    rw [lineAt, ht]
    exact (htoken ht).le
  | none =>
    rw [textFrom_eq_nil ht, lineAt, ht, Option.map_none, Option.getD_none, hline, lastLine]
    cases hlast : c.tokens.getLast? with
    | none => exact Nat.le_add_right _ _
    | some last =>
      rw [List.getLast?_eq_getElem?] at hlast
      have hsum := htoken hlast
      have hnone : Text.newlines [] = 0 := rfl
      rw [Option.map_some, Option.getD_some, hnone]
      omega

end Sources

/--
Text put behind the tokens of a source, wherever the cursor has moved to among them. It can be put
there if the lines fit, or if it is empty. With `o` for the place, no further than the end:

* the text is now behind all that was there, or without its leading white space if nothing was;
* the tokens before `o` are still there, and only the last of them may have got white space;
* the tokens from `o` on are those of the old text from `o` with the new text behind it, cut from
  the line on which `o` is;
* the cursor is where it was, or else at `o`;
* and an empty text changes nothing but the position.
-/
theorem splice_rereads {overflow : Overflow} {line : BitVec 32} {source : Text} {start c : Cursor}
    (hstart : ofText? overflow source line = some start)
    (h : Relation.ReflTransGen Move start c) (offset : Nat) (text : Text) :
    let o := min offset c.length
    (text = [] ∨ overflow.Admits line (source ++ text).newlines →
      ∃ d, c.splice? overflow offset text = some d) ∧
    ∀ d, c.splice? overflow offset text = some d →
      d.textFrom 0 none = (if c.length = 0 then text.trimStart else c.textFrom 0 none ++ text) ∧
      (∀ i t, i < o → c.tokens[i]? = some t →
        ∃ blanks, (∀ b ∈ blanks, isBlank b = true) ∧ (i + 1 < o → blanks = []) ∧
          d.tokens[i]? = some { t with space := t.space ++ blanks }) ∧
      tokenize? overflow (.ofNat 32 (c.lineAt o)) (c.textFrom o none ++ text) =
        some (d.tokens.drop o) ∧
      (o < c.length → ∃ front, source = front ++ c.textFrom o none ∧
        c.lineAt o = (line.toNat + Text.newlines front) % 2 ^ 32) ∧
      d.position = min c.position o ∧
      (text = [] → d.tokens = c.tokens ∧ d.endLine = c.endLine) := by
  intro o
  obtain ⟨tokens, htokens, rfl⟩ := Option.map_eq_some_iff.mp hstart
  obtain ⟨hsame, hline⟩ := same_of_moves h
  rw [ofTokens, tokens_place] at hsame
  have hsource : tokenize? overflow line source = some c.tokens := hsame ▸ htokens
  have hend : c.endLine = lastLine c.tokens line.toNat := hsame ▸ hline
  have hempty := splice?_nil hsource hend offset
  refine ⟨?_, fun d hsplice => ⟨?_, ?_, ?_, ?_, ?_, ?_⟩⟩
  · rintro (rfl | hadmits)
    · exact hempty.imp fun d hd => hd.1
    · refine exists_splice? (hadmits.imp_right fun hfits => ?_)
      rw [Text.newlines_append] at hfits
      have hwithin := within_of_source hsource hend (by omega) offset
      rw [Text.newlines_append]
      omega
  · exact textFrom_splice? (Token.solid_of_mem_tokenize? hsource) hsplice
  · intro i t hi ht
    obtain ⟨cut, -, rfl⟩ := exists_of_splice? hsplice
    obtain ⟨blanks, htoken, hblanks⟩ := c.getElem?_recut offset _ cut hi ht
    refine ⟨blanks, ?_, ?_, htoken⟩
    · intro b hb
      rcases hblanks with rfl | ⟨-, rfl⟩
      · cases hb
      · exact List.mem_takeWhile_imp hb
    · exact fun hlast => hblanks.resolve_right fun hspace => by omega
  · obtain ⟨cut, hcut, rfl⟩ := exists_of_splice? hsplice
    rw [drop_recut, (c.place_min offset).1, (c.place_min offset).2, hcut]
  · intro ho
    rw [← length_tokens] at ho
    have hget := List.getElem?_eq_getElem ho
    obtain ⟨front, x, rest, htext, -, hfront, hline⟩ := exists_front hsource hget
    exact ⟨front, by rw [htext, hfront], by rw [lineAt, hget]; exact hline⟩
  · obtain ⟨cut, -, rfl⟩ := exists_of_splice? hsplice
    exact c.position_recut offset _ cut
  · rintro rfl
    obtain ⟨d', hsplice', hd'⟩ := hempty
    cases hsplice.symm.trans hsplice'
    exact hd'

/-- A comment, a line feed and a string that never ends. -/
def brokenString : Text := "$a /*x*/\n+ 'b"

/-- The quote that comes behind it closes the string, and a cursor on the string moves back. -/
theorem splice_rereads_brokenString :
    ∃ start c d, ofText? .stops brokenString 4 = some start ∧ Relation.ReflTransGen Move start c ∧
      Overflow.stops.Admits 4 (brokenString ++ "' . 7").newlines ∧ c.position = 3 ∧
      c.splice? .stops 2 "' . 7" = some d ∧ d.textFrom 0 none = "$a /*x*/\n+ 'b' . 7".toList ∧
      d.tokens.drop 2 = [⟨.symbol "+", "+", " ", 5⟩, ⟨.quoted, "'b'", " ", 5⟩,
        ⟨.symbol ".", ".", " ", 5⟩, ⟨.integer, "7", "", 5⟩] ∧
      d.position = 2 := by
  have hstart : ofText? .stops brokenString 4 = some (ofText brokenString 4) := by decide +kernel
  have hmoves : Relation.ReflTransGen Move (ofText brokenString 4)
      (ofText brokenString 4).toEnd.back :=
    .tail (.single (.toEnd _)) (.back _)
  have hadmits : Overflow.stops.Admits 4 (brokenString ++ "' . 7").newlines := .inr (by decide)
  have hplace : min 2 (ofText brokenString 4).toEnd.back.length = 2 := by decide +kernel
  obtain ⟨hexists, hall⟩ := splice_rereads hstart hmoves 2 "' . 7"
  obtain ⟨d, hd⟩ := hexists (.inr hadmits)
  obtain ⟨hcontent, -, hcut, -, hposition, -⟩ := hall d hd
  rw [hplace] at hcut hposition
  refine ⟨_, _, d, hstart, hmoves, hadmits, by decide +kernel, hd, hcontent.trans ?_,
    Option.some.inj (hcut.symm.trans ?_), hposition.trans ?_⟩
  all_goals decide +kernel

end Cursor

end Stencil
