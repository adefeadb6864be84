import Stencil.Proofs.Positions
import Stencil.Proofs.Stops
import Stencil.Proofs.Words

/-!
# Comments put into white space

A comment between two tokens of a text changes none of the tokens around it: no token reaches over
the slash that it starts with. The white space of the token in front of it ends there, and the white
space behind it belongs to the comment.
-/

namespace Stencil

/-! ## Tokens in front of a slash -/

theorem first_slash_behind {c : Char} {x y : Text} (hfront : (Lexeme.first c (x ++ y)).tail <+: x)
    (hpart : (Lexeme.first c (x ++ y)).rest ≠ []) (z : Text) :
    (Lexeme.first c (x ++ '/' :: z)).kind = (Lexeme.first c (x ++ y)).kind ∧
      (Lexeme.first c (x ++ '/' :: z)).tail = (Lexeme.first c (x ++ y)).tail := by
  have hne : c :: (Lexeme.first c (x ++ y)).tail ≠ c :: x ++ y := by
    intro heq
    have htail : (Lexeme.first c (x ++ y)).tail = x ++ y := (List.cons.inj heq).2
    have happend := Lexeme.first_append c (x ++ y)
    rw [htail] at happend
    exact hpart (List.append_right_eq_self.mp happend)
  have hdecided : Decided (c :: x ++ '/' :: z) _ _ :=
    (Lexeme.decided_first c (x ++ y)).stop (.slash z) (x := c :: x)
      (List.cons_prefix_cons.mpr ⟨rfl, hfront⟩) (by simp) hne
  obtain ⟨hkind, htext⟩ := (Lexeme.decided_iff _ _ _ _).mp hdecided
  exact ⟨hkind.symm, (List.cons.inj htext).2.symm⟩

open Token (atFront behindFront)

theorem tokensOf_cons_slash {c : Char} {x y space more : Text} (line : Nat)
    (hx : x = (Lexeme.first c (x ++ y)).tail ++ (space ++ more))
    (hpart : (Lexeme.first c (x ++ y)).rest ≠ []) (hspace : ∀ b ∈ space, isBlank b = true)
    (z : Text) (hmore : ∀ b ∈ (more ++ '/' :: z).head?, isBlank b = false) :
    tokensOf line (c :: (x ++ '/' :: z)) = { atFront line c (x ++ y) with space } ::
      tokensOf (line + Text.newlines ((atFront line c (x ++ y)).text ++ space))
        (more ++ '/' :: z) := by
  obtain ⟨hkind, htail⟩ := first_slash_behind ⟨_, hx.symm⟩ hpart z
  have hrest : (Lexeme.first c (x ++ '/' :: z)).rest = space ++ (more ++ '/' :: z) := by
    have happend := Lexeme.first_append c (x ++ '/' :: z)
    rw [htail] at happend
    have hsplit := happend.trans (congrArg (· ++ '/' :: z) hx)
    simpa using hsplit
  have hfront : atFront line c (x ++ '/' :: z) = { atFront line c (x ++ y) with space } := by
    simp only [atFront, hkind, htail, hrest, Lexeme.takeWhile_append_of_stop hspace hmore]
  have hbehind : behindFront c (x ++ '/' :: z) = more ++ '/' :: z := by
    rw [behindFront, hrest, Lexeme.dropWhile_append_of_stop hspace hmore]
  rw [tokensOf_cons, hfront, hbehind]
  rfl

theorem text_ne_nil_of_tokensOf {line : Nat} {t : Text} {first : Token} {more : List Token}
    (h : tokensOf line t = first :: more) : first.text ≠ [] := by
  cases t with
  | nil => simp [tokensOf] at h
  | cons c t =>
    rw [tokensOf_cons] at h
    obtain ⟨rfl, -⟩ := List.cons.inj h
    simp [atFront]

theorem join_ne_nil_of_tokensOf {line : Nat} {t : Text} {before after : List Token} {last : Token}
    (h : tokensOf line t = before ++ last :: after) (blanks : Text) :
    Token.join before ++ (last.text ++ blanks) ≠ [] := by
  cases before with
  | nil => simp [Token.join, text_ne_nil_of_tokensOf h]
  | cons first before => simp [Token.join, Token.source, text_ne_nil_of_tokensOf h]

/--
Tokens in front of a place in white space, where a slash comes now: they are the same up to the last
one, which loses the white space behind the place.
-/
theorem tokensOf_slash {line : Nat} {x y blanks : Text} {before after : List Token} {last : Token}
    (h : tokensOf line (x ++ y) = before ++ last :: after)
    (hx : x = Token.join before ++ (last.text ++ blanks))
    (hblanks : ∀ b ∈ blanks, isBlank b = true) (hspace : last.space ≠ []) (z : Text) :
    tokensOf line (x ++ '/' :: z) = before ++ { last with space := blanks } ::
      tokensOf (line + Text.newlines x) ('/' :: z) := by
  induction before generalizing line x with
  | nil =>
    obtain ⟨c, x, rfl⟩ := List.exists_cons_of_ne_nil (hx ▸ join_ne_nil_of_tokensOf h blanks)
    rw [List.cons_append, tokensOf_cons] at h
    obtain ⟨rfl, -⟩ := List.cons.inj h
    have htail : x = (Lexeme.first c (x ++ y)).tail ++ (blanks ++ []) := by
      rw [List.append_nil]
      exact (List.cons.inj hx).2
    have hrest : (Lexeme.first c (x ++ y)).rest ≠ [] := by
      intro hnil
      exact hspace (by simp [atFront, hnil])
    have hslash : ∀ b ∈ ([] ++ '/' :: z).head?, isBlank b = false := by
      rintro b ⟨⟩
      decide
    rw [List.cons_append, tokensOf_cons_slash line htail hrest hblanks z hslash]
    rw [show (atFront line c (x ++ y)).text ++ blanks = c :: x from hx.symm]
    rfl
  | cons first before ih =>
    obtain ⟨c, x, rfl⟩ := List.exists_cons_of_ne_nil (hx ▸ join_ne_nil_of_tokensOf h blanks)
    rw [List.cons_append, tokensOf_cons] at h
    obtain ⟨rfl, hmore⟩ := List.cons.inj h
    have hne := join_ne_nil_of_tokensOf hmore blanks
    have hx : c :: x = (atFront line c (x ++ y)).text ++ ((atFront line c (x ++ y)).space ++
        (Token.join before ++ (last.text ++ blanks))) := by
      rw [hx, Token.join_cons]
      simp
    generalize hlast : Token.join before ++ (last.text ++ blanks) = more at hx hne
    have htail : x = (Lexeme.first c (x ++ y)).tail ++ ((atFront line c (x ++ y)).space ++ more) :=
      (List.cons.inj hx).2
    have hbehind : behindFront c (x ++ y) = more ++ y := by
      have hsource := Token.source_atFront line c (x ++ y)
      rw [Token.source, List.append_assoc] at hsource
      have hsplit := hsource.trans (congrArg (· ++ y) hx)
      simpa using hsplit
    have hhead : ∀ b ∈ (more ++ '/' :: z).head?, isBlank b = false := by
      have hblank := Token.not_isBlank_behindFront c (x ++ y)
      rw [hbehind, List.head?_append_of_ne_nil _ hne] at hblank
      rwa [List.head?_append_of_ne_nil _ hne]
    have hrest : (Lexeme.first c (x ++ y)).rest ≠ [] := by
      intro hnil
      rw [behindFront, hnil] at hbehind
      exact hne (List.append_eq_nil_iff.mp hbehind.symm).1
    rw [hbehind] at hmore
    have hline : line + Text.newlines (atFront line c (x ++ y)).source + Text.newlines more =
        line + Text.newlines (c :: x) := by
      rw [hx, Nat.add_assoc, ← Text.newlines_append, Token.source, List.append_assoc]
    have hlater := ih hmore hlast.symm
    rw [hline] at hlater
    rw [List.cons_append, tokensOf_cons_slash line htail hrest
      (fun b hb => List.mem_takeWhile_imp hb) z hhead]
    exact congrArg (atFront line c (x ++ y) :: ·) hlater

/-! ## A comment in white space -/

/-- A comment as it is written. -/
def commentText (inside : Text) : Text := commentStart ++ (inside ++ commentEnd)

/-- The comment as a token, with `rest` behind it. -/
def commentToken (line : Nat) (inside rest : Text) : Token :=
  { kind := .comment, text := commentText inside, space := rest.takeWhile isBlank, line }

theorem tokensOf_comment {inside : Text} (h : ¬ commentEnd <:+: inside) (line : Nat) (rest : Text) :
    tokensOf line (commentText inside ++ rest) = commentToken line inside rest ::
      tokensOf (line + Text.newlines (commentToken line inside rest).source)
        (rest.dropWhile isBlank) := by
  generalize ht : '*' :: (inside ++ commentEnd ++ rest) = t
  have hsplit : commentText inside ++ rest = '/' :: t := by
    rw [← ht]
    rfl
  have hcomplete : Complete ('/' :: t) .comment (commentText inside) :=
    .comment (hsplit ▸ List.prefix_append _ _) h
  obtain ⟨hkind, htext⟩ := Lexeme.first_of_complete hcomplete
  have hrest : (Lexeme.first '/' t).rest = rest := by
    have happend := congrArg ('/' :: ·) (Lexeme.first_append '/' t)
    rw [← List.cons_append, htext, ← hsplit] at happend
    exact List.append_cancel_left happend
  have hfront : atFront line '/' t = commentToken line inside rest := by
    simp only [atFront, hkind, htext, hrest, commentToken]
  rw [hsplit, tokensOf_cons, hfront, behindFront, hrest]

/--
Two texts with a blank between them that keeps tokens apart: it belongs to the white space behind
`last`, and the tokens `after` are those of the second text.
-/
structure Split (p s : Text) where
  before : List Token
  last : Token
  after : List Token
  /-- The white space behind `last` in the first text. -/
  blanks : Text
  tokens_eq : tokenize 1 (p ++ ' ' :: s) = before ++ last :: after
  join_after : Token.join after = s.trimStart
  space_eq : last.space = blanks ++ ' ' :: s.takeWhile isBlank

namespace Split

variable {p s : Text} (split : Split p s)

theorem front_eq (hhead : ∀ b ∈ (p ++ ' ' :: s).head?, isBlank b = false) :
    p = Token.join split.before ++ (split.last.text ++ split.blanks) := by
  have hjoin := join_tokensOf 1 (p ++ ' ' :: s)
  rw [← tokenize_of_head hhead, split.tokens_eq] at hjoin
  have hsplit : Token.join split.before ++ (split.last.text ++ split.blanks) ++ ' ' :: s =
      p ++ ' ' :: s := by
    calc Token.join split.before ++ (split.last.text ++ split.blanks) ++ ' ' :: s
      _ = Token.join split.before ++ (split.last.text ++ split.blanks) ++
          ' ' :: (s.takeWhile isBlank ++ s.trimStart) := by
        rw [Text.trimStart, List.takeWhile_append_dropWhile]
      _ = Token.join (split.before ++ split.last :: split.after) := by
        simp [Token.join, Token.source, split.space_eq, ← split.join_after]
      _ = p ++ ' ' :: s := hjoin
  exact (List.append_cancel_right hsplit).symm

theorem tokens_commented {x y rest blanks inside : Text} (hbody : p ++ ' ' :: s = x ++ y)
    (hhead : ∀ b ∈ (x ++ y).head?, isBlank b = false)
    (hx : x = Token.join split.before ++ (split.last.text ++ blanks))
    (hblanks : ∀ b ∈ blanks, isBlank b = true) (hinside : ¬ commentEnd <:+: inside)
    (hrest : rest.dropWhile isBlank = s.trimStart) :
    ∃ comment after, tokenize 1 (x ++ (commentText inside ++ rest)) =
        split.before ++ { split.last with space := blanks } :: comment :: after ∧
      comment.kind = .comment ∧ after.map Token.word = split.after.map Token.word := by
  have htokens := split.tokens_eq
  rw [hbody, tokenize_of_head hhead] at htokens
  have hne : x ≠ [] := hx ▸ join_ne_nil_of_tokensOf htokens blanks
  have hspace : split.last.space ≠ [] := by simp [split.space_eq]
  have hhead' : ∀ b ∈ (x ++ (commentText inside ++ rest)).head?, isBlank b = false := by
    rw [List.head?_append_of_ne_nil _ hne] at hhead ⊢
    exact hhead
  have hslash := tokensOf_slash htokens hx hblanks hspace ('*' :: (inside ++ commentEnd ++ rest))
  have hcomment : tokensOf (1 + Text.newlines x)
      ('/' :: '*' :: (inside ++ commentEnd ++ rest)) = _ :=
    tokensOf_comment hinside (1 + Text.newlines x) rest
  rw [hcomment] at hslash
  refine ⟨_, _, (tokenize_of_head hhead' 1).trans hslash, rfl, ?_⟩
  have hafter : tokensOf 1 (x ++ y) = (split.before ++ [split.last]) ++ split.after := by
    rw [htokens]
    simp
  rw [tokensOf_suffix hafter, split.join_after, hrest]
  exact word_tokensOf_line _ _ _

end Split

end Stencil
