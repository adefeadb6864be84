import Stencil.Proofs.Stops
import Stencil.Proofs.Words

/-!
# Tokens with other white space between them

Where a token ends is decided by what follows it. White space ends every token but a string or a
comment that is not closed, so tokens that are written down again stay what they are, with more
white space between them or with other white space. Only where there was some, some has to be left.
-/

namespace Stencil

/-- What a token is, whatever stands around it. -/
def Token.face (t : Token) : Kind × Text := (t.kind, t.text)

/-- The token again, with white space behind it. -/
def Word.Renews (w : Word) (t : Token) : Prop :=
  w.kind = t.kind ∧ w.text = t.text ∧ ∀ b ∈ w.space, isBlank b = true

/--
White space `new` for `old` behind a token, with `more` to follow: between two tokens some stays
where there was some, and behind the last one none comes where there was none.
-/
def MayReplace (more : List Token) (old new : Text) : Prop :=
  if more.isEmpty then old = [] → new = [] else new = [] → old = []

/-- The words are the tokens, written down again. -/
def Respaced : List Token → List Word → Prop
  | [], [] => True
  | t :: more, w :: words => w.Renews t ∧ MayReplace more t.space w.space ∧ Respaced more words
  | _, _ => False

instance (w : Word) (t : Token) : Decidable (w.Renews t) :=
  have : Decidable (∀ b ∈ w.space, isBlank b = true) := List.decidableBAll _ _
  inferInstanceAs (Decidable (_ ∧ _ ∧ _))

instance (more : List Token) (old new : Text) : Decidable (MayReplace more old new) :=
  inferInstanceAs (Decidable (if more.isEmpty then old = [] → new = [] else new = [] → old = []))

instance decidableRespaced : ∀ tokens words, Decidable (Respaced tokens words)
  | [], [] => .isTrue trivial
  | _ :: more, _ :: words =>
    have := decidableRespaced more words
    inferInstanceAs (Decidable (_ ∧ _ ∧ _))
  | [], _ :: _ | _ :: _, [] => .isFalse id

/-! ## What both texts have in common -/

theorem stop_of_blanks {space : Text} (h : ∀ b ∈ space, isBlank b = true) (rest : Text)
    (hrest : space = [] → rest = []) : Stop (space ++ rest) := by
  cases space with
  | nil =>
    rw [hrest rfl]
    exact .nothing
  | cons b space => exact .blank (h b (by simp)) _

namespace Respaced

variable {t : Token} {more : List Token} {w : Word} {words : List Word}

theorem eq_nil (h : Respaced [] words) : words = [] := by
  cases words with
  | nil => rfl
  | cons w words => exact h.elim

theorem exists_cons (h : Respaced (t :: more) words) :
    ∃ w rest, words = w :: rest ∧ w.Renews t ∧ MayReplace more t.space w.space ∧
      Respaced more rest := by
  cases words with
  | nil => exact h.elim
  | cons w rest => exact ⟨w, rest, rfl, h⟩

/--
From a token on, both texts are the same up to a place behind the token. There the new one comes to
white space or to its end.
-/
theorem exists_stop (h : Respaced (t :: more) words) :
    ∃ x y follow, Token.join (t :: more) = x ++ y ∧ Word.join words = x ++ follow ∧
      t.text <+: x ∧ Stop follow := by
  induction more generalizing t words with
  | nil =>
    obtain ⟨w, rest, rfl, ⟨-, htext, hblank⟩, -, hrest⟩ := h.exists_cons
    obtain rfl := hrest.eq_nil
    refine ⟨t.text, t.space, w.space, ?_, ?_, List.prefix_refl _, ?_⟩
    · simp [Token.join, Token.source]
    · simp [htext]
    · simpa using stop_of_blanks hblank [] fun _ => rfl
  | cons next more ih =>
    obtain ⟨w, rest, rfl, ⟨-, htext, hblank⟩, hspace, hrest⟩ := h.exists_cons
    by_cases hnew : w.space = []
    · -- Nothing parts the two tokens, neither before nor now, so they differ further on.
      have hold : t.space = [] := hspace hnew
      obtain ⟨x, y, follow, hjoin, hwords, -, hstop⟩ := ih hrest
      refine ⟨t.text ++ x, y, follow, ?_, ?_, List.prefix_append _ _, hstop⟩
      · rw [Token.join_cons, hold, hjoin]
        simp
      · rw [Word.join_cons, htext, hnew, hwords]
        simp
    · refine ⟨t.text, t.space ++ Token.join (next :: more), w.space ++ Word.join rest,
        Token.join_cons _ _, ?_, List.prefix_refl _, stop_of_blanks hblank _ (absurd · hnew)⟩
      rw [Word.join_cons, htext]

theorem decided (h : Respaced (t :: more) words) (htext : t.text ≠ [])
    (hmore : Token.join more = [] → more = [])
    (hold : Decided (Token.join (t :: more)) t.kind t.text) :
    Decided (Word.join words) t.kind t.text := by
  by_cases hwhole : t.text = Token.join (t :: more)
  · -- The token may be one that never ends. Nothing stands behind it then, and nothing comes there.
    have hbehind : t.space ++ Token.join more = [] := by
      rw [Token.join_cons] at hwhole
      exact List.append_right_eq_self.mp hwhole.symm
    obtain ⟨hspace, hjoin⟩ := List.append_eq_nil_iff.mp hbehind
    obtain rfl := hmore hjoin
    obtain ⟨w, rest, rfl, ⟨-, hsame, -⟩, hlast, hrest⟩ := h.exists_cons
    obtain rfl := hrest.eq_nil
    have hjoin : Word.join [w] = Token.join [t] := by
      rw [← hwhole, Word.join_cons, hsame, show w.space = [] from hlast hspace]
      simp
    rwa [hjoin]
  · obtain ⟨x, y, follow, hjoin, hwords, hfront, hstop⟩ := h.exists_stop
    have hx : x ≠ [] := by
      rintro rfl
      exact htext (List.prefix_nil.mp hfront)
    rw [hjoin] at hold hwhole
    rw [hwords]
    exact hold.stop hstop hfront hx hwhole

end Respaced

/-! ## The same tokens again -/

theorem Lexeme.first_of_decided {c : Char} {tail follow : Text} {k : Kind}
    (h : Decided (c :: (tail ++ follow)) k (c :: tail)) :
    first c (tail ++ follow) = ⟨k, tail, follow⟩ := by
  have happend := first_append c (tail ++ follow)
  obtain ⟨hkind, htext⟩ := (decided_iff _ _ _ _).mp h
  generalize first c (tail ++ follow) = lexeme at hkind htext happend
  obtain ⟨kind, tail', rest⟩ := lexeme
  obtain rfl : tail = tail' := (List.cons.inj htext).2
  simp only at hkind happend
  rw [hkind, List.append_cancel_left happend]

open Token (atFront behindFront)

/--
Token by token, the new text is cut into the words. Each of them starts as the token did, so the
white space in front of it ends there.
-/
theorem Respaced.word_tokensOf {tokens : List Token} {words : List Word} (h : Respaced tokens words)
    {line : Nat} {t : Text} (ht : tokensOf line t = tokens)
    (hhead : ∀ b ∈ t.head?, isBlank b = false) :
    (∀ b ∈ (Word.join words).head?, isBlank b = false) ∧
      ∀ line', (tokensOf line' (Word.join words)).map Token.word = words := by
  induction tokens generalizing words line t with
  | nil =>
    obtain rfl := h.eq_nil
    simp [tokensOf]
  | cons token more ih =>
    cases t with
    | nil => simp [tokensOf] at ht
    | cons c t =>
      have hjoin := join_tokensOf line (c :: t)
      rw [ht] at hjoin
      rw [tokensOf_cons] at ht
      obtain ⟨htoken, hmore⟩ := List.cons.inj ht
      have htext : token.text = c :: (Lexeme.first c t).tail := by rw [← htoken]; rfl
      have hkind : token.kind = (Lexeme.first c t).kind := by rw [← htoken]; rfl
      have hnil : Token.join more = [] → more = [] := by
        intro hnil
        rw [← hmore, join_tokensOf] at hnil
        rw [← hmore, hnil, tokensOf]
      have hold : Decided (Token.join (token :: more)) token.kind token.text := by
        rw [hjoin, hkind, htext]
        exact Lexeme.decided_first c t
      have hdecided := h.decided (by simp [htext]) hnil hold
      obtain ⟨⟨kind, text, space⟩, rest, rfl, ⟨rfl, rfl, hblank⟩, -, hrest⟩ := h.exists_cons
      obtain ⟨hhead', hwords⟩ := ih hrest hmore (Token.not_isBlank_behindFront c t)
      simp only [Word.join_cons, htext, List.cons_append] at hdecided ⊢
      refine ⟨by simpa using hhead, fun line' => ?_⟩
      simp only at hblank
      rw [tokensOf]
      simp only [Lexeme.first_of_decided hdecided, Lexeme.takeWhile_append_of_stop hblank hhead',
        Lexeme.dropWhile_append_of_stop hblank hhead', List.map_cons, hwords]
      rfl

theorem Respaced.faces {tokens : List Token} {words : List Word} (h : Respaced tokens words) :
    words.map (fun w => (w.kind, w.text)) = tokens.map Token.face := by
  induction tokens generalizing words with
  | nil =>
    rw [h.eq_nil]
    rfl
  | cons t more ih =>
    obtain ⟨w, rest, rfl, ⟨hkind, htext, -⟩, -, hrest⟩ := h.exists_cons
    simp [Token.face, hkind, htext, ih hrest]

theorem face_tokenize_of_respaced {line : Nat} {source : Text} {words : List Word}
    (h : Respaced (tokenize line source) words) (lead : Text)
    (hlead : ∀ b ∈ lead, isBlank b = true) (line' : Nat) :
    (tokenize line' (lead ++ Word.join words)).map Token.face =
      (tokenize line source).map Token.face := by
  obtain ⟨hhead, hwords⟩ := h.word_tokensOf rfl source.not_isBlank_trimStart
  have hface : Token.face = (fun w : Word => (w.kind, w.text)) ∘ Token.word := rfl
  rw [← h.faces, tokenize, Lexeme.dropWhile_append_of_stop hlead hhead, hface, ← List.map_map,
    hwords]

/-- The tokens with one space between them. -/
def singleSpaced : List Token → List Word
  | [] => []
  | [t] => [⟨t.kind, t.text, []⟩]
  | t :: next :: more => ⟨t.kind, t.text, [' ']⟩ :: singleSpaced (next :: more)

theorem respaced_singleSpaced (tokens : List Token) : Respaced tokens (singleSpaced tokens) := by
  fun_induction singleSpaced tokens with
  | case1 => trivial
  | case2 t => exact ⟨⟨rfl, rfl, by simp⟩, fun _ => rfl, trivial⟩
  | case3 t next more ih => exact ⟨⟨rfl, rfl, by simp; decide⟩, nofun, ih⟩

theorem join_singleSpaced (tokens : List Token) :
    Word.join (singleSpaced tokens) = [' '].intercalate (tokens.map Token.text) := by
  fun_induction singleSpaced tokens with
  | case1 => rfl
  | case2 t => simp
  | case3 t next more ih => simp [ih]

/--
The tokens of a source can be written down with one space between them, or with any white space:
more between two tokens, or other white space where there was some. They are cut into tokens of the
same kinds and texts again.
-/
theorem tokenize_respaced (line : Nat) (source : Text) :
    (∀ line', (tokenize line' ([' '].intercalate ((tokenize line source).map Token.text))).map
      Token.face = (tokenize line source).map Token.face) ∧
    ∀ words, Respaced (tokenize line source) words →
      ∀ lead, (∀ b ∈ lead, isBlank b = true) → ∀ line',
        (tokenize line' (lead ++ Word.join words)).map Token.face =
          (tokenize line source).map Token.face := by
  constructor
  · intro line'
    rw [← join_singleSpaced]
    exact face_tokenize_of_respaced (respaced_singleSpaced _) [] (by simp) line'
  · intro words h lead hlead line'
    exact face_tokenize_of_respaced h lead hlead line'

/-- A number in front of what is not quite a power, lone signs, and a string that never ends. -/
def crammed : Text := "1.e+x$ 5.0e-7e/ *and/*c*/'q\\' '$a \"no end "

/-- Some of the tokens moved apart, and tabs or line feeds for the spaces between the others. -/
def spreadOut : List Word :=
  List.zipWith (fun t space => ⟨t.kind, t.text, space⟩) (tokenize 1 crammed)
    [[], ['\n'], [' '], [], ['\t'], ['\n', ' '], [], [' '], ['\t'], [], ['\u00a0'], ['\n'], [],
      ['\u3000'], []]

theorem tokenize_respaced_crammed :
    Respaced (tokenize 1 crammed) spreadOut ∧
    '\n' :: Word.join spreadOut =
      "\n1.\ne +x\t$\n 5.0e-7e /\t*and\u00a0/*c*/\n'q\\' '$a\u3000\"no end ".toList ∧
    (tokenize 3 ('\n' :: Word.join spreadOut)).map Token.face =
      (tokenize 1 crammed).map Token.face ∧
    (tokenize 1 crammed).getLast?.map Token.face = some (.stray, "\"no end ".toList) := by
  have h : Respaced (tokenize 1 crammed) spreadOut := by decide +kernel
  refine ⟨h, by decide +kernel, ?_, by decide +kernel⟩
  exact (tokenize_respaced 1 crammed).2 spreadOut h ['\n']
    (List.forall_mem_singleton.mpr (by decide)) 3

end Stencil
