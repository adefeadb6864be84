import Stencil.Proofs.Commented
import Stencil.Proofs.Sequel

/-!
# Loops without a step

A loop that gives no step has one put behind its tokens. It reads the same as if that step had been
written there: the words of the step change no token before them, and the expressions of the loop
end in front of them as they do at the end of the tokens.
-/

namespace Stencil

open Grammar Reading Template Tag

/-! ## Tokens with the step behind them -/

theorem prefix_of_last {front x z : Text} {e : Char} (h : front ++ [e] <+: x ++ z) (he : e ∉ z) :
    front ++ [e] <+: x := by
  rcases List.prefix_or_prefix_of_prefix h (List.prefix_append x z) with hin | ⟨w, hw⟩
  · exact hin
  · rcases List.eq_nil_or_concat' w with rfl | ⟨w', e', rfl⟩
    · rw [← hw, List.append_nil]
    · rw [← hw, List.prefix_append_right_inj] at h
      rw [← List.append_assoc] at hw
      obtain ⟨-, hlast⟩ := List.append_inj' hw rfl
      obtain rfl := List.singleton_inj.mp hlast
      exact absurd (h.subset (by simp)) he

theorem not_literal_step {x : Text} (h : ∀ l : Literal, ¬ l.text <+: x) (l : Literal) :
    ¬ l.text <+: x ++ defaultStep := by
  have hquote : l.quote ∉ defaultStep := by unfold Literal.quote; split <;> decide
  intro hfront
  have hlast : (l.quote :: l.insideText) ++ [l.quote] <+: x := prefix_of_last hfront hquote
  exact h l hlast

theorem not_commentEnd_step {x : Text} (h : ¬ commentEnd <:+: x) :
    ¬ commentEnd <:+: x ++ defaultStep := by
  rintro ⟨before, after, heq⟩
  have hfront : (before ++ ['*']) ++ ['/'] <+: x ++ defaultStep :=
    ⟨after, by simpa [commentEnd] using heq⟩
  obtain ⟨rest, hrest⟩ := prefix_of_last hfront (by decide)
  exact h ⟨before, rest, by simpa [commentEnd] using hrest⟩

/-- What a text decides about its first token stays decided, or the token goes on to the end. -/
theorem Decided.step {c : Char} {t : Text} {k : Kind} {u : Text} (h : Decided (c :: t) k u) :
    Decided (c :: (t ++ defaultStep)) k u ∨ k = .stray ∧ u = c :: t ∧
      Decided (c :: (t ++ defaultStep)) .stray (c :: (t ++ defaultStep)) := by
  have hfront : u <+: c :: t := by
    rw [((Lexeme.decided_iff _ _ _ _).mp h).2]
    exact List.cons_prefix_cons.mpr ⟨rfl, _, Lexeme.first_append c t⟩
  have hself : c :: t = c :: t ++ [] := (List.append_nil _).symm
  have hstop : Stop defaultStep := .blank (e := ' ') (by decide) _
  cases h with
  | complete h =>
    rw [hself] at h
    exact .inl (.complete (h.stop hstop hfront (by simp)))
  | openString hquote h =>
    exact .inr ⟨rfl, rfl, .openString hquote (not_literal_step h)⟩
  | openComment hrest h =>
    obtain ⟨rfl, rfl⟩ := List.cons.inj hrest
    exact .inr ⟨rfl, rfl, .openComment rfl (not_commentEnd_step h)⟩
  | lone hrest h hquote hcomment =>
    obtain ⟨rfl, rfl⟩ := List.cons.inj hrest
    rw [hself] at h hcomment
    exact .inl (.lone rfl (not_complete_stop hstop h hquote hcomment) hquote
      (hstop.commentStart hcomment (by simp)))

/-- The step behind a text changes nothing about the token at its front, or that swallows it. -/
theorem Lexeme.first_step (c : Char) (t : Text) :
    (first c (t ++ defaultStep)).kind = (first c t).kind ∧
      ((first c (t ++ defaultStep)).tail = (first c t).tail ∧
        (first c (t ++ defaultStep)).rest = (first c t).rest ++ defaultStep ∨
      (first c t).kind = .stray ∧ (first c t).rest = [] ∧
        (first c (t ++ defaultStep)).rest = []) := by
  have happend := first_append c t
  have happend' := first_append c (t ++ defaultStep)
  rcases (decided_first c t).step with hsame | ⟨hstray, htext, hopen⟩
  · obtain ⟨hkind, htext⟩ := (decided_iff _ _ _ _).mp hsame
    have htail := (List.cons.inj htext).2.symm
    refine ⟨hkind.symm, .inl ⟨htail, ?_⟩⟩
    have hsplit : (first c t).tail ++ (first c (t ++ defaultStep)).rest =
        (first c t).tail ++ ((first c t).rest ++ defaultStep) := by
      rw [← List.append_assoc, happend, ← htail, happend']
    exact List.append_cancel_left hsplit
  · obtain ⟨hkind, htext'⟩ := (decided_iff _ _ _ _).mp hopen
    refine ⟨hkind.symm.trans hstray.symm, .inr ⟨hstray, ?_, ?_⟩⟩
    · rw [(List.cons.inj htext).2] at happend
      exact List.append_right_eq_self.mp happend
    · rw [← (List.cons.inj htext').2] at happend'
      exact List.append_right_eq_self.mp happend'

namespace Sequel

/-- The step as tokens, from some line on. -/
def ofStep (line : Nat) : Sequel where
  tokens := tokenize line (Word.join defaultWords)
  plain s := by
    obtain ⟨t, more, htokens, hword, -⟩ :=
      List.map_eq_cons_iff.mp (words_tokenize apart_defaultWords line)
    have hkind : t.kind = .name := congrArg Word.kind hword
    rw [htokens, nextKind_cons, hkind]
    nofun

theorem words_ofStep (line : Nat) : (ofStep line).tokens.map Token.word = defaultWords :=
  words_tokenize apart_defaultWords line

theorem blanks_step {space : Text} (h : space.dropWhile isBlank = []) :
    (space ++ defaultStep).takeWhile isBlank = space ++ [' '] ∧
      (space ++ defaultStep).dropWhile isBlank = Word.join defaultWords := by
  have hblank : ∀ x ∈ space ++ [' '], isBlank x = true := by
    intro x hx
    rcases List.mem_append.mp hx with hx | hx
    · exact List.dropWhile_eq_nil_iff.mp h x hx
    · rw [List.mem_singleton.mp hx]
      decide
  have hhead : ∀ x ∈ (Word.join defaultWords).head?, isBlank x = false :=
    apart_defaultWords.not_isBlank_head
  have hsplit : space ++ defaultStep = (space ++ [' ']) ++ Word.join defaultWords := by
    rw [List.append_assoc]
    rfl
  rw [hsplit]
  exact ⟨Lexeme.takeWhile_append_of_stop hblank hhead, Lexeme.dropWhile_append_of_stop hblank hhead⟩

theorem filled_step {t : Text} (h : t.dropWhile isBlank ≠ []) :
    (t ++ defaultStep).takeWhile isBlank = t.takeWhile isBlank ∧
      (t ++ defaultStep).dropWhile isBlank = t.dropWhile isBlank ++ defaultStep := by
  have hblank : ∀ x ∈ t.takeWhile isBlank, isBlank x = true := fun x hx => List.mem_takeWhile_imp hx
  have hhead : ∀ x ∈ (t.dropWhile isBlank ++ defaultStep).head?, isBlank x = false := by
    rw [List.head?_append_of_ne_nil _ h]
    exact Text.not_isBlank_trimStart t
  have hsplit : t ++ defaultStep = t.takeWhile isBlank ++ (t.dropWhile isBlank ++ defaultStep) := by
    rw [← List.append_assoc, List.takeWhile_append_dropWhile]
  rw [hsplit]
  exact ⟨Lexeme.takeWhile_append_of_stop hblank hhead, Lexeme.dropWhile_append_of_stop hblank hhead⟩

theorem extends_tokensOf (line : Nat) {t : Text} (ht : t ≠ []) :
    ∃ last, (ofStep last).Extends (tokensOf line t) (tokensOf line (t ++ defaultStep)) := by
  fun_induction tokensOf line t with
  | case1 => exact absurd rfl ht
  | case2 line c t lexeme text space ih =>
    rw [List.cons_append, tokensOf]
    obtain ⟨hkind, ⟨htail, hrest⟩ | ⟨hstray, hend, hend'⟩⟩ := Lexeme.first_step c t
    · simp only [hkind, htail, hrest]
      by_cases hblank : lexeme.rest.dropWhile isBlank = []
      -- The last token of the text: the blank in front of the step goes to its white space.
      · obtain ⟨htake, hdrop⟩ := blanks_step hblank
        rw [htake, hdrop, hblank, tokensOf, ← tokenize_of_head apart_defaultWords.not_isBlank_head]
        exact ⟨_, .cons ⟨rfl, rfl⟩ (fun hmore => absurd rfl hmore) .done⟩
      · obtain ⟨htake, hdrop⟩ := filled_step hblank
        obtain ⟨last, hmore⟩ := ih hblank
        rw [htake, hdrop]
        exact ⟨last, .cons ⟨rfl, rfl⟩ (fun _ => rfl) hmore⟩
    · simp only [lexeme, hkind, hstray, hend, hend', List.dropWhile_nil, tokensOf]
      exact ⟨0, .swallowed rfl rfl⟩

theorem extends_tokenize (line : Nat) (t : Text) :
    ∃ last, (ofStep last).Extends (tokenize line t) (tokenize line (t ++ defaultStep)) := by
  unfold tokenize
  by_cases hblank : t.dropWhile isBlank = []
  · obtain ⟨-, hdrop⟩ := blanks_step hblank
    rw [hdrop, hblank, tokensOf, ← tokenize_of_head apart_defaultWords.not_isBlank_head]
    exact ⟨_, .done⟩
  · obtain ⟨htake, hdrop⟩ := filled_step hblank
    rw [htake, hdrop]
    exact extends_tokensOf _ hblank

theorem visible_ofStep (line : Nat) : visible (ofStep line).tokens = (ofStep line).tokens := by
  have hall : ∀ w ∈ defaultWords, w.kind ≠ .comment := by decide
  refine List.filter_eq_self.mpr fun t ht => decide_eq_true ?_
  exact hall t.word (words_ofStep line ▸ List.mem_map_of_mem ht)

theorem Extends.visible {line : Nat} {ts us : List Token} (h : (ofStep line).Extends ts us) :
    (ofStep line).Extends (visible ts) (visible us) := by
  induction h with
  | done =>
    rw [visible_ofStep]
    exact .done
  | swallowed ht hu =>
    rw [visible_cons (by simp [ht]), visible_cons (by simp [hu])]
    exact .swallowed ht hu
  | @cons t u ts us h hspace _ ih =>
    by_cases hcomment : t.kind = .comment
    · rw [visible_cons_comment hcomment, visible_cons_comment (h.kind.trans hcomment)]
      exact ih
    · rw [visible_cons hcomment, visible_cons (h.kind ▸ hcomment)]
      refine .cons h (fun hmore => hspace ?_) ih
      rintro rfl
      exact hmore rfl

theorem beside_bodyCursor (line : Nat) (body : Text) :
    ∃ last,
      (ofStep last).Beside (bodyCursor line body) (bodyCursor line (body ++ defaultStep)) := by
  obtain ⟨last, h⟩ := extends_tokenize line body
  exact ⟨last, rfl, h.visible, fun _ => rfl⟩

end Sequel

/-! ## Reading a loop -/

/-- `$i = first to last`: a loop up to its step. -/
def forBounds (scope : Scope) : Reading (Text × Expr × Expr) := do
  let name ← loopVariable
  discard <| take (mark "=")
  let first ← expression scope
  takeWord "to"
  let last ← expression scope
  return (name, first, last)

/-- The statement of a loop from its bounds and its step. -/
def rangeOf (bounds : Text × Expr × Expr) (step : Expr) : Statement :=
  .forRange bounds.1 bounds.2.1 bounds.2.2 step

theorem openFor_eq (scope : Scope) : openFor scope = (do
    let bounds ← forBounds scope
    if (← get).atEnd then modify fun c => c.splice c.length defaultStep
    readStep scope (rangeOf bounds)) := by
  simp only [openFor, forBounds, readStep, rangeOf, bind_assoc, pure_bind]

theorem openFor_of_bounds {scope : Scope} {c mid : Cursor} {bounds : Text × Expr × Expr}
    (h : forBounds scope c = .ok bounds mid) : openFor scope c = readStep scope (rangeOf bounds)
      (if mid.atEnd then mid.splice mid.length defaultStep else mid) := by
  rw [openFor_eq, bind_of_ok h, get_bind]
  cases mid.atEnd <;> rfl

theorem Sequel.mates_forBounds {q : Sequel} (scope : Scope) (n : Nat) :
    q.Mates n (forBounds scope) (forBounds scope) := by
  unfold forBounds
  refine mates_loopVariable.bind fun name => (Mates.mark _).bind fun _ => ?_
  refine (mates_expression scope n).bind fun first => (Mates.takeWord _).bind fun _ => ?_
  exact (mates_expression scope n).bind fun last => .pure _

/-- The words behind the bounds of a loop that has a step of one. -/
def StepWords (words : List Word) : Prop := words = [] ∨ words = defaultWords

theorem openFor_of_words {scope : Scope} {c mid : Cursor} {bounds : Text × Expr × Expr}
    (h : forBounds scope c = .ok bounds mid) (hwords : StepWords (mid.ahead.map Token.word)) :
    ∃ e, openFor scope c = .ok (rangeOf bounds (.number ['1'])) e ∧ e.atEnd = true := by
  rw [openFor_of_bounds h]
  rcases hwords with hnone | hstep
  · have hend : mid.atEnd = true := List.isEmpty_iff.mpr (List.map_eq_nil_iff.mp hnone)
    rw [if_pos hend]
    exact readStep_splice hend scope _
  · obtain ⟨behind, ahead, endLine⟩ := mid
    have hmore : ¬ (⟨behind, ahead, endLine⟩ : Cursor).atEnd = true := by
      intro hend
      rw [List.isEmpty_iff.mp hend] at hstep
      cases hstep
    have hread := passes_defaultWords scope (rangeOf bounds) _ behind ahead [] endLine hstep rfl
      (Nat.le_refl _)
    rw [List.append_nil] at hread
    rw [if_neg hmore]
    exact ⟨_, hread, rfl⟩

/-- The loop is read to a statement, where just these words stand behind its bounds. -/
structure ReadsLoop (scope : Scope) (words : List Word) (c : Cursor) (s : Statement) (e : Cursor) :
    Prop where
  bounds : ∃ bounds mid, forBounds scope c = .ok bounds mid ∧ mid.ahead.map Token.word = words
  run : openFor scope c = .ok s e

namespace ReadsLoop

variable {scope : Scope} {words : List Word} {c e : Cursor} {s : Statement}

theorem of_bounds {bounds : Text × Expr × Expr} (hwords : StepWords words)
    (h : ∃ mid, forBounds scope c = .ok bounds mid ∧ mid.ahead.map Token.word = words) :
    ∃ e, ReadsLoop scope words c (rangeOf bounds (.number ['1'])) e := by
  obtain ⟨mid, hread, rfl⟩ := h
  obtain ⟨e, hrun, -⟩ := openFor_of_words hread hwords
  exact ⟨e, ⟨bounds, mid, hread, rfl⟩, hrun⟩

theorem exists_bounds (h : ReadsLoop scope words c s e) (hwords : StepWords words) :
    e.atEnd = true ∧ ∃ bounds, s = rangeOf bounds (.number ['1']) ∧
      ∃ mid, forBounds scope c = .ok bounds mid ∧ mid.ahead.map Token.word = words := by
  obtain ⟨⟨bounds, mid, hread, rfl⟩, hrun⟩ := h
  obtain ⟨e', hrun', hend⟩ := openFor_of_words hread hwords
  cases hrun.symm.trans hrun'
  exact ⟨hend, bounds, rfl, mid, hread, rfl⟩

end ReadsLoop

/-! ## Loops with the step behind them -/

theorem Sequel.Extends.eq_nil_of_words {line : Nat} {ts us : List Token}
    (h : (ofStep line).Extends ts us) (hwords : us.map Token.word = defaultWords) : ts = [] := by
  have hlength : us.length = (ofStep line).tokens.length := by
    rw [← List.length_map Token.word, hwords, ← words_ofStep line, List.length_map]
  rcases h.length_eq with hfewer | ⟨u, hu, hstray⟩
  · exact List.eq_nil_of_length_eq_zero (by omega)
  · have hall : ∀ w ∈ defaultWords, w.kind ≠ .stray := by decide
    exact absurd hstray (hall u.word (hwords ▸ List.mem_map_of_mem (List.mem_of_getLast? hu)))

theorem agree_forBounds (scope : Scope) (line : Nat) (body : Text) :
    ∃ last, (Sequel.ofStep last).Agree (forBounds scope (bodyCursor line body))
      (forBounds scope (bodyCursor line (body ++ defaultStep))) := by
  obtain ⟨last, hbeside⟩ := Sequel.beside_bodyCursor line body
  exact ⟨last, (Sequel.mates_forBounds scope _).agree _ _ hbeside (Nat.le_refl _)⟩

theorem bounds_iff (scope : Scope) (line : Nat) (body : Text) (bounds : Text × Expr × Expr) :
    (∃ mid, forBounds scope (bodyCursor line body) = .ok bounds mid ∧
      mid.ahead.map Token.word = []) ↔
    ∃ mid, forBounds scope (bodyCursor line (body ++ defaultStep)) = .ok bounds mid ∧
      mid.ahead.map Token.word = defaultWords := by
  obtain ⟨last, hagree⟩ := agree_forBounds scope line body
  constructor
  · rintro ⟨mid, hread, hnone⟩
    rw [hread] at hagree
    obtain ⟨mid', hread', hmid⟩ := hagree.ok
    have hahead := hmid.ahead
    rw [List.map_eq_nil_iff.mp hnone] at hahead
    exact ⟨mid', hread', hahead.eq_of_nil ▸ Sequel.words_ofStep last⟩
  · rintro ⟨mid', hread', hwords⟩
    have hlength := congrArg List.length (hwords.trans (Sequel.words_ofStep last).symm)
    rw [List.length_map, List.length_map] at hlength
    rw [hread'] at hagree
    obtain ⟨mid, hread, hmid⟩ := hagree.of_ok (Nat.le_of_eq hlength.symm)
    exact ⟨mid, hread, List.map_eq_nil_iff.mpr (hmid.ahead.eq_nil_of_words hwords)⟩

/--
A loop without a step is read as the loop with the default step behind it, to the same statement,
and both to the end of their tokens. The step changes nothing about the bounds.
-/
theorem openFor_default_step (scope : Scope) (line : Nat) (body : Text) :
    let short := bodyCursor line body
    let long := bodyCursor line (body ++ defaultStep)
    (∀ s, (∃ e, ReadsLoop scope [] short s e) ↔ ∃ e, ReadsLoop scope defaultWords long s e) ∧
    (∀ s e, ReadsLoop scope [] short s e ∨ ReadsLoop scope defaultWords long s e →
      e.atEnd = true) ∧
    ∀ bounds mid, forBounds scope short = .ok bounds mid →
      ∃ mid', forBounds scope long = .ok bounds mid' ∧ mid'.position = mid.position := by
  intro short long
  refine ⟨fun s => ⟨?_, ?_⟩, ?_, ?_⟩
  · rintro ⟨e, hloop⟩
    obtain ⟨-, bounds, rfl, hbounds⟩ := hloop.exists_bounds (.inl rfl)
    exact ReadsLoop.of_bounds (.inr rfl) ((bounds_iff scope line body bounds).mp hbounds)
  · rintro ⟨e, hloop⟩
    obtain ⟨-, bounds, rfl, hbounds⟩ := hloop.exists_bounds (.inr rfl)
    exact ReadsLoop.of_bounds (.inl rfl) ((bounds_iff scope line body bounds).mpr hbounds)
  · rintro s e (hloop | hloop)
    · exact (hloop.exists_bounds (.inl rfl)).1
    · exact (hloop.exists_bounds (.inr rfl)).1
  · intro bounds mid hread
    obtain ⟨last, hagree⟩ := agree_forBounds scope line body
    rw [hread] at hagree
    obtain ⟨mid', hread', hmid⟩ := hagree.ok
    exact ⟨mid', hread', hmid.position⟩

/-- Bounds that could go on where the tag ends, and a comment behind them. -/
def remarkedLoop : Text := "$i = $a ? 1 : -$c->k to $b.n[0]++/* up */"

theorem openFor_default_step_remarked :
    let scope := Dialect.standard.scope ⟨0⟩
    ∃ s e, ReadsLoop scope [] (bodyCursor 1 remarkedLoop) s e ∧ e.atEnd = true ∧
      ∃ e', ReadsLoop scope defaultWords (bodyCursor 1 (remarkedLoop ++ defaultStep)) s e' ∧
        e'.atEnd = true := by
  intro scope
  obtain ⟨hiff, hend, -⟩ := openFor_default_step scope 1 remarkedLoop
  have hread : (match forBounds scope (bodyCursor 1 remarkedLoop) with
      | .ok _ mid => mid.ahead.isEmpty
      | .error _ _ => false) = true := by decide +kernel
  split at hread
  · rename_i bounds mid hbounds
    have hnone : mid.ahead.map Token.word = [] := by rw [List.isEmpty_iff.mp hread, List.map_nil]
    obtain ⟨e, hshort⟩ := ReadsLoop.of_bounds (.inl rfl) ⟨mid, hbounds, hnone⟩
    obtain ⟨e', hlong⟩ := (hiff _).mp ⟨e, hshort⟩
    exact ⟨_, e, hshort, hend _ _ (.inl hshort), e', hlong, hend _ _ (.inr hlong)⟩
  · cases hread

end Stencil
