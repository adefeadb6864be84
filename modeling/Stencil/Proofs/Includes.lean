import Stencil.Proofs.Levels
import Stencil.Proofs.Openers
import Stencil.Proofs.Turned

/-!
# Templates that are included by a plain string

The name of an included template is an expression. It is read as a string just where the tag has a
string literal there, perhaps in parentheses, and neither an operator nor a modifier behind it.
-/

namespace Stencil

open Grammar Reading Tag Template Written

/-! ## Strings in parentheses -/

/-- The kinds of the tokens of a string in `n` pairs of parentheses. -/
def literalKinds (n : Nat) : List Kind :=
  List.replicate n (.symbol ['(']) ++ .quoted :: List.replicate n (.symbol [')'])

theorem literalKinds_succ (n : Nat) :
    literalKinds (n + 1) = .symbol ['('] :: (literalKinds n ++ [.symbol [')']]) := by
  rw [literalKinds, List.replicate_succ, List.replicate_succ']
  simp [literalKinds]

/-- Between the cursors lies a string in parentheses. -/
def Passed (c c' : Cursor) : Prop :=
  ∃ n tokens, c.ahead = tokens ++ c'.ahead ∧ tokens.map Token.kind = literalKinds n

section

variable {scope : Scope} {inner : Inner}

/-! ## What is not read as a string -/

theorem yields_dotted (base : Expr) : Yields (dotted base) (·.isString = false) := by
  intro c e c' hrun
  unfold dotted at hrun
  split at hrun
  · split at hrun <;> cases hrun <;> rfl
  · cases hrun

theorem yields_arrowed (base : Expr) : Yields (arrowed scope inner base) (·.isString = false) := by
  unfold arrowed
  refine .bind fun name => .bind fun called => ?_
  dsimp only
  split
  · split
    · rintro c e c' ⟨⟩
    · exact .bind fun arguments => .pure rfl
  · exact .pure rfl

theorem yields_accesses (bound : Nat) {base : Expr} (h : base.isString = false) :
    Yields (accesses scope inner bound base) (·.isString = false) := by
  induction bound generalizing base with
  | zero => exact .pure h
  | succ bound ih =>
    unfold accesses
    refine .bind fun point => ?_
    split
    · exact (yields_dotted base).chain fun _ he => ih he
    refine .bind fun bracket => ?_
    split
    · exact .bind fun key => .bind fun _ => ih rfl
    refine .bind fun arrow => ?_
    split
    · exact (yields_arrowed base).chain fun _ he => ih he
    · exact .pure h

theorem yields_counted : Yields (counted scope inner) (·.isString = false) := by
  have htarget : Yields (targetWith scope inner) (·.isString = false) :=
    .bind fun name => yields_accesses _ rfl
  refine htarget.chain fun place hplace => .bind fun op => ?_
  cases op with
  | some op => exact .pure rfl
  | none => exact .pure hplace

theorem yields_word (token : Token) : Yields (word scope inner token) (·.isString = false) := by
  have hcall : Yields (call scope inner) (·.isString = false) :=
    .bind fun name => .orThrow fun _ => .bind fun arguments => .pure rfl
  intro c e c' hrun
  unfold word at hrun
  split at hrun
  · cases hrun
    rfl
  · split at hrun
    · exact hcall c e c' hrun
    · cases hrun

theorem yields_list : Yields (Expr.list <$> items inner) (·.isString = false) := by
  rw [map_eq_pure_bind]
  exact .bind fun _ => .pure rfl

theorem yields_modifier (inBranch : Bool) (value : Expr) :
    Yields (modifier scope inner inBranch value) (·.isString = false) := by
  unfold modifier
  refine .bind fun name => ?_
  cases scope.library.modifier scope.options name with
  | error fault => exact .throw _
  | ok symbol => exact .bind fun arguments => .pure rfl

theorem yields_modifiers (inBranch : Bool) (bound : Nat) {value : Expr}
    (h : value.isString = false) :
    Yields (modifiers scope inner inBranch bound value) (·.isString = false) := by
  induction bound generalizing value with
  | zero => exact .pure h
  | succ bound ih =>
    unfold modifiers
    refine .bind fun found => ?_
    split
    · exact (yields_modifier inBranch value).chain fun _ he => ih he
    · exact .pure h

theorem yields_climb (next : Reading Expr) (bound least : Nat) {left : Expr}
    (h : left.isString = false) : Yields (climb next bound least left) (·.isString = false) := by
  induction bound generalizing least left with
  | zero => exact .pure h
  | succ bound ih =>
    unfold climb
    refine .bind fun c => ?_
    cases binaryOperator? c least with
    | none => exact .pure h
    | some found => exact .bind fun _ => .bind fun first => .bind fun right => ih _ rfl

/-! ## What is read as a string -/

theorem take_eq_ok {wants : List Want} {c c' : Cursor} {text : Text}
    (h : take wants c = .ok text c') :
    ∃ t, c.ahead = t :: c'.ahead ∧ t.fits wants = true := by
  rcases c with ⟨behind, _ | ⟨t, ahead⟩, endLine⟩
  · cases h
  · unfold take at h
    obtain ⟨token, c'', hneed, hrest⟩ := bind_eq_ok h
    unfold need at hneed
    dsimp only [Cursor.current?, List.head?_cons] at hneed
    split at hneed
    · rename_i hfits
      cases hneed
      cases hrest
      exact ⟨t, rfl, hfits⟩
    · cases hneed

theorem discard_eq_ok {α : Type} {m : Reading α} {c c' : Cursor} {u : PUnit}
    (h : discard m c = .ok u c') : ∃ a, m c = .ok a c' := by
  change EStateM.map (Function.const α PUnit.unit) m c = .ok u c' at h
  unfold EStateM.map at h
  split at h
  · rename_i a _ hm
    cases h
    exact ⟨a, hm⟩
  · cases h

theorem passed_of_parenthesised (h : ∀ c e c', inner.read c = .ok e c' → e.isString = true →
      Passed c c') {c c' : Cursor} {e : Expr} {t : Token} (ht : c.current? = some t)
    (hkind : t.kind = .symbol ['(']) (hrun : parenthesised inner c = .ok e c')
    (hstring : e.isString = true) : Passed c c' := by
  unfold parenthesised at hrun
  obtain ⟨_, c₁, hadvance, hrun⟩ := bind_eq_ok hrun
  obtain ⟨e', c₂, hread, hrun⟩ := bind_eq_ok hrun
  obtain ⟨_, c₃, hdiscard, hrun⟩ := bind_eq_ok hrun
  obtain ⟨_, htake⟩ := discard_eq_ok hdiscard
  cases hrun
  cases hadvance
  rcases c with ⟨behind, _ | ⟨_, ahead⟩, endLine⟩
  · cases ht
  cases ht
  obtain ⟨n, tokens, htokens, hkinds⟩ := h _ _ _ hread hstring
  obtain ⟨last, hlast, hfits⟩ := take_eq_ok htake
  have hclose : last.kind = .symbol [')'] := by
    simpa [mark, Token.fits, Want.symbol, Want.accepts] using hfits
  refine ⟨n + 1, t :: (tokens ++ [last]), ?_, ?_⟩
  · have hahead : ahead = tokens ++ c₂.ahead := htokens
    simp [hahead, hlast]
  · rw [literalKinds_succ, List.map_cons, List.map_append, hkinds, hkind]
    simp [hclose]

theorem passed_of_term (h : ∀ c e c', inner.read c = .ok e c' → e.isString = true → Passed c c')
    {c c' : Cursor} {e : Expr} (hrun : term scope inner c = .ok e c') (hstring : e.isString = true) :
    Passed c c' := by
  unfold term at hrun
  split at hrun
  · rename_i t ht
    split at hrun
    · cases hrun
      cases hstring
    · cases hrun
      cases hstring
    · rename_i hkind
      cases hrun
      rcases c with ⟨behind, _ | ⟨_, ahead⟩, endLine⟩
      · cases ht
      cases ht
      exact ⟨0, [t], rfl, by simp [literalKinds, hkind]⟩
    · rw [yields_counted c e c' hrun] at hstring
      cases hstring
    · rw [yields_word t c e c' hrun] at hstring
      cases hstring
    · exact passed_of_parenthesised h ht ‹_› hrun hstring
    · rw [yields_list c e c' hrun] at hstring
      cases hstring
    · cases hrun
  · cases hrun

theorem modifiers_eq_ok {inBranch : Bool} {bound : Nat} {value e : Expr} {c c' : Cursor}
    (hrun : modifiers scope inner inBranch bound value c = .ok e c') (hstring : e.isString = true) :
    e = value ∧ c' = c := by
  cases bound with
  | zero =>
    cases hrun
    exact ⟨rfl, rfl⟩
  | succ bound =>
    unfold modifiers at hrun
    obtain ⟨found, c₁, hskip, hrun⟩ := bind_eq_ok hrun
    unfold skip at hskip
    split at hskip
    · cases hskip
      rw [if_pos rfl] at hrun
      obtain ⟨value', c₂, hmodifier, hrun⟩ := bind_eq_ok hrun
      have hvalue := yields_modifier inBranch value _ _ _ hmodifier
      rw [yields_modifiers inBranch bound hvalue _ _ _ hrun] at hstring
      cases hstring
    · cases hskip
      cases hrun
      exact ⟨rfl, rfl⟩

theorem climb_eq_ok {next : Reading Expr} {bound least : Nat} {left e : Expr} {c c' : Cursor}
    (hrun : climb next bound least left c = .ok e c') (hstring : e.isString = true) :
    e = left ∧ c' = c := by
  cases bound with
  | zero =>
    cases hrun
    exact ⟨rfl, rfl⟩
  | succ bound =>
    rw [climb, get_bind] at hrun
    cases hop : binaryOperator? c least with
    | none =>
      rw [hop] at hrun
      cases hrun
      exact ⟨rfl, rfl⟩
    | some found =>
      rw [hop] at hrun
      obtain ⟨_, _, -, hrun⟩ := bind_eq_ok hrun
      obtain ⟨first, _, -, hrun⟩ := bind_eq_ok hrun
      obtain ⟨right, _, -, hrun⟩ := bind_eq_ok hrun
      rw [yields_climb next bound least rfl _ _ _ hrun] at hstring
      cases hstring

theorem eq_of_takeOperator? {role : Role} {c c' : Cursor}
    (h : takeOperator? role c = .ok none c') : c' = c := by
  unfold takeOperator? at h
  split at h
  · cases h
  · cases h
    rfl

theorem passed_of_operand
    (h : ∀ c e c', inner.read c = .ok e c' → e.isString = true → Passed c c') {inBranch : Bool}
    {bound : Nat} {c c' : Cursor} {e : Expr}
    (hrun : operand scope inner inBranch bound c = .ok e c') (hstring : e.isString = true) :
    Passed c c' := by
  cases bound with
  | zero => cases hrun
  | succ bound =>
    unfold operand at hrun
    obtain ⟨op, c₁, hunary, hrun⟩ := bind_eq_ok hrun
    cases op with
    | some op =>
      obtain ⟨_, _, -, hrun⟩ := bind_eq_ok hrun
      cases hrun
      cases hstring
    | none =>
      obtain ⟨sign, c₂, hstep, hrun⟩ := bind_eq_ok hrun
      cases sign with
      | some sign =>
        obtain ⟨_, _, -, hrun⟩ := bind_eq_ok hrun
        cases hrun
        cases hstring
      | none =>
        obtain ⟨value, c₃, hterm, hrun⟩ := bind_eq_ok hrun
        obtain ⟨rfl, rfl⟩ := modifiers_eq_ok hrun hstring
        obtain rfl := eq_of_takeOperator? hunary
        obtain rfl := eq_of_takeOperator? hstep
        exact passed_of_term h hterm hstring

/-- What is read as a string stands there as a literal, perhaps in parentheses. -/
theorem passed_of_expressionWithin {depth : Nat} {inBranch : Bool} {c c' : Cursor} {e : Expr}
    (hrun : expressionWithin scope depth inBranch c = .ok e c') (hstring : e.isString = true) :
    Passed c c' := by
  induction depth generalizing inBranch c c' e with
  | zero => cases hrun
  | succ depth ih =>
    unfold expressionWithin choice at hrun
    obtain ⟨condition, c₁, hoperation, hrun⟩ := bind_eq_ok hrun
    obtain ⟨question, c₂, hskip, hrun⟩ := bind_eq_ok hrun
    cases question with
    | true =>
      obtain ⟨short, c₃, -, hrun⟩ := bind_eq_ok hrun
      cases short with
      | true =>
        obtain ⟨_, _, -, hrun⟩ := bind_eq_ok hrun
        cases hrun
        cases hstring
      | false =>
        obtain ⟨_, _, -, hrun⟩ := bind_eq_ok hrun
        obtain ⟨_, _, -, hrun⟩ := bind_eq_ok hrun
        obtain ⟨_, _, -, hrun⟩ := bind_eq_ok hrun
        cases hrun
        cases hstring
    | false =>
      cases hrun
      unfold skip at hskip
      split at hskip
      · cases hskip
      cases hskip
      obtain ⟨first, c₃, hoperand, hclimb⟩ := bind_eq_ok hoperation
      obtain ⟨rfl, rfl⟩ := climb_eq_ok hclimb hstring
      exact passed_of_operand (fun c e c' hread hstring => ih hread hstring) hoperand hstring

/-! ## Reading a string -/

theorem expressionWithin_of_term {depth : Nat} {inBranch : Bool} {c c' : Cursor} {e : Expr}
    (hunary : operatorOf .unary (nextKind c.ahead) = none)
    (hstep : operatorOf .step (nextKind c.ahead) = none)
    (hterm : term scope ⟨expressionWithin scope depth false, depth + 1⟩ c = .ok e c')
    (hends : EndsExpression false [] (nextKind c'.ahead)) :
    expressionWithin scope (depth + 1) inBranch c = .ok e c' := by
  have hoperand : operandHere scope ⟨expressionWithin scope depth false, depth + 1⟩ inBranch c =
      .ok e c' := by
    rw [operandHere, operand, bind_of_ok (takeOperator?_of_none hunary)]
    dsimp only
    rw [bind_of_ok (takeOperator?_of_none hstep)]
    dsimp only
    rw [bind_of_ok hterm, modifiers_of_ne hends.1.2]
  have hoperation : operation scope ⟨expressionWithin scope depth false, depth + 1⟩ inBranch c =
      .ok e c' := by
    rw [operation, bind_of_ok hoperand, climb_of_none (binaryOperator?_eq_none (by simp [hends.2.1]))]
  rw [expressionWithin, choice, bind_of_ok hoperation]
  dsimp only [String.reduceToList]
  rw [bind_of_ok (skip_of_ne hends.2.2)]
  rfl

theorem expressionWithin_literal (scope : Scope) {n depth : Nat} {tokens rest : List Token}
    (hkinds : tokens.map Token.kind = literalKinds n)
    (hends : EndsExpression false [] (nextKind rest)) (hdepth : n < depth) (inBranch : Bool)
    (behind : List Token) (endLine : Nat) :
    ∃ value, expressionWithin scope depth inBranch ⟨behind, tokens ++ rest, endLine⟩ =
      .ok (.string value) ⟨tokens.reverse ++ behind, rest, endLine⟩ := by
  induction n generalizing depth inBranch behind tokens rest with
  | zero =>
    obtain ⟨depth, rfl⟩ := Nat.exists_eq_add_one_of_ne_zero hdepth.ne'
    obtain ⟨t, tokens, rfl, hkind, htail⟩ := List.map_eq_cons_iff.mp hkinds
    obtain rfl := List.map_eq_nil_iff.mp htail
    refine ⟨t.unquote?.getD [], expressionWithin_of_term ?_ ?_ ?_ hends⟩
    · simp [hkind, operatorOf]
    · simp [hkind, operatorOf]
    · simp [term, Cursor.current?, hkind, Cursor.advance]
  | succ n ih =>
    obtain ⟨depth, rfl⟩ := Nat.exists_eq_add_one_of_ne_zero (Nat.ne_zero_of_lt hdepth)
    rw [literalKinds_succ] at hkinds
    obtain ⟨t, tokens, rfl, hkind, htail⟩ := List.map_eq_cons_iff.mp hkinds
    obtain ⟨tokens, last, rfl, hinside, hlast⟩ := List.map_eq_append_iff.mp htail
    obtain ⟨close, last, rfl, hclose, hnil⟩ := List.map_eq_cons_iff.mp hlast
    obtain rfl := List.map_eq_nil_iff.mp hnil
    have hmark : EndsExpression false [] (nextKind (close :: rest)) := by
      rw [nextKind_cons, hclose]
      exact endsExpression_of_mem (by decide) _ _
    obtain ⟨value, hread⟩ := ih hinside hmark (Nat.lt_of_succ_lt_succ hdepth) false (t :: behind)
    refine ⟨value, expressionWithin_of_term ?_ ?_ ?_ hends⟩
    · rw [List.cons_append, nextKind_cons, hkind]
      decide
    · rw [List.cons_append, nextKind_cons, hkind]
      decide
    · rw [List.cons_append, term_of_parenthesis _ hkind, parenthesised, bind_of_ok (advance_cons t)]
      simp only [List.append_assoc, List.cons_append, List.nil_append]
      have htake : discard (take (mark ")")) ⟨tokens.reverse ++ t :: behind, close :: rest, endLine⟩ =
          .ok () ⟨close :: (tokens.reverse ++ t :: behind), rest, endLine⟩ :=
        map_of_ok (take_cons hclose)
      rw [bind_of_ok hread, bind_of_ok htake]
      simp [pure_apply]

end

/-! ## Tags that include a template -/

/-- The words of a tag, comments left out. -/
def tagWords (body : Text) : List Word :=
  ((tokenize 1 body).filter (·.kind ≠ .comment)).map Token.word

/-- The tag includes a template by a string, perhaps in parentheses; arguments may follow. -/
def IncludesLiteral (words : List Word) : Prop :=
  ∃ word name rest n, words = word :: (name ++ rest) ∧ word.kind = .name ∧
    word.text = "include".toList ∧ name.map Word.kind = literalKinds n ∧
    ∀ w ∈ rest.head?, w.kind = .name

theorem word_bodyCursor (line : Nat) (body : Text) :
    (bodyCursor line body).ahead.map Token.word = tagWords body := by
  have hkind (tokens : List Token) : (tokens.filter (·.kind ≠ .comment)).map Token.word =
      (tokens.map Token.word).filter (·.kind ≠ .comment) := by
    rw [List.filter_map]
    rfl
  have hahead : (bodyCursor line body).ahead =
      (tokenize line body).filter (·.kind ≠ .comment) := rfl
  rw [hahead, tagWords, hkind, hkind, tokenize, tokenize, word_tokensOf_line]

theorem endsExpression_of_name {k : Option Kind} (h : ∀ x ∈ k, x = .name) :
    EndsExpression false [] k := by
  cases k with
  | none => decide
  | some k =>
    obtain rfl := h k rfl
    decide

theorem expression_literal (scope : Scope) {n : Nat} {tokens rest : List Token}
    (hkinds : tokens.map Token.kind = literalKinds n) (hrest : ∀ k ∈ nextKind rest, k = .name)
    (behind : List Token) (endLine : Nat) :
    ∃ value, expression scope ⟨behind, tokens ++ rest, endLine⟩ =
      .ok (.string value) ⟨tokens.reverse ++ behind, rest, endLine⟩ := by
  have hlength : n < (tokens ++ rest).length := by
    have := congrArg List.length hkinds
    simp [literalKinds] at this
    simp
    omega
  exact expressionWithin_literal scope hkinds (endsExpression_of_name hrest) hlength false behind
    endLine

theorem passed_of_expression {scope : Scope} {c c' : Cursor} {e : Expr}
    (hrun : expression scope c = .ok e c') (hstring : e.isString = true) : Passed c c' :=
  passed_of_expressionWithin hrun hstring

theorem name_of_params {scope : Scope} {c c' : Cursor} {ps : List Param}
    (hrun : params scope false c = .ok ps c') : ∀ k ∈ nextKind c.ahead, k = .name := by
  rcases c with ⟨behind, _ | ⟨t, ahead⟩, endLine⟩
  · simp
  · rintro k ⟨⟩
    by_contra hkind
    have hsees : Cursor.sees ⟨behind, t :: ahead, endLine⟩ [.kind .name] = false := by
      simpa [Cursor.sees, Cursor.current?, Token.fits, Want.accepts] using hkind
    change paramsFrom scope false (ahead.length + 1) ⟨behind, t :: ahead, endLine⟩ = _ at hrun
    rw [paramsFrom, get_bind, hsees] at hrun
    cases hrun

/-! Only the tag `include` gives an inclusion. -/

section

variable {scope : Scope} {frame : Frame}

theorem yields_ofExpression {make : Expr → Statement} (h : ∀ e, (make e).isInclusion = false) :
    Yields (do return make (← expression scope)) (·.isInclusion = false) :=
  .bind fun e => .pure (h e)

theorem yields_openers {handler : InlineHandler} (h : handler ∈ openers) :
    Yields (handler scope) (·.isInclusion = false) := by
  simp only [openers, List.mem_cons, List.not_mem_nil, or_false] at h
  rcases h with rfl | rfl | rfl | rfl | rfl | rfl
  · refine .bind fun list => .bind fun _ => .bind fun first => .bind fun arrow => ?_
    split
    · exact .bind fun value => .pure rfl
    · exact .pure rfl
  · refine .bind fun name => .bind fun _ => .bind fun first => .bind fun _ => .bind fun last =>
      .bind fun c => ?_
    dsimp only
    split
    · exact .bind fun _ => .bind fun _ => yields_ofExpression fun _ => rfl
    · exact .bind fun _ => yields_ofExpression fun _ => rfl
  · exact yields_ofExpression fun _ => rfl
  · exact yields_ofExpression fun _ => rfl
  · exact yields_ofExpression fun _ => rfl
  · exact .bind fun name => .pure rfl

theorem BlockHandler.BuiltIn.yields {handler : BlockHandler} (h : handler.BuiltIn) :
    Yields (handler scope frame) (·.1.isInclusion = false) := by
  have hplain {inline : InlineHandler} (hinline : Yields (inline scope) (·.isInclusion = false)) :
      Yields (BlockHandler.plain inline scope frame) (·.1.isInclusion = false) :=
    hinline.chain fun _ hs => .pure hs
  have honce {key tag : Text} {statement : Statement} (hstatement : statement.isInclusion = false) :
      Yields (once key tag statement scope frame) (·.1.isInclusion = false) := by
    unfold once
    dsimp only
    split
    · rintro c a c' ⟨⟩
    · exact .pure hstatement
  have hbefore {key tag : Text} {inline : InlineHandler}
      (hinline : Yields (inline scope) (·.isInclusion = false)) :
      Yields (before key tag inline scope frame) (·.1.isInclusion = false) := by
    unfold before
    dsimp only
    split
    · rintro c a c' ⟨⟩
    · exact hinline.chain fun _ hs => .pure hs
  cases h with
  | opens hmem => exact hplain (yields_openers hmem)
  | close => exact hplain (.pure rfl)
  | breakLoop => exact hplain (.pure rfl)
  | continueLoop => exact hplain (.pure rfl)
  | elseIf => exact hbefore (yields_ofExpression fun _ => rfl)
  | otherwise => exact honce rfl
  | case => exact hbefore (yields_ofExpression fun _ => rfl)
  | default => exact honce rfl
  | foreachElse => exact honce rfl
  | forElse => exact honce rfl
  | openCapture => exact .bind fun _ => .pure rfl
  | closeCapture => exact .pure rfl

end

section

variable {options : Options} {line : Nat} {frames frames' : List Frame} {c c' : Cursor}
  {s : Statement}

/-- The tag `include` of the standard dialect. -/
def includeTag : Tag := { name := "include", behaviour := .inline inclusion }

theorem yields_compileTag_other {scope : Scope} {tag : Tag} (htag : tag ∈ Tag.standard)
    (hname : tag.name ≠ includeTag.name) :
    Yields (compileTag scope tag line frames) (·.1.isInclusion = false) := by
  have hopener {name : Text} {opener : BlockHandler} (hopener : opener.BuiltIn) :
      Yields (compileOpener scope name line opener frames) (·.1.isInclusion = false) :=
    hopener.yields.chain fun r hr => .pure hr
  have hbuiltIn := Dialect.builtIn_standard.tags tag htag
  simp only [Tag.standard, List.mem_cons, List.not_mem_nil, or_false] at htag
  rcases htag with rfl | rfl | rfl | rfl | rfl | rfl | rfl | rfl | rfl | rfl | rfl
  · exact hopener hbuiltIn.opener
  · exact hopener hbuiltIn.opener
  · exact hopener hbuiltIn.opener
  · exact hopener hbuiltIn.opener
  · exact hopener hbuiltIn.opener
  · exact hopener hbuiltIn.opener
  · have hassign : Yields (assign scope) (·.isInclusion = false) :=
      .bind fun place => .bind fun op => yields_ofExpression fun _ => rfl
    exact hassign.chain fun _ hs => .pure hs
  · exact absurd rfl hname
  · exact (yields_ofExpression fun _ => rfl).chain fun _ hs => .pure hs
  · exact hopener .openCapture
  · exact .bind fun _ => .pure rfl

theorem Follows.opened {stack : Script.Stack} (h : Follows stack frames) :
    Opened stack.kinds frames := by
  induction h with
  | nil => exact .nil
  | cons hframe _ ih => exact .cons hframe.is ih

variable {kinds : List BlockKind}

theorem yields_closeFrame_other (frame : Frame) :
    Yields (closeFrame Dialect.standard options frame) (·.isInclusion = false) := by
  unfold closeFrame
  cases hblock : Dialect.standard.block? frame.action with
  | none => exact .throw _
  | some block =>
    exact (Dialect.builtIn_standard.block hblock).closer.yields.chain fun r hr => .pure hr

theorem yields_compileClose_other (name : Text) :
    Yields (compileClose Dialect.standard options name frames) (·.1.isInclusion = false) := by
  unfold compileClose
  dsimp only
  split
  on_goal 1 => refine .orThrow fun _ => ?_
  all_goals
    cases frames with
    | nil => exact .throw _
    | cons frame outer =>
      exact .orThrow fun _ => (yields_closeFrame_other frame).chain fun _ hs => .pure hs

theorem yields_compileNamed_other {name : Text} (hname : name ≠ includeTag.name) :
    Yields (compileNamed Dialect.standard options name line frames) (·.1.isInclusion = false) := by
  unfold compileNamed
  dsimp only
  cases howner : findOwner? Dialect.standard name frames with
  | some found =>
    obtain ⟨inner, owner, handler, outer⟩ := found
    obtain ⟨-, hchild, -⟩ := findOwner?_eq_some howner
    have hhandler := Dialect.builtIn_standard.child hchild
    unfold compileChild
    dsimp only
    split
    · exact .orThrow fun _ => .bind fun _ => hhandler.yields.chain fun r hr => .pure hr
    · exact .bind fun _ => hhandler.yields.chain fun r hr => .pure hr
  | none =>
    cases hfind : Dialect.standard.find? name with
    | some tag =>
      have htag : tag.name ≠ includeTag.name := by
        rw [Tag.name_of_find hfind]
        exact hname
      exact .bind fun _ => yields_compileTag_other (List.mem_of_find?_eq_some hfind) htag
    | none =>
      refine .bind fun c => ?_
      split
      · exact .bind fun e => .pure rfl
      · exact .throw _

theorem compileNamed_include (h : Opened kinds frames) :
    compileNamed Dialect.standard options includeTag.name line frames =
      advance >>= fun _ => inclusion (Dialect.standard.scope options) >>= fun s =>
        pure (s, frames) := by
  have hfind : Dialect.standard.find? includeTag.name = some includeTag := rfl
  unfold compileNamed
  rw [findOwner?_eq_none h (by decide), hfind]
  rfl

theorem compileContent_include (h : Opened kinds frames) {word : Token}
    (hkind : word.kind = .name) (htext : word.text = includeTag.name) (behind ahead : List Token)
    (endLine : Nat) :
    compileContent Dialect.standard options line frames ⟨behind, word :: ahead, endLine⟩ =
      (inclusion (Dialect.standard.scope options) >>= fun s => pure (s, frames))
        ⟨word :: behind, ahead, endLine⟩ := by
  have hconstant : includeTag.name ∉ Token.constants := by decide
  have hname : tagName? ⟨behind, word :: ahead, endLine⟩ = some includeTag.name := by
    simp [tagName?, Cursor.current?, Option.filter, Token.isConstant, hkind, htext, hconstant]
  rw [compileContent, get_bind, hname]
  simp only [sees_mark, nextKind_cons, hkind]
  rw [if_neg (by simp), compileNamed_include h, bind_of_ok (advance_cons word)]

/-- Only a tag that starts with the word `include` gives an inclusion. -/
theorem exists_word_of_inclusion
    (hrun : compileContent Dialect.standard options line frames c = .ok (s, frames') c')
    (hs : s.isInclusion = true) :
    ∃ word ahead, c.ahead = word :: ahead ∧ word.kind = .name ∧ word.text = includeTag.name := by
  have hother (hfalse : s.isInclusion = false) : False := by
    rw [hfalse] at hs
    cases hs
  cases hclosing : closing? c with
  | some closed =>
    rw [compileContent_closing hclosing] at hrun
    exact (hother (yields_compileClose_other closed _ _ _ hrun)).elim
  | none =>
    rw [compileContent_of_not_closing hclosing] at hrun
    cases htag : tagName? c with
    | none =>
      rw [htag] at hrun
      have hecho : Yields (do return (Statement.echo (← expression (Dialect.standard.scope options)),
          frames)) (·.1.isInclusion = false) := .bind fun e => .pure rfl
      exact (hother (hecho _ _ _ hrun)).elim
    | some found =>
      rw [htag] at hrun
      by_cases hfound : found = includeTag.name
      · subst hfound
        exact tagName?_eq_some htag
      · exact (hother (yields_compileNamed_other hfound _ _ _ hrun)).elim

theorem includesLiteral_of_inclusion (h : Opened kinds frames) {embedded : Bool} {name : Expr}
    {ps : List Param} (hname : name.isString = true)
    (hrun : compileBody Dialect.standard options line frames c =
      .ok (.inclusion embedded name ps, frames') c') :
    IncludesLiteral (c.ahead.map Token.word) := by
  obtain ⟨c₁, hcontent⟩ := content_of_compileBody hrun
  obtain ⟨word, ahead, hahead, hkind, htext⟩ := exists_word_of_inclusion hcontent rfl
  obtain ⟨behind, _, endLine⟩ := c
  cases hahead
  rw [compileContent_include h hkind htext] at hcontent
  obtain ⟨_, _, hinclusion, hpure⟩ := bind_eq_ok hcontent
  cases hpure
  obtain ⟨e, c₂, hexpression, hrest⟩ := bind_eq_ok hinclusion
  obtain ⟨_, _, hparams, hpure⟩ := bind_eq_ok hrest
  cases hpure
  obtain ⟨n, tokens, htokens, hkinds⟩ := passed_of_expression hexpression hname
  have hahead : ahead = tokens ++ c₂.ahead := htokens
  refine ⟨word.word, tokens.map Token.word, c₂.ahead.map Token.word, n, ?_, hkind, htext, ?_, ?_⟩
  · rw [hahead, List.map_cons, List.map_append]
  · rw [← hkinds, List.map_map]
    rfl
  · have hname := name_of_params hparams
    simpa [nextKind, Token.word] using hname

theorem inclusion_of_includesLiteral (h : Opened kinds frames) (hc : IncludesLiteral (c.ahead.map Token.word))
    (hrun : compileBody Dialect.standard options line frames c = .ok (s, frames') c') :
    ∃ value ps, s = .inclusion (options.has .embedIncludes) (.string value) ps := by
  obtain ⟨_, _, _, n, hwords, hkind, htext, hkinds, hrest⟩ := hc
  obtain ⟨word, tokens, hahead, rfl, htokens⟩ := List.map_eq_cons_iff.mp hwords
  obtain ⟨name, rest, rfl, rfl, rfl⟩ := List.map_eq_append_iff.mp htokens
  obtain ⟨c₁, hcontent⟩ := content_of_compileBody hrun
  obtain ⟨behind, _, endLine⟩ := c
  cases hahead
  have hkinds : name.map Token.kind = literalKinds n := by
    rw [← hkinds, List.map_map]
    rfl
  have hrest : ∀ k ∈ nextKind rest, k = .name := by
    simpa [nextKind, Token.word] using hrest
  rw [compileContent_include h hkind htext] at hcontent
  obtain ⟨_, _, hinclusion, hpure⟩ := bind_eq_ok hcontent
  cases hpure
  obtain ⟨value, hexpression⟩ := expression_literal (Dialect.standard.scope options) hkinds hrest
    (word :: behind) endLine
  rw [inclusion, bind_of_ok hexpression] at hinclusion
  obtain ⟨ps, _, -, hpure⟩ := bind_eq_ok hinclusion
  cases hpure
  exact ⟨value, ps, rfl⟩

end

end Stencil
