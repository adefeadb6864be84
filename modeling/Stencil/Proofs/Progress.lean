import Stencil.Proofs.Onward

/-!
# Readers get on

A reader that gives an expression has passed a token, whatever reads the expressions inside: each
way to an expression starts with a token of its own. The loops of the grammar that have to give
something pass one as well.
-/

namespace Stencil

open Grammar Reading

namespace Cursor.Onward

variable {c c' : Cursor}

theorem length_le (h : c.Onward c') : c'.ahead.length ≤ c.ahead.length := by
  obtain ⟨passed, hahead, -⟩ := h
  simp [hahead]

theorem tokens_eq (h : c.Onward c') : c'.tokens = c.tokens := by
  obtain ⟨passed, hahead, hbehind, -⟩ := h
  simp [Cursor.tokens, hahead, hbehind]

theorem position_le (h : c.Onward c') : c.position ≤ c'.position := by
  obtain ⟨passed, -, hbehind, -⟩ := h
  simp [Cursor.position, hbehind]

theorem position_lt (h : c.Onward c') (hlt : c'.ahead.length < c.ahead.length) :
    c.position < c'.position := by
  obtain ⟨passed, hahead, hbehind, -⟩ := h
  simp only [hahead, List.length_append] at hlt
  simp only [Cursor.position, hbehind, List.length_append, List.length_reverse]
  omega

end Cursor.Onward

theorem Cursor.length_advance_lt {c : Cursor} {k : Kind} (h : nextKind c.ahead = some k) :
    c.advance.ahead.length < c.ahead.length := by
  obtain ⟨behind, _ | ⟨t, ahead⟩, endLine⟩ := c
  · cases h
  · simp [Cursor.advance]

/-- Where it succeeds, the reader leaves fewer tokens. -/
def Consumes {α : Type} (read : Reading α) : Prop :=
  ∀ c a c', read c = .ok a c' → c'.ahead.length < c.ahead.length

namespace Consumes

variable {α β : Type} {read : Reading α}

theorem refuse (wants : List Want) : Consumes (refuse wants : Reading α) := by
  rintro c a c' ⟨⟩

theorem bind {f : α → Reading β} (h : Consumes read) (hf : ∀ a, Forward (f a)) :
    Consumes (read >>= f) := by
  intro c b c'' hrun
  obtain ⟨a, c', hread, hrest⟩ := bind_eq_ok hrun
  exact Nat.lt_of_le_of_lt ((hf a).ok hrest).length_le (h c a c' hread)

theorem after {f : α → Reading β} (h : Forward read) (hf : ∀ a, Consumes (f a)) :
    Consumes (read >>= f) := by
  intro c b c'' hrun
  obtain ⟨a, c', hread, hrest⟩ := bind_eq_ok hrun
  exact Nat.lt_of_lt_of_le (hf a c' b c'' hrest) (h.ok hread).length_le

theorem map {f : α → β} (h : Consumes read) : Consumes (f <$> read) := by
  rw [map_eq_pure_bind]
  exact h.bind fun a => .pure _

/-! ## Steps -/

theorem token (wants : List Want) {f : Token → Reading α} (hf : ∀ t, Forward (f t)) :
    Consumes (need wants >>= fun t => advance >>= fun _ => f t) := by
  intro c a c' hrun
  obtain ⟨t, c₁, hneed, hrest⟩ := bind_eq_ok hrun
  unfold need at hneed
  split at hneed
  · rename_i token htoken
    split at hneed
    · cases hneed
      exact Nat.lt_of_le_of_lt ((hf t).ok hrest).length_le
        (c.length_advance_lt (nextKind_of_current htoken))
    · cases hneed
  · cases hneed

theorem take (wants : List Want) : Consumes (take wants) := token wants fun _ => .pure _

theorem discard (wants : List Want) : Consumes (discard (Reading.take wants)) := (take wants).map

theorem takeWord (word : Text) : Consumes (takeWord word) := by
  intro c a c' hrun
  unfold Reading.takeWord at hrun
  split at hrun
  · rename_i token htoken
    split at hrun
    · cases hrun
      exact c.length_advance_lt (nextKind_of_current htoken)
    · cases hrun
  · cases hrun

theorem skip (s : Text) {f : Bool → Reading α} (htrue : Forward (f true))
    (hfalse : Consumes (f false)) : Consumes (skip (mark s) >>= f) := by
  intro c a c' hrun
  rw [skip_bind] at hrun
  split at hrun
  · rename_i hsymbol
    exact Nat.lt_of_le_of_lt (htrue.ok hrun).length_le (c.length_advance_lt hsymbol)
  · exact hfalse c a c' hrun

theorem operator (role : Role) {f : Option Text → Reading α} (hsome : ∀ op, Forward (f (some op)))
    (hnone : Consumes (f none)) : Consumes (takeOperator? role >>= f) := by
  intro c a c' hrun
  rw [operator_bind] at hrun
  cases hop : operatorOf role (nextKind c.ahead) with
  | none =>
    rw [hop] at hrun
    exact hnone c a c' hrun
  | some op =>
    rw [hop] at hrun
    exact Nat.lt_of_le_of_lt ((hsome op).ok hrun).length_le
      (c.length_advance_lt (operatorOf_eq_some.mp hop).1)

end Consumes

/-! ## Expressions -/

section Expressions

variable {scope : Scope} {inner : Inner}

theorem consumes_argumentsFrom (h : Forward inner.read) (bound : Nat) :
    Consumes (argumentsFrom inner bound) := by
  cases bound with
  | zero => exact .refuse _
  | succ bound =>
    unfold argumentsFrom
    refine .after h fun first => .skip _ (.pure _) ?_
    exact (Consumes.discard _).bind fun _ => (forward_argumentsFrom h bound).bind fun _ => .pure _

theorem consumes_itemsFrom (h : Forward inner.read) (bound : Nat) :
    Consumes (itemsFrom inner bound) := by
  induction bound with
  | zero => exact .refuse _
  | succ bound ih =>
    unfold itemsFrom
    refine .skip _ (.pure _) (.after h fun first => .after (.sees _) fun last => ?_)
    have hrest := ih.bind fun more => Forward.pure (first :: more)
    dsimp only
    split
    · exact hrest
    · exact .after (.discard _) fun _ => hrest

theorem consumes_dotted (base : Expr) : Consumes (dotted base) := by
  intro c e c' hrun
  unfold dotted at hrun
  split at hrun
  · rename_i token htoken
    have hstep := c.length_advance_lt (nextKind_of_current htoken)
    split at hrun
    · cases hrun
      exact hstep
    · cases hrun
      exact hstep
    · cases hrun
      exact hstep
    · cases hrun
  · cases hrun

theorem consumes_loopVariable : Consumes loopVariable := .token _ fun _ => .pure _

theorem consumes_targetWith (h : Forward inner.read) : Consumes (targetWith scope inner) := by
  unfold targetWith
  exact consumes_loopVariable.bind fun name => forward_accesses h _ _

theorem consumes_counted (h : Forward inner.read) : Consumes (counted scope inner) := by
  unfold counted
  refine (consumes_targetWith h).bind fun place => (Forward.takeOperator _).bind fun op => ?_
  split <;> exact .pure _

theorem consumes_call (h : Forward inner.read) : Consumes (call scope inner) := by
  unfold call
  refine (Consumes.take _).bind fun name => ?_
  exact .orThrow rfl ((forward_arguments h).bind fun _ => .pure _)

theorem consumes_items (h : Forward inner.read) : Consumes (items inner) := by
  unfold items
  exact (Consumes.discard _).bind fun _ => forward_itemsFrom h _

theorem consumes_term (h : Forward inner.read) : Consumes (term scope inner) := by
  intro c e c' hrun
  unfold term at hrun
  split at hrun
  · rename_i token htoken
    have hstep := c.length_advance_lt (nextKind_of_current htoken)
    split at hrun
    · cases hrun
      exact hstep
    · cases hrun
      exact hstep
    · cases hrun
      exact hstep
    · exact consumes_counted h c e c' hrun
    · unfold word at hrun
      split at hrun
      · cases hrun
        exact hstep
      split at hrun
      · exact consumes_call h c e c' hrun
      · cases hrun
    · have hrest : Forward (do
          let e ← inner.read
          discard <| take (mark ")")
          return e) := h.bind fun e => (Forward.discard _).bind fun _ => .pure _
      exact Nat.lt_of_le_of_lt (hrest.ok hrun).length_le hstep
    · exact (consumes_items h).map c e c' hrun
    · cases hrun
  · cases hrun

theorem consumes_operand (h : Forward inner.read) (inBranch : Bool) (bound : Nat) :
    Consumes (operand scope inner inBranch bound) := by
  cases bound with
  | zero => exact .refuse _
  | succ bound =>
    unfold operand
    refine .operator _ (fun sign => (forward_operand h inBranch bound).bind fun _ => .pure _) ?_
    refine .operator _ (fun step => (forward_targetWith h).bind fun _ => .pure _) ?_
    exact (consumes_term h).bind fun value => forward_modifiers h inBranch _ value

theorem consumes_operation (h : Forward inner.read) (inBranch : Bool) :
    Consumes (operation scope inner inBranch) := by
  unfold operation
  exact (consumes_operand h inBranch _).bind fun first =>
    forward_climb (forward_operand h inBranch _) _ _ first

theorem consumes_expressionWithin (scope : Scope) (depth : Nat) (inBranch : Bool) :
    Consumes (expressionWithin scope depth inBranch) := by
  cases depth with
  | zero => exact .refuse _
  | succ depth =>
    have h := forward_expressionWithin scope depth
    unfold expressionWithin choice
    exact (consumes_operation (h false) inBranch).bind (forward_choiceRest h inBranch)

theorem consumes_expression (scope : Scope) : Consumes (expression scope) := by
  unfold expression
  exact .after .remaining fun bound => consumes_expressionWithin scope bound false

theorem consumes_target (scope : Scope) : Consumes (target scope) := by
  unfold target
  exact .after .remaining fun bound =>
    consumes_targetWith (forward_expressionWithin scope bound false)

end Expressions

end Stencil
