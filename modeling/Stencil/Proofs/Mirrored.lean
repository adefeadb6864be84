import Stencil.Expr.Grammar
import Stencil.Proofs.Steps

/-!
# Readers under other options

Two scopes that differ in their options only. The readers of the grammar do the same under both, as
long as the second scope does not refuse what the first lets through.
-/

namespace Stencil

open Grammar Reading

/-! ## Readers that do the same -/

/-- The same result with a related value, the same fault, or in the second place one of `faults`. -/
inductive Mirrored {α : Type} (faults : Fault → Prop) (R : α → α → Prop) :
    EStateM.Result Fault Cursor α → EStateM.Result Fault Cursor α → Prop
  | ok {a a' : α} {c : Cursor} (h : R a a') : Mirrored faults R (.ok a c) (.ok a' c)
  | error {fault : Fault} {c c' : Cursor} : Mirrored faults R (.error fault c) (.error fault c')
  | refused {r : EStateM.Result Fault Cursor α} {fault : Fault} {c : Cursor} (h : faults fault) :
      Mirrored faults R r (.error fault c)

/-- Wherever both start, the second reader does what the first does, or fails with one of `faults`. -/
def Mirrors {α : Type} (faults : Fault → Prop) (R : α → α → Prop) (read read' : Reading α) : Prop :=
  ∀ c, Mirrored faults R (read c) (read' c)

namespace Mirrors

variable {α β : Type} {faults : Fault → Prop} {R : α → α → Prop} {S : β → β → Prop}
  {read read' : Reading α}

theorem refl (read : Reading α) : Mirrors faults Eq read read := by
  intro c
  cases read c with
  | ok a c' => exact .ok rfl
  | error fault c' => exact .error

theorem pure {a a' : α} (h : R a a') : Mirrors faults R (pure a) (pure a') := fun _ => .ok h

theorem throw {fault : Fault} : Mirrors faults R (throw fault) (throw fault) := fun _ => .error

theorem refused {fault : Fault} (h : faults fault) : Mirrors faults R read (MonadExcept.throw fault) :=
  fun _ => .refused h

theorem bind {f f' : α → Reading β} (h : Mirrors faults R read read')
    (hf : ∀ a a', R a a' → Mirrors faults S (f a) (f' a')) :
    Mirrors faults S (read >>= f) (read' >>= f') := by
  intro c
  have hfirst := h c
  show Mirrored faults S (EStateM.bind read f c) (EStateM.bind read' f' c)
  unfold EStateM.bind
  generalize read c = r at hfirst ⊢
  generalize read' c = r' at hfirst ⊢
  cases hfirst with
  | ok ha => exact hf _ _ ha _
  | error => exact .error
  | refused hfault => exact .refused hfault

theorem seq {f f' : α → Reading β} (h : Mirrors faults Eq read read')
    (hf : ∀ a, Mirrors faults S (f a) (f' a)) : Mirrors faults S (read >>= f) (read' >>= f') :=
  h.bind fun a _ ha => ha ▸ hf a

theorem step {f f' : α → Reading β} (hf : ∀ a, Mirrors faults S (f a) (f' a)) :
    Mirrors faults S (read >>= f) (read >>= f') :=
  (refl read).seq hf

theorem map {f : α → β} (h : Mirrors faults Eq read read') :
    Mirrors faults Eq (f <$> read) (f <$> read') := by
  rw [map_eq_pure_bind, map_eq_pure_bind]
  exact h.seq fun a => refl _

theorem ite {p : Prop} [Decidable p] {other other' : Reading α}
    (h : p → Mirrors faults R read read') (hother : ¬ p → Mirrors faults R other other') :
    Mirrors faults R (if p then read else other) (if p then read' else other') := by
  split
  · exact h ‹_›
  · exact hother ‹_›

end Mirrors

/-! ## Scopes -/

/--
What the second scope lets through, the first lets through in the same way. What only the first lets
through is refused with one of `faults`.
-/
structure Scope.Narrows (faults : Fault → Prop) (scope scope' : Scope) : Prop where
  methods : scope'.options.has .denyMethods = scope.options.has .denyMethods ∨
    scope'.options.has .denyMethods = true ∧ ∀ name, faults (.disallowedCall name)
  calls : ∀ name, scope'.library.permits scope'.options name =
      scope.library.permits scope.options name ∨
    scope'.library.permits scope'.options name = false ∧ faults (.disallowedCall name)
  modifiers : ∀ name, scope'.library.modifier scope'.options name =
      scope.library.modifier scope.options name ∨
    scope'.library.modifier scope'.options name = .error (.disallowedCall name) ∧
      faults (.disallowedCall name)

/-- The expressions inside another one are read in the same way. -/
structure Grammar.Inner.Mirrors (faults : Fault → Prop) (inner inner' : Inner) : Prop where
  read : Stencil.Mirrors faults Eq inner.read inner'.read
  bound : inner'.bound = inner.bound

section Grammar

variable {faults : Fault → Prop} {scope scope' : Scope} {inner inner' : Inner}

theorem mirrors_argumentsFrom (h : inner.Mirrors faults inner') (bound : Nat) :
    Mirrors faults Eq (argumentsFrom inner bound) (argumentsFrom inner' bound) := by
  induction bound with
  | zero => exact .refl _
  | succ bound ih =>
    unfold argumentsFrom
    refine h.read.seq fun first => .step fun found => .ite (fun _ => .refl _) fun _ => ?_
    exact .step fun _ => ih.seq fun more => .refl _

theorem mirrors_arguments (h : inner.Mirrors faults inner') :
    Mirrors faults Eq (arguments inner) (arguments inner') := by
  unfold arguments
  refine .step fun _ => .step fun found => .ite (fun _ => .refl _) fun _ => ?_
  rw [h.bound]
  exact mirrors_argumentsFrom h _

theorem mirrors_itemsFrom (h : inner.Mirrors faults inner') (bound : Nat) :
    Mirrors faults Eq (itemsFrom inner bound) (itemsFrom inner' bound) := by
  induction bound with
  | zero => exact .refl _
  | succ bound ih =>
    unfold itemsFrom
    refine .step fun closed => .ite (fun _ => .refl _) fun _ => h.read.seq fun first => ?_
    refine .step fun last => ?_
    have hrest := ih.seq (S := Eq) (f := fun more => pure (first :: more)) fun more => .refl _
    exact .ite (fun _ => hrest) fun _ => .step fun _ => hrest

theorem mirrors_items (h : inner.Mirrors faults inner') :
    Mirrors faults Eq (items inner) (items inner') := by
  unfold items
  rw [h.bound]
  exact .step fun _ => mirrors_itemsFrom h _

theorem mirrors_arrowed (hscope : scope.Narrows faults scope') (h : inner.Mirrors faults inner')
    (base : Expr) : Mirrors faults Eq (arrowed scope inner base) (arrowed scope' inner' base) := by
  unfold arrowed
  refine .step fun name => .step fun called => .ite (fun _ => ?_) fun _ => .refl _
  have hcalled := (mirrors_arguments h).seq (S := Eq)
    (f := fun arguments => pure (Expr.method base name arguments)) fun _ => .refl _
  rcases hscope.methods with heq | ⟨hdeny, hfault⟩
  · rw [heq]
    exact .ite (fun _ => .step fun _ => hcalled) fun _ => hcalled
  · rw [if_pos hdeny]
    exact .refused (hfault _)

theorem mirrors_accesses (hscope : scope.Narrows faults scope') (h : inner.Mirrors faults inner')
    (bound : Nat) (base : Expr) :
    Mirrors faults Eq (accesses scope inner bound base) (accesses scope' inner' bound base) := by
  induction bound generalizing base with
  | zero => exact .refl _
  | succ bound ih =>
    unfold accesses
    refine .step fun point => .ite (fun _ => .step fun e => ih e) fun _ => ?_
    refine .step fun bracket => .ite (fun _ => ?_) fun _ => ?_
    · exact h.read.seq fun key => .step fun _ => ih _
    · refine .step fun arrow => .ite (fun _ => ?_) fun _ => .refl _
      exact (mirrors_arrowed hscope h base).seq fun e => ih e

theorem mirrors_targetWith (hscope : scope.Narrows faults scope')
    (h : inner.Mirrors faults inner') :
    Mirrors faults Eq (targetWith scope inner) (targetWith scope' inner') := by
  unfold targetWith
  rw [h.bound]
  exact .step fun name => mirrors_accesses hscope h _ _

theorem mirrors_counted (hscope : scope.Narrows faults scope') (h : inner.Mirrors faults inner') :
    Mirrors faults Eq (counted scope inner) (counted scope' inner') := by
  unfold counted
  exact (mirrors_targetWith hscope h).seq fun place => .refl _

theorem mirrors_call (hscope : scope.Narrows faults scope') (h : inner.Mirrors faults inner') :
    Mirrors faults Eq (call scope inner) (call scope' inner') := by
  unfold call
  refine .step fun name => ?_
  have hcalled := (mirrors_arguments h).seq (S := Eq)
    (f := fun arguments => pure (Expr.call name arguments)) fun _ => .refl _
  rcases hscope.calls name with heq | ⟨hdeny, hfault⟩
  · rw [heq]
    exact .ite (fun _ => hcalled) fun _ => .step fun _ => hcalled
  · have hnot : ¬ scope'.library.permits scope'.options name = true := by
      rw [hdeny]
      decide
    rw [if_neg hnot]
    exact .refused hfault

theorem mirrors_parenthesised (h : inner.Mirrors faults inner') :
    Mirrors faults Eq (parenthesised inner) (parenthesised inner') := by
  unfold parenthesised
  exact .step fun _ => h.read.seq fun e => .refl _

theorem mirrors_word (hscope : scope.Narrows faults scope') (h : inner.Mirrors faults inner')
    (token : Token) : Mirrors faults Eq (word scope inner token) (word scope' inner' token) := by
  intro c
  unfold word
  split
  · exact .ok rfl
  · split
    · exact mirrors_call hscope h c
    · exact .error

theorem mirrors_term (hscope : scope.Narrows faults scope') (h : inner.Mirrors faults inner') :
    Mirrors faults Eq (term scope inner) (term scope' inner') := by
  intro c
  unfold term
  split
  · split
    · exact .ok rfl
    · exact .ok rfl
    · exact .ok rfl
    · exact mirrors_counted hscope h c
    · exact mirrors_word hscope h _ c
    · exact mirrors_parenthesised h c
    · exact (mirrors_items h).map c
    · exact .error
  · exact .error

theorem mirrors_modifierArgument (hscope : scope.Narrows faults scope')
    (h : inner.Mirrors faults inner') :
    Mirrors faults Eq (modifierArgument scope inner) (modifierArgument scope' inner') := by
  unfold modifierArgument
  refine .step fun op => ?_
  cases op with
  | some op => exact (mirrors_term hscope h).seq fun e => .refl _
  | none => exact mirrors_term hscope h

theorem mirrors_modifierArguments (hscope : scope.Narrows faults scope')
    (h : inner.Mirrors faults inner') (inBranch : Bool) (bound : Nat) :
    Mirrors faults Eq (modifierArguments scope inner inBranch bound)
      (modifierArguments scope' inner' inBranch bound) := by
  induction bound with
  | zero => exact .refl _
  | succ bound ih =>
    unfold modifierArguments
    refine .step fun c => .step fun colon => .ite (fun _ => .refl _) fun _ => ?_
    refine .step fun found => .ite (fun _ => ?_) fun _ => .refl _
    exact (mirrors_modifierArgument hscope h).seq fun first => ih.seq fun more => .refl _

theorem mirrors_modifier (hscope : scope.Narrows faults scope') (h : inner.Mirrors faults inner')
    (inBranch : Bool) (value : Expr) :
    Mirrors faults Eq (modifier scope inner inBranch value)
      (modifier scope' inner' inBranch value) := by
  unfold modifier
  refine .step fun name => ?_
  rcases hscope.modifiers name with heq | ⟨herror, hfault⟩
  · rw [heq, h.bound]
    cases scope.library.modifier scope.options name with
    | error fault => exact .throw
    | ok symbol =>
      exact (mirrors_modifierArguments hscope h inBranch _).seq fun arguments => .refl _
  · rw [herror]
    exact .refused hfault

theorem mirrors_modifiers (hscope : scope.Narrows faults scope') (h : inner.Mirrors faults inner')
    (inBranch : Bool) (bound : Nat) (value : Expr) :
    Mirrors faults Eq (modifiers scope inner inBranch bound value)
      (modifiers scope' inner' inBranch bound value) := by
  induction bound generalizing value with
  | zero => exact .refl _
  | succ bound ih =>
    unfold modifiers
    refine .step fun found => .ite (fun _ => ?_) fun _ => .refl _
    exact (mirrors_modifier hscope h inBranch value).seq fun e => ih e

theorem mirrors_operand (hscope : scope.Narrows faults scope') (h : inner.Mirrors faults inner')
    (inBranch : Bool) (bound : Nat) :
    Mirrors faults Eq (operand scope inner inBranch bound)
      (operand scope' inner' inBranch bound) := by
  induction bound with
  | zero => exact .refl _
  | succ bound ih =>
    unfold operand
    refine .step fun op => ?_
    cases op with
    | some op => exact ih.seq fun e => .refl _
    | none =>
      refine .step fun sign => ?_
      cases sign with
      | some sign => exact (mirrors_targetWith hscope h).seq fun place => .refl _
      | none =>
        dsimp only
        rw [h.bound]
        exact (mirrors_term hscope h).seq fun value => mirrors_modifiers hscope h inBranch _ value

theorem mirrors_climb {next next' : Reading Expr} (h : Mirrors faults Eq next next')
    (bound least : Nat) (left : Expr) :
    Mirrors faults Eq (climb next bound least left) (climb next' bound least left) := by
  induction bound generalizing least left with
  | zero => exact .refl _
  | succ bound ih =>
    unfold climb
    refine .step fun c => ?_
    cases binaryOperator? c least with
    | none => exact .refl _
    | some found =>
      refine .step fun _ => h.seq fun first => ?_
      exact (ih _ first).seq fun right => ih _ _

theorem mirrors_operation (hscope : scope.Narrows faults scope')
    (h : inner.Mirrors faults inner') (inBranch : Bool) :
    Mirrors faults Eq (operation scope inner inBranch) (operation scope' inner' inBranch) := by
  have hnext : Mirrors faults Eq (operandHere scope inner inBranch)
      (operandHere scope' inner' inBranch) := by
    unfold operandHere
    rw [h.bound]
    exact mirrors_operand hscope h inBranch _
  unfold operation
  rw [h.bound]
  exact hnext.seq fun first => mirrors_climb hnext _ _ _

theorem mirrors_expressionWithin (hscope : scope.Narrows faults scope') (depth : Nat)
    (inBranch : Bool) :
    Mirrors faults Eq (expressionWithin scope depth inBranch)
      (expressionWithin scope' depth inBranch) := by
  induction depth generalizing inBranch with
  | zero => exact .refl _
  | succ depth ih =>
    unfold expressionWithin choice
    have hinner : Inner.Mirrors faults ⟨expressionWithin scope depth false, depth + 1⟩
        ⟨expressionWithin scope' depth false, depth + 1⟩ := ⟨ih false, rfl⟩
    refine (mirrors_operation hscope hinner inBranch).seq fun condition => ?_
    refine .step fun question => .ite (fun _ => ?_) fun _ => .refl _
    refine .step fun short => .ite (fun _ => ?_) fun _ => ?_
    · exact (ih inBranch).seq fun otherwise => .refl _
    · exact (ih true).seq fun yes => .step fun _ => (ih inBranch).seq fun no => .refl _

theorem mirrors_expression (hscope : scope.Narrows faults scope') :
    Mirrors faults Eq (expression scope) (expression scope') := by
  unfold expression
  exact .step fun depth => mirrors_expressionWithin hscope depth false

theorem mirrors_target (hscope : scope.Narrows faults scope') :
    Mirrors faults Eq (target scope) (target scope') := by
  unfold target
  exact .step fun bound =>
    mirrors_targetWith hscope ⟨mirrors_expressionWithin hscope bound false, rfl⟩

theorem mirrors_paramsFrom (hscope : scope.Narrows faults scope') (positional : Bool)
    (bound : Nat) :
    Mirrors faults Eq (paramsFrom scope positional bound) (paramsFrom scope' positional bound) := by
  induction bound with
  | zero => exact .refl _
  | succ bound ih =>
    unfold paramsFrom
    have hexpression := mirrors_expression hscope
    have hmore (first : Param) := ih.seq (S := Eq) (f := fun more => pure (first :: more))
      fun _ => .refl _
    refine .step fun c => .ite (fun _ => .refl _) fun _ => ?_
    refine .ite (fun _ => ?_) fun _ => .ite (fun _ => ?_) fun _ => ?_
    · exact .step fun name => .step fun _ => hexpression.map.seq hmore
    · exact hexpression.map.seq hmore
    · exact .step hmore

theorem mirrors_params (hscope : scope.Narrows faults scope') (positional : Bool) :
    Mirrors faults Eq (params scope positional) (params scope' positional) := by
  unfold params
  exact .step fun bound => mirrors_paramsFrom hscope positional bound

end Grammar

end Stencil
