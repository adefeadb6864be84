import Stencil.Proofs.Steps

/-!
# Readers go forward

A reader moves over tokens and leaves them as they are. Where it fails it has passed some of them
as well, and a report of an unexpected token is about the one it stands on.
-/

namespace Stencil

open Grammar Reading

/-! ## Places -/

namespace Cursor

/-- The cursor `c'` stands among the same tokens as `c`, at the same place or further on. -/
def Onward (c c' : Cursor) : Prop :=
  ∃ passed, c.ahead = passed ++ c'.ahead ∧ c'.behind = passed.reverse ++ c.behind ∧
    c'.endLine = c.endLine

namespace Onward

variable {c c' c'' : Cursor}

theorem refl (c : Cursor) : c.Onward c := ⟨[], rfl, rfl, rfl⟩

theorem trans (h : c.Onward c') (h' : c'.Onward c'') : c.Onward c'' := by
  obtain ⟨passed, hahead, hbehind, hline⟩ := h
  obtain ⟨passed', hahead', hbehind', hline'⟩ := h'
  refine ⟨passed ++ passed', ?_, ?_, hline'.trans hline⟩
  · rw [hahead, hahead', List.append_assoc]
  · rw [hbehind', hbehind, List.reverse_append, List.append_assoc]

theorem advance (c : Cursor) : c.Onward c.advance := by
  rcases c with ⟨behind, _ | ⟨t, ahead⟩, endLine⟩
  · exact refl _
  · exact ⟨[t], rfl, rfl, rfl⟩

theorem collect (c : Cursor) (stops : List Want) : c.Onward (c.collect stops).2 :=
  ⟨c.ahead.takeWhile (!·.fits stops), List.takeWhile_append_dropWhile.symm, rfl, rfl⟩

end Onward

end Cursor

/-- A report of an unexpected token is about the token at the cursor; other faults know no line. -/
def Fault.At (c : Cursor) : Fault → Prop
  | .unexpected report => report.found = c.current?.map Token.text ∧ report.line = c.line
  | fault => fault.line? = none

theorem Fault.at_of_line? {fault : Fault} (h : fault.line? = none) (c : Cursor) : fault.At c := by
  cases fault with
  | unexpected report => cases h
  | _ => exact h

/-! ## Readers -/

/-- What came of reading at `c` is further on. -/
def Goes {α : Type} (c : Cursor) : EStateM.Result Fault Cursor α → Prop
  | .ok _ c' => c.Onward c'
  | .error fault c' => c.Onward c' ∧ fault.At c'

def Forward {α : Type} (read : Reading α) : Prop := ∀ c, Goes c (read c)

namespace Forward

variable {α β : Type} {read : Reading α}

theorem ok (h : Forward read) {c c' : Cursor} {a : α} (hrun : read c = .ok a c') :
    c.Onward c' := by
  have hgoes := h c
  rwa [hrun] at hgoes

theorem error (h : Forward read) {c c' : Cursor} {fault : Fault}
    (hrun : read c = .error fault c') : c.Onward c' ∧ fault.At c' := by
  have hgoes := h c
  rwa [hrun] at hgoes

theorem pure (a : α) : Forward (pure a) := fun c => .refl c

theorem bind {f : α → Reading β} (h : Forward read) (hf : ∀ a, Forward (f a)) :
    Forward (read >>= f) := by
  intro c
  cases hread : read c with
  | ok a c' =>
    rw [bind_of_ok hread]
    have hpassed := h.ok hread
    cases hrest : f a c' with
    | ok b c'' => exact hpassed.trans ((hf a).ok hrest)
    | error fault c'' =>
      obtain ⟨hmore, hat⟩ := (hf a).error hrest
      exact ⟨hpassed.trans hmore, hat⟩
  | error fault c' =>
    rw [bind_of_error hread]
    exact h.error hread

theorem map {f : α → β} (h : Forward read) : Forward (f <$> read) := by
  rw [map_eq_pure_bind]
  exact h.bind fun a => pure _

theorem refuse (wants : List Want) : Forward (refuse wants : Reading α) :=
  fun c => ⟨.refl c, rfl, rfl⟩

theorem throw {fault : Fault} (h : fault.line? = none) : Forward (throw fault : Reading α) :=
  fun c => ⟨.refl c, fault.at_of_line? h c⟩

theorem get : Forward get := fun c => .refl c

theorem remaining : Forward remaining := fun c => .refl c

theorem sees (wants : List Want) : Forward (sees wants) := fun c => .refl c

theorem advance : Forward advance := fun c => .advance c

theorem skip (wants : List Want) : Forward (skip wants) := by
  intro c
  unfold Reading.skip
  split
  · exact .advance c
  · exact .refl c

theorem need (wants : List Want) : Forward (need wants) := by
  intro c
  unfold Reading.need
  split
  · split
    · exact .refl c
    · exact Forward.refuse wants c
  · exact Forward.refuse wants c

theorem take (wants : List Want) : Forward (take wants) := by
  unfold Reading.take
  exact (need wants).bind fun t => advance.bind fun _ => pure _

theorem discard (wants : List Want) : Forward (discard (Reading.take wants)) := (take wants).map

theorem takeAny : Forward takeAny := by
  intro c
  unfold Reading.takeAny
  split
  · exact .advance c
  · exact Forward.refuse [] c

theorem takeWord (word : Text) : Forward (takeWord word) := by
  intro c
  unfold Reading.takeWord
  split
  · split
    · exact .advance c
    · exact ⟨.refl c, rfl, rfl⟩
  · exact ⟨.refl c, rfl, rfl⟩

theorem collect (stops : List Want) : Forward (collect stops) := fun c => .collect c stops

theorem takeOperator (role : Role) : Forward (takeOperator? role) := by
  intro c
  unfold Reading.takeOperator?
  split
  · exact .advance c
  · exact .refl c

theorem orThrow {p : Prop} [Decidable p] {fault : Fault} {f : PUnit → Reading α}
    (hfault : fault.line? = none) (h : Forward read) :
    Forward (if p then read else MonadExcept.throw fault >>= f) := by
  split
  · exact h
  · exact fun c => ⟨.refl c, fault.at_of_line? hfault c⟩

theorem guard {p : Prop} [Decidable p] {fault : Fault} {f : PUnit → Reading α}
    (hfault : fault.line? = none) (h : Forward read) :
    Forward (if p then MonadExcept.throw fault >>= f else read) := by
  split
  · exact fun c => ⟨.refl c, fault.at_of_line? hfault c⟩
  · exact h

end Forward

/-! ## Expressions -/

section Expressions

variable {scope : Scope} {inner : Inner}

theorem forward_argumentsFrom (h : Forward inner.read) (bound : Nat) :
    Forward (argumentsFrom inner bound) := by
  induction bound with
  | zero => exact .refuse _
  | succ bound ih =>
    unfold argumentsFrom
    refine h.bind fun first => (Forward.skip _).bind fun found => ?_
    split
    · exact .pure _
    · exact (Forward.discard _).bind fun _ => ih.bind fun _ => .pure _

theorem forward_arguments (h : Forward inner.read) : Forward (arguments inner) := by
  unfold arguments
  refine (Forward.discard _).bind fun _ => (Forward.skip _).bind fun found => ?_
  split
  · exact .pure _
  · exact forward_argumentsFrom h _

theorem forward_itemsFrom (h : Forward inner.read) (bound : Nat) :
    Forward (itemsFrom inner bound) := by
  induction bound with
  | zero => exact .refuse _
  | succ bound ih =>
    unfold itemsFrom
    refine (Forward.skip _).bind fun closed => ?_
    split
    · exact .pure _
    · refine h.bind fun first => (Forward.sees _).bind fun last => ?_
      have hrest := ih.bind fun more => Forward.pure (first :: more)
      dsimp only
      split
      · exact hrest
      · exact (Forward.discard _).bind fun _ => hrest

theorem forward_items (h : Forward inner.read) : Forward (items inner) := by
  unfold items
  exact (Forward.discard _).bind fun _ => forward_itemsFrom h _

theorem forward_dotted (base : Expr) : Forward (dotted base) := by
  intro c
  unfold dotted
  split
  · split
    · exact .advance c
    · exact .advance c
    · exact .advance c
    · exact Forward.refuse _ c
  · exact Forward.refuse _ c

theorem forward_arrowed (h : Forward inner.read) (base : Expr) :
    Forward (arrowed scope inner base) := by
  unfold arrowed
  refine (Forward.take _).bind fun name => (Forward.sees _).bind fun called => ?_
  dsimp only
  split
  · exact .guard rfl ((forward_arguments h).bind fun _ => .pure _)
  · exact .pure _

theorem forward_accesses (h : Forward inner.read) (bound : Nat) (base : Expr) :
    Forward (accesses scope inner bound base) := by
  induction bound generalizing base with
  | zero => exact .pure _
  | succ bound ih =>
    unfold accesses
    refine (Forward.skip _).bind fun point => ?_
    split
    · exact (forward_dotted base).bind ih
    refine (Forward.skip _).bind fun bracket => ?_
    split
    · exact h.bind fun key => (Forward.discard _).bind fun _ => ih _
    refine (Forward.skip _).bind fun arrow => ?_
    split
    · exact (forward_arrowed h base).bind ih
    · exact .pure _

theorem forward_loopVariable : Forward loopVariable := by
  unfold loopVariable
  exact (Forward.need _).bind fun t => Forward.advance.bind fun _ => .pure _

theorem forward_targetWith (h : Forward inner.read) : Forward (targetWith scope inner) := by
  unfold targetWith
  exact forward_loopVariable.bind fun name => forward_accesses h _ _

theorem forward_counted (h : Forward inner.read) : Forward (counted scope inner) := by
  unfold counted
  refine (forward_targetWith h).bind fun place => (Forward.takeOperator _).bind fun op => ?_
  split <;> exact .pure _

theorem forward_call (h : Forward inner.read) : Forward (call scope inner) := by
  unfold call
  refine (Forward.take _).bind fun name => ?_
  exact .orThrow rfl ((forward_arguments h).bind fun _ => .pure _)

theorem forward_parenthesised (h : Forward inner.read) : Forward (parenthesised inner) := by
  unfold parenthesised
  exact Forward.advance.bind fun _ => h.bind fun e => (Forward.discard _).bind fun _ => .pure _

theorem forward_word (h : Forward inner.read) (t : Token) : Forward (word scope inner t) := by
  intro c
  unfold word
  split
  · exact .advance c
  · split
    · exact forward_call h c
    · exact Forward.refuse _ c

theorem forward_term (h : Forward inner.read) : Forward (term scope inner) := by
  intro c
  unfold term
  split
  · split
    · exact .advance c
    · exact .advance c
    · exact .advance c
    · exact forward_counted h c
    · exact forward_word h _ c
    · exact forward_parenthesised h c
    · exact (forward_items h).map c
    · exact Forward.refuse _ c
  · exact Forward.refuse _ c

theorem forward_modifierArgument (h : Forward inner.read) :
    Forward (modifierArgument scope inner) := by
  unfold modifierArgument
  refine (Forward.takeOperator _).bind fun op => ?_
  split
  · exact (forward_term h).bind fun _ => .pure _
  · exact forward_term h

theorem forward_modifierArguments (h : Forward inner.read) (inBranch : Bool) (bound : Nat) :
    Forward (modifierArguments scope inner inBranch bound) := by
  induction bound with
  | zero => exact .pure _
  | succ bound ih =>
    unfold modifierArguments
    refine Forward.get.bind fun c => (Forward.sees _).bind fun colon => ?_
    split
    · exact .pure _
    refine (Forward.skip _).bind fun found => ?_
    split
    · exact (forward_modifierArgument h).bind fun first => ih.bind fun _ => .pure _
    · exact .pure _

theorem line?_of_modifier {l : Library} {options : Options} {name : Text} {fault : Fault}
    (h : l.modifier options name = .error fault) : fault.line? = none := by
  unfold Library.modifier at h
  split at h
  · cases h
  · split at h
    · split at h <;> cases h
      rfl
    · cases h
      rfl

theorem forward_modifier (h : Forward inner.read) (inBranch : Bool) (value : Expr) :
    Forward (modifier scope inner inBranch value) := by
  unfold modifier
  refine (Forward.take _).bind fun name => ?_
  split
  · rename_i fault hfault
    exact .throw (line?_of_modifier hfault)
  · exact (forward_modifierArguments h inBranch _).bind fun _ => .pure _

theorem forward_modifiers (h : Forward inner.read) (inBranch : Bool) (bound : Nat) (value : Expr) :
    Forward (modifiers scope inner inBranch bound value) := by
  induction bound generalizing value with
  | zero => exact .pure _
  | succ bound ih =>
    unfold modifiers
    refine (Forward.skip _).bind fun bar => ?_
    split
    · exact (forward_modifier h inBranch value).bind ih
    · exact .pure _

theorem forward_operand (h : Forward inner.read) (inBranch : Bool) (bound : Nat) :
    Forward (operand scope inner inBranch bound) := by
  induction bound with
  | zero => exact .refuse _
  | succ bound ih =>
    unfold operand
    refine (Forward.takeOperator _).bind fun sign => ?_
    split
    · exact ih.bind fun _ => .pure _
    refine (Forward.takeOperator _).bind fun step => ?_
    split
    · exact (forward_targetWith h).bind fun _ => .pure _
    · exact (forward_term h).bind fun value => forward_modifiers h inBranch _ value

theorem forward_climb {next : Reading Expr} (h : Forward next) (bound least : Nat) (left : Expr) :
    Forward (climb next bound least left) := by
  induction bound generalizing least left with
  | zero => exact .pure _
  | succ bound ih =>
    unfold climb
    refine Forward.get.bind fun c => ?_
    split
    · exact .pure _
    · refine Forward.advance.bind fun _ => h.bind fun first => ?_
      exact (ih _ first).bind fun right => ih _ _

theorem forward_operation (h : Forward inner.read) (inBranch : Bool) :
    Forward (operation scope inner inBranch) := by
  unfold operation
  exact (forward_operand h inBranch _).bind fun first =>
    forward_climb (forward_operand h inBranch _) _ _ first

theorem forward_choiceRest {inner : Bool → Reading Expr} (h : ∀ inBranch, Forward (inner inBranch))
    (inBranch : Bool) (condition : Expr) :
    Forward (do
      unless ← skip (mark "?") do return condition
      if ← skip (mark ":") then return .fallback condition (← inner inBranch)
      let yes ← inner true
      discard <| take (mark ":")
      return .choice condition yes (← inner inBranch)) := by
  refine (Forward.skip _).bind fun mark => ?_
  split
  · refine (Forward.skip _).bind fun short => ?_
    split
    · exact (h inBranch).bind fun _ => .pure _
    · refine (h true).bind fun yes => (Forward.discard _).bind fun _ => ?_
      exact (h inBranch).bind fun _ => .pure _
  · exact .pure _

theorem forward_choice {inner : Bool → Reading Expr} (h : ∀ inBranch, Forward (inner inBranch))
    (bound : Nat) (inBranch : Bool) : Forward (choice scope inner bound inBranch) := by
  unfold choice
  exact (forward_operation (h false) inBranch).bind (forward_choiceRest h inBranch)

theorem forward_expressionWithin (scope : Scope) (depth : Nat) (inBranch : Bool) :
    Forward (expressionWithin scope depth inBranch) := by
  induction depth generalizing inBranch with
  | zero => exact .refuse _
  | succ depth ih =>
    unfold expressionWithin
    exact forward_choice ih _ inBranch

theorem forward_expression (scope : Scope) : Forward (expression scope) := by
  unfold expression
  exact Forward.remaining.bind fun n => forward_expressionWithin scope n false

theorem forward_target (scope : Scope) : Forward (target scope) := by
  unfold target
  exact Forward.remaining.bind fun bound =>
    forward_targetWith (forward_expressionWithin scope bound false)

theorem forward_paramsFrom (positional : Bool) (bound : Nat) :
    Forward (paramsFrom scope positional bound) := by
  induction bound with
  | zero => exact .pure _
  | succ bound ih =>
    unfold paramsFrom
    refine Forward.get.bind fun c => ?_
    dsimp only
    split
    · exact .pure _
    have hrest (first : Param) : Forward (do
        return first :: (← paramsFrom scope positional bound)) := ih.bind fun _ => .pure _
    split
    · exact Forward.takeAny.bind fun name => Forward.advance.bind fun _ =>
        (forward_expression scope).map.bind hrest
    · split
      · exact (forward_expression scope).map.bind hrest
      · exact (Forward.refuse _).bind hrest

theorem forward_params (positional : Bool) : Forward (params scope positional) := by
  unfold params
  exact Forward.remaining.bind fun bound => forward_paramsFrom positional bound

end Expressions

end Stencil
