import Stencil.Proofs.Lawful

/-!
# Trees of expressions

The form that the code of an expression is read back as, whatever symbols its modifiers run. Of such
a form two things are looked at: the strings in it, from left to right, and its shape, which is what
is left when the contents of strings, numbers and names are forgotten.
-/

namespace Stencil

open Form (isAtom isAtomPart spells_atom spells_encode spells_form spells_formAll)

namespace Form

/-! ## Strings and shapes -/

mutual

/-- The strings in a form, from left to right. -/
@[simp] def strings : Form → List Text
  | .atom _ => []
  | .string value => [value]
  | .list items => allStrings items

@[simp] def allStrings : List Form → List Text
  | [] => []
  | f :: more => f.strings ++ allStrings more

end

/-- Puts the first atom of a list back in its place. -/
@[simp] def keepHead : List Form → List Form → List Form
  | .atom head :: _, _ :: more => .atom head :: more
  | _, shapes => shapes

mutual

/--
A form without the contents of its strings and atoms. An atom that a list starts with says what the
list is for, and is kept.
-/
@[simp] def shape : Form → Form
  | .atom _ => .atom []
  | .string _ => .string []
  | .list items => .list (keepHead items (shapes items))

@[simp] def shapes : List Form → List Form
  | [] => []
  | f :: more => f.shape :: shapes more

end

theorem allStrings_append (fs gs : List Form) :
    allStrings (fs ++ gs) = allStrings fs ++ allStrings gs := by
  induction fs with
  | nil => rfl
  | cons f fs ih => simp [ih]

theorem shapes_append (fs gs : List Form) : shapes (fs ++ gs) = shapes fs ++ shapes gs := by
  induction fs with
  | nil => rfl
  | cons f fs ih => simp [ih]

theorem allStrings_ofSymbol (symbol : Text) : allStrings (ofSymbol symbol) = [] := by
  unfold ofSymbol
  split <;> rfl

/-- No white space, no parentheses, and no double quote in front. -/
def IsBare (t : Text) : Prop := t.all isAtomPart = true ∧ t.head? ≠ some '"'

instance : DecidablePred IsBare := fun _ => inferInstanceAs (Decidable (_ ∧ _))

theorem IsBare.spellsAll {t : Text} (h : IsBare t) : SpellsAll t (ofSymbol t) := by
  cases t with
  | nil => exact spellsAll_ofSymbol (absurd rfl)
  | cons c t =>
    obtain ⟨hparts, hquote⟩ := h
    refine spellsAll_ofSymbol fun _ => ?_
    have hfirst : c ≠ '"' := by simpa using hquote
    simpa [isAtom, hfirst] using hparts

end Form

/-- Whatever a modifier is registered with can stand in a script. -/
def Library.Bare (l : Library) : Prop := ∀ entry ∈ l.modifiers, Form.IsBare entry.2

theorem Library.Bare.of_modifier {l : Library} {options : Options} {name symbol : Text}
    (hl : l.Bare) (hname : isAtom name = true) (h : l.modifier options name = .ok symbol) :
    Form.SpellsAll symbol (Form.ofSymbol symbol) := by
  rcases Library.of_modifier h with hlookup | ⟨rfl, -⟩
  · obtain ⟨before, after, hsplit, -⟩ := List.lookup_eq_some_iff.mp hlookup
    exact (hl (name, symbol) (by rw [hsplit]; simp)).spellsAll
  · exact spellsAll_ofSymbol fun _ => hname

namespace Expr

/-! ## Trees -/

mutual

/-- The form that the code of an expression is read as. A modifier's empty symbol leaves nothing. -/
@[simp] def tree : Expr → Form
  | .number text | .constant text => .atom text
  | .string value => .string value
  | .variable name => .list [.atom "var", .atom name]
  | .member base name => .list [.atom "get", base.tree, .string name]
  | .item base digits => .list [.atom "get", base.tree, .atom digits]
  | .selected base name => .list [.atom "get", base.tree, .list [.atom "var", .atom name]]
  | .index base key => .list [.atom "get", base.tree, key.tree]
  | .property base name => .list [.atom "prop", base.tree, .string name]
  | .method base name arguments =>
    .list (.atom "method" :: base.tree :: .string name :: trees arguments)
  | .call name arguments => .list (.atom "fn" :: .atom name :: trees arguments)
  | .list items => .list (.atom "list" :: trees items)
  | .unary operator operand => .list [.atom operator, operand.tree]
  | .count way target => .list [.atom way.head, target.tree]
  | .binary operator left right => .list [.atom operator, left.tree, right.tree]
  | .modified _ symbol value arguments =>
    .list (.atom "mod" :: (Form.ofSymbol symbol ++ value.tree :: trees arguments))
  | .choice condition yes no => .list [.atom "?", condition.tree, yes.tree, no.tree]
  | .fallback value otherwise => .list [.atom "?:", value.tree, otherwise.tree]

@[simp] def trees : List Expr → List Form
  | [] => []
  | e :: more => e.tree :: trees more

end

variable {scope : Scope}

mutual

theorem spells_tree (hscope : scope.library.Bare) :
    ∀ (e : Expr), e.Licensed scope → Form.Spells e.spelling e.tree
  | .number _, h | .constant _, h => spells_atom h
  | .string value, _ => spells_encode value
  | .variable _, h => spells_form (by decide) (.cons (spells_atom h) .nil)
  | .member base name, h | .property base name, h =>
    spells_form (by decide) (.cons (spells_tree hscope base h) (.cons (spells_encode name) .nil))
  | .item base _, h =>
    spells_form (by decide) (.cons (spells_tree hscope base h.2) (.cons (spells_atom h.1) .nil))
  | .selected base _, h =>
    spells_form (by decide) (.cons (spells_tree hscope base h.2)
      (.cons (spells_form (by decide) (.cons (spells_atom h.1) .nil)) .nil))
  | .index left right, h | .fallback left right, h =>
    spells_form (by decide)
      (.cons (spells_tree hscope left h.1) (.cons (spells_tree hscope right h.2) .nil))
  | .method base name arguments, h =>
    spells_form (by decide) (.cons (spells_tree hscope base h.2.1)
      (.cons (spells_encode name) (spells_trees hscope arguments h.2.2)))
  | .call _ arguments, h =>
    spells_form (by decide) (.cons (spells_atom h.1) (spells_trees hscope arguments h.2.2))
  | .list items, h => spells_form (by decide) (spells_trees hscope items h)
  | .unary _ operand, h =>
    spells_form (isAtom_of_mem_operators h.1) (.cons (spells_tree hscope operand h.2) .nil)
  | .count way target, h =>
    spells_form (by cases way <;> decide) (.cons (spells_tree hscope target h) .nil)
  | .binary _ left right, h =>
    spells_form (isAtom_of_mem_operators h.1)
      (.cons (spells_tree hscope left h.2.1) (.cons (spells_tree hscope right h.2.2) .nil))
  | .modified name symbol value arguments, h => by
    obtain ⟨hname, hmodifier, hvalue, harguments⟩ := h
    have hparts := List.Forall₂.cons (spells_tree hscope value hvalue)
      (spells_trees hscope arguments harguments)
    have hhead : isAtom "mod" = true := by decide
    have hform := spells_formAll hhead
      (.cons (hscope.of_modifier hname hmodifier) (Form.spellsAll_of_spells hparts))
    rwa [List.flatten_cons, ← List.flatMap_def, List.flatMap_singleton'] at hform
  | .choice condition yes no, h =>
    spells_form (by decide) (.cons (spells_tree hscope condition h.1)
      (.cons (spells_tree hscope yes h.2.1) (.cons (spells_tree hscope no h.2.2) .nil)))

theorem spells_trees (hscope : scope.library.Bare) : ∀ (es : List Expr), AllLicensed scope es →
    List.Forall₂ Form.Spells (spellings es) (trees es)
  | [], _ => .nil
  | e :: more, h => .cons (spells_tree hscope e h.1) (spells_trees hscope more h.2)

end

theorem spells_code_tree (hscope : scope.library.Bare) {e : Expr} (h : e.Licensed scope) :
    Form.Spells e.code e.tree := by
  rw [code_eq_spelling]
  exact spells_tree hscope e h

end Expr

end Stencil
