import Stencil.Proofs.Lexed
import Stencil.Proofs.Steps

/-!
# What readers give

`Gives` says what holds of all that a reader can give, where the tokens come from the lexer. Every
expression that is read has code that can be read back.
-/

namespace Stencil

open Form (isAtom)
open Grammar Reading

/-- Whatever the reader gives has the property, and the tokens still come from the lexer. -/
def Gives {α : Type} (read : Reading α) (P : α → Prop) : Prop :=
  ∀ c a c', c.Lexed → read c = .ok a c' → P a ∧ c'.Lexed

namespace Gives

variable {α β : Type} {read : Reading α} {P Q : α → Prop} {R : β → Prop}

theorem mono (h : Gives read P) (hPQ : ∀ a, P a → Q a) : Gives read Q := by
  intro c a c' hc heq
  obtain ⟨ha, hc'⟩ := h c a c' hc heq
  exact ⟨hPQ a ha, hc'⟩

theorem pure {a : α} (h : P a) : Gives (pure a) P := by
  intro c b c' hc heq
  cases heq
  exact ⟨h, hc⟩

theorem bind {f : α → Reading β} (h : Gives read P) (hf : ∀ a, P a → Gives (f a) R) :
    Gives (read >>= f) R := by
  intro c b c'' hc heq
  obtain ⟨a, c', hread, hrest⟩ := bind_eq_ok heq
  obtain ⟨ha, hc'⟩ := h c a c' hc hread
  exact hf a ha c' b c'' hc' hrest

theorem seq {f : α → Reading β} (h : Gives read P) (hf : ∀ a, Gives (f a) R) :
    Gives (read >>= f) R :=
  h.bind fun a _ => hf a

theorem map {f : α → β} (h : Gives read fun a => R (f a)) : Gives (f <$> read) R := by
  rw [map_eq_pure_bind]
  exact h.bind fun a ha => pure ha

theorem refuse (wants : List Want) : Gives (refuse wants : Reading α) P := by
  intro c a c' _ heq
  cases heq

theorem throw (fault : Fault) : Gives (throw fault : Reading α) P := by
  intro c a c' _ heq
  cases heq

theorem get : Gives get fun c => c.Lexed := by
  intro c a c' hc heq
  cases heq
  exact ⟨hc, hc⟩

theorem remaining : Gives remaining fun _ => True := by
  intro c a c' hc heq
  cases heq
  exact ⟨trivial, hc⟩

theorem advance : Gives advance fun _ => True := by
  intro c a c' hc heq
  cases heq
  exact ⟨trivial, hc.advance⟩

theorem sees (wants : List Want) : Gives (sees wants) fun _ => True := by
  intro c a c' hc heq
  cases heq
  exact ⟨trivial, hc⟩

theorem skip (wants : List Want) : Gives (skip wants) fun _ => True := by
  intro c a c' hc heq
  unfold Reading.skip at heq
  split at heq <;> cases heq
  · exact ⟨trivial, hc.advance⟩
  · exact ⟨trivial, hc⟩

theorem need (wants : List Want) : Gives (need wants) fun t => t.Lexed ∧ t.fits wants = true := by
  intro c a c' hc heq
  unfold Reading.need at heq
  split at heq
  · rename_i t ht
    split at heq
    · rename_i hfits
      cases heq
      exact ⟨⟨hc.current ht, hfits⟩, hc⟩
    · cases heq
  · cases heq

theorem take (wants : List Want) :
    Gives (take wants) fun text => ∃ t : Token, t.Lexed ∧ t.fits wants = true ∧ t.text = text := by
  unfold Reading.take
  refine (need wants).bind fun t ht => ?_
  exact advance.seq fun _ => pure ⟨t, ht.1, ht.2, rfl⟩

theorem discard (wants : List Want) : Gives (discard (Reading.take wants)) fun _ => True :=
  map ((take wants).mono fun _ _ => trivial)

theorem takeName : Gives (Reading.take [.kind .name]) fun text => isAtom text = true := by
  refine (take _).mono ?_
  rintro text ⟨t, ht, hfits, rfl⟩
  have hkind : t.kind = .name := by simpa [Token.fits, Want.accepts] using hfits
  simpa [Token.Lexed, hkind] using ht

theorem mem_roles_of_operatorOf {role : Role} {k : Option Kind} {s : Text}
    (h : operatorOf role k = some s) : role ∈ Symbol.roles s := by
  unfold operatorOf at h
  split at h
  · split at h
    · rename_i hrole
      cases h
      exact hrole
    · cases h
  · cases h

theorem takeOperator (role : Role) :
    Gives (takeOperator? role) fun op => ∀ s ∈ op, role ∈ Symbol.roles s := by
  intro c a c' hc heq
  unfold Reading.takeOperator? at heq
  rw [operator?_eq] at heq
  split at heq
  · rename_i s hs
    cases heq
    refine ⟨?_, hc.advance⟩
    rintro x ⟨⟩
    exact mem_roles_of_operatorOf hs
  · cases heq
    exact ⟨by simp, hc⟩

theorem guard {α : Type} {read : Reading α} {P : α → Prop} {c : Prop} [Decidable c] {fault : Fault}
    {f : PUnit → Reading α} (h : ¬ c → Gives read P) :
    Gives (if c then MonadExcept.throw fault >>= f else read) P := by
  split
  · intro c a c' _ heq
    cases heq
  · rename_i hc
    exact h hc

theorem orThrow {α : Type} {read : Reading α} {P : α → Prop} {c : Prop} [Decidable c] {fault : Fault}
    {f : PUnit → Reading α} (h : c → Gives read P) :
    Gives (if c then read else MonadExcept.throw fault >>= f) P := by
  split
  · rename_i hc
    exact h hc
  · intro c a c' _ heq
    cases heq

end Gives

/-! ## Operators -/

/-- All spellings that have a role. -/
def roleSpellings : List Text :=
  [['-'], ['!'], ['~'], ['+', '+'], ['-', '-'], ['|']] ++ Symbol.arithmetic ++ Symbol.comparisons ++
    Symbol.connectives ++ Symbol.assignments

theorem mem_roleSpellings {s : Text} {role : Role} (h : role ∈ Symbol.roles s) :
    s ∈ roleSpellings := by
  unfold Symbol.roles at h
  simp only [roleSpellings, List.mem_append, List.mem_cons]
  split_ifs at h <;> grind

/-- All operators that the form of an expression can start with. The point comes from `.=`. -/
def operators : List Text := ['.'] :: roleSpellings

theorem mem_operators {s : Text} {role : Role} (h : role ∈ Symbol.roles s) : s ∈ operators :=
  List.mem_cons_of_mem _ (mem_roleSpellings h)

theorem isAtom_of_mem_operators {s : Text} (h : s ∈ operators) : isAtom s = true := by
  have hall : ∀ s ∈ operators, isAtom s = true := by decide
  exact hall s h

/-! ## Expressions -/

namespace Expr

mutual

/--
What the grammar lets through: names and numbers are atoms, operators are those of the language, and
methods, calls and modifiers are the ones that the scope allows.
-/
def Licensed (scope : Scope) : Expr → Prop
  | .number text | .constant text | .variable text => isAtom text = true
  | .string _ => True
  | .member base _ | .property base _ | .count _ base => base.Licensed scope
  | .item base text | .selected base text => isAtom text = true ∧ base.Licensed scope
  | .unary operator operand => operator ∈ operators ∧ operand.Licensed scope
  | .index left right | .fallback left right => left.Licensed scope ∧ right.Licensed scope
  | .binary operator left right =>
    operator ∈ operators ∧ left.Licensed scope ∧ right.Licensed scope
  | .method base _ arguments =>
    scope.options.has .denyMethods = false ∧ base.Licensed scope ∧ AllLicensed scope arguments
  | .call name arguments =>
    isAtom name = true ∧ scope.library.permits scope.options name = true ∧
      AllLicensed scope arguments
  | .list items => AllLicensed scope items
  | .modified name symbol value arguments =>
    isAtom name = true ∧ scope.library.modifier scope.options name = .ok symbol ∧
      value.Licensed scope ∧ AllLicensed scope arguments
  | .choice condition yes no =>
    condition.Licensed scope ∧ yes.Licensed scope ∧ no.Licensed scope

def AllLicensed (scope : Scope) : List Expr → Prop
  | [] => True
  | e :: more => e.Licensed scope ∧ AllLicensed scope more

end

end Expr

/-- Modifiers run symbols that are atoms. -/
def Scope.Clean (scope : Scope) : Prop :=
  ∀ name symbol, isAtom name = true → scope.library.modifier scope.options name = .ok symbol →
    isAtom symbol = true

theorem Scope.clean_standard (options : Options) : Scope.Clean ⟨Library.standard, options⟩ := by
  intro name symbol hname h
  have hall : ∀ entry ∈ Library.standard.modifiers, isAtom entry.2 = true := by decide
  unfold Library.modifier at h
  split at h
  · rename_i found hlookup
    cases h
    obtain ⟨before, after, heq, -⟩ := List.lookup_eq_some_iff.mp hlookup
    exact hall (name, symbol) (by rw [heq]; simp)
  · split at h
    · split at h <;> cases h
      exact hname
    · cases h

namespace Expr

variable {scope : Scope}

mutual

theorem clean_of_licensed (hscope : scope.Clean) : ∀ (e : Expr), e.Licensed scope → e.Clean
  | .number _, h | .constant _, h | .variable _, h => h
  | .string _, _ => trivial
  | .member base _, h | .property base _, h | .count _ base, h => clean_of_licensed hscope base h
  | .item base _, h | .selected base _, h => ⟨h.1, clean_of_licensed hscope base h.2⟩
  | .unary _ operand, h =>
    ⟨isAtom_of_mem_operators h.1, clean_of_licensed hscope operand h.2⟩
  | .index left right, h | .fallback left right, h =>
    ⟨clean_of_licensed hscope left h.1, clean_of_licensed hscope right h.2⟩
  | .binary _ left right, h =>
    ⟨isAtom_of_mem_operators h.1, clean_of_licensed hscope left h.2.1,
      clean_of_licensed hscope right h.2.2⟩
  | .method base _ arguments, h =>
    ⟨clean_of_licensed hscope base h.2.1, allClean_of_licensed hscope arguments h.2.2⟩
  | .call _ arguments, h => ⟨h.1, allClean_of_licensed hscope arguments h.2.2⟩
  | .list items, h => allClean_of_licensed hscope items h
  | .modified name symbol value arguments, h =>
    ⟨hscope name symbol h.1 h.2.1, clean_of_licensed hscope value h.2.2.1,
      allClean_of_licensed hscope arguments h.2.2.2⟩
  | .choice condition yes no, h =>
    ⟨clean_of_licensed hscope condition h.1, clean_of_licensed hscope yes h.2.1,
      clean_of_licensed hscope no h.2.2⟩

theorem allClean_of_licensed (hscope : scope.Clean) :
    ∀ (es : List Expr), AllLicensed scope es → AllClean es
  | [], _ => trivial
  | e :: more, h => ⟨clean_of_licensed hscope e h.1, allClean_of_licensed hscope more h.2⟩

end

/-- Plain strings are told by their code: no other starts with a quote. -/
theorem Licensed.isString_iff {e : Expr} (h : e.Licensed scope) :
    e.isString = true ↔ e.code.head? = some '"' := by
  have hatom {t : Text} (ht : isAtom t = true) : t.head? ≠ some '"' := by
    cases t with
    | nil => cases ht
    | cons c t =>
      rintro ⟨⟩
      simp [isAtom] at ht
  rw [code_eq_spelling]
  cases e with
  | number text => exact iff_of_false Bool.false_ne_true (hatom h)
  | constant text => exact iff_of_false Bool.false_ne_true (hatom h)
  | string value => exact iff_of_true rfl rfl
  | _ => exact iff_of_false Bool.false_ne_true (by simp [spelling, Stencil.form])

end Expr

section Grammar

variable {scope : Scope} {inner : Inner}

theorem gives_argumentsFrom (h : Gives inner.read (Expr.Licensed scope)) (bound : Nat) :
    Gives (argumentsFrom inner bound) (Expr.AllLicensed scope) := by
  induction bound with
  | zero => exact .refuse _
  | succ bound ih =>
    unfold argumentsFrom
    refine h.bind fun first hfirst => (Gives.skip _).seq fun found => ?_
    split
    · exact .pure ⟨hfirst, trivial⟩
    · exact (Gives.discard _).seq fun _ => ih.bind fun more hmore => .pure ⟨hfirst, hmore⟩

theorem gives_arguments (h : Gives inner.read (Expr.Licensed scope)) :
    Gives (arguments inner) (Expr.AllLicensed scope) := by
  unfold arguments
  refine (Gives.discard _).seq fun _ => (Gives.skip _).seq fun found => ?_
  split
  · exact .pure trivial
  · exact gives_argumentsFrom h _

theorem gives_itemsFrom (h : Gives inner.read (Expr.Licensed scope)) (bound : Nat) :
    Gives (itemsFrom inner bound) (Expr.AllLicensed scope) := by
  induction bound with
  | zero => exact .refuse _
  | succ bound ih =>
    unfold itemsFrom
    refine (Gives.skip _).seq fun closed => ?_
    split
    · exact .pure trivial
    · refine h.bind fun first hfirst => (Gives.sees _).seq fun last => ?_
      have hrest := ih.bind fun more hmore =>
        Gives.pure (P := Expr.AllLicensed scope) (a := first :: more) ⟨hfirst, hmore⟩
      dsimp only
      split
      · exact hrest
      · exact (Gives.discard _).seq fun _ => hrest

theorem gives_items (h : Gives inner.read (Expr.Licensed scope)) :
    Gives (items inner) (Expr.AllLicensed scope) := by
  unfold items
  exact (Gives.discard _).seq fun _ => gives_itemsFrom h _

theorem gives_dotted {base : Expr} (h : base.Licensed scope) :
    Gives (dotted base) (Expr.Licensed scope) := by
  intro c a c' hc heq
  unfold dotted at heq
  split at heq
  · rename_i t ht
    have hlexed := hc.current ht
    unfold Token.Lexed at hlexed
    split at heq <;> cases heq
    · exact ⟨h, hc.advance⟩
    · rename_i hkind
      rw [hkind] at hlexed
      exact ⟨⟨hlexed, h⟩, hc.advance⟩
    · rename_i hkind
      rw [hkind] at hlexed
      exact ⟨⟨hlexed, h⟩, hc.advance⟩
  · cases heq

theorem gives_arrowed (h : Gives inner.read (Expr.Licensed scope)) {base : Expr}
    (hbase : base.Licensed scope) : Gives (arrowed scope inner base) (Expr.Licensed scope) := by
  unfold arrowed
  refine Gives.takeName.bind fun name _ => (Gives.sees _).seq fun called => ?_
  dsimp only
  split
  · refine .guard fun hdeny => (gives_arguments h).bind fun arguments harguments => .pure ?_
    exact ⟨Bool.eq_false_of_not_eq_true hdeny, hbase, harguments⟩
  · exact .pure hbase

theorem gives_accesses (h : Gives inner.read (Expr.Licensed scope)) (bound : Nat) {base : Expr}
    (hbase : base.Licensed scope) : Gives (accesses scope inner bound base) (Expr.Licensed scope) := by
  induction bound generalizing base with
  | zero => exact .pure hbase
  | succ bound ih =>
    unfold accesses
    refine (Gives.skip _).seq fun point => ?_
    split
    · exact (gives_dotted hbase).bind fun _ ha => ih ha
    refine (Gives.skip _).seq fun bracket => ?_
    split
    · exact h.bind fun key hkey => (Gives.discard _).seq fun _ => ih ⟨hbase, hkey⟩
    refine (Gives.skip _).seq fun arrow => ?_
    split
    · exact (gives_arrowed h hbase).bind fun _ ha => ih ha
    · exact .pure hbase

theorem gives_loopVariable : Gives loopVariable fun name => isAtom name = true := by
  unfold loopVariable
  refine (Gives.need _).bind fun t ht => Gives.advance.seq fun _ => .pure ?_
  have hkind : t.kind = .variable := by simpa [Token.fits, Want.accepts] using ht.2
  simpa [Token.Lexed, hkind] using ht.1

theorem gives_targetWith (h : Gives inner.read (Expr.Licensed scope)) :
    Gives (targetWith scope inner) (Expr.Licensed scope) := by
  unfold targetWith
  exact gives_loopVariable.bind fun name hname => gives_accesses h _ hname

theorem gives_counted (h : Gives inner.read (Expr.Licensed scope)) :
    Gives (counted scope inner) (Expr.Licensed scope) := by
  unfold counted
  refine (gives_targetWith h).bind fun place hplace => (Gives.takeOperator _).seq fun op => ?_
  split
  · exact .pure hplace
  · exact .pure hplace

theorem gives_call (h : Gives inner.read (Expr.Licensed scope)) :
    Gives (call scope inner) (Expr.Licensed scope) := by
  unfold call
  refine Gives.takeName.bind fun name hname => ?_
  refine .orThrow fun hpermits => (gives_arguments h).bind fun arguments harguments => .pure ?_
  exact ⟨hname, hpermits, harguments⟩

theorem gives_parenthesised (h : Gives inner.read (Expr.Licensed scope)) :
    Gives (parenthesised inner) (Expr.Licensed scope) := by
  unfold parenthesised
  exact Gives.advance.seq fun _ => h.bind fun e he => (Gives.discard _).seq fun _ => .pure he

theorem isAtom_constant {t : Token} (h : t.isConstant = true) :
    isAtom (t.text.map Char.toLower) = true := by
  have hall : ∀ word ∈ Token.constants, isAtom (word.map Char.toLower) = true := by decide
  simp only [Token.isConstant, Bool.and_eq_true, decide_eq_true_eq] at h
  exact hall _ h.2

theorem gives_word (h : Gives inner.read (Expr.Licensed scope)) (t : Token) :
    Gives (word scope inner t) (Expr.Licensed scope) := by
  intro c a c' hc heq
  unfold word at heq
  split at heq
  · rename_i hconstant
    cases heq
    exact ⟨isAtom_constant hconstant, hc.advance⟩
  · split at heq
    · exact gives_call h c a c' hc heq
    · cases heq

theorem gives_term (h : Gives inner.read (Expr.Licensed scope)) :
    Gives (term scope inner) (Expr.Licensed scope) := by
  intro c a c' hc heq
  unfold term at heq
  split at heq
  · rename_i t ht
    have hlexed := hc.current ht
    unfold Token.Lexed at hlexed
    split at heq
    · rename_i hkind
      rw [hkind] at hlexed
      cases heq
      exact ⟨hlexed, hc.advance⟩
    · rename_i hkind
      rw [hkind] at hlexed
      cases heq
      exact ⟨hlexed, hc.advance⟩
    · cases heq
      exact ⟨trivial, hc.advance⟩
    · exact gives_counted h c a c' hc heq
    · exact gives_word h t c a c' hc heq
    · exact gives_parenthesised h c a c' hc heq
    · have hlist : Gives (Expr.list <$> items inner) (Expr.Licensed scope) := .map (gives_items h)
      exact hlist c a c' hc heq
    · cases heq
  · cases heq

theorem gives_modifierArgument (h : Gives inner.read (Expr.Licensed scope)) :
    Gives (modifierArgument scope inner) (Expr.Licensed scope) := by
  unfold modifierArgument
  refine (Gives.takeOperator _).bind fun op hop => ?_
  split
  · exact (gives_term h).bind fun e he => .pure ⟨mem_operators (hop _ rfl), he⟩
  · exact gives_term h

theorem gives_modifierArguments (h : Gives inner.read (Expr.Licensed scope)) (inBranch : Bool)
    (bound : Nat) :
    Gives (modifierArguments scope inner inBranch bound) (Expr.AllLicensed scope) := by
  induction bound with
  | zero => exact .pure trivial
  | succ bound ih =>
    unfold modifierArguments
    refine Gives.get.seq fun _ => (Gives.sees _).seq fun _ => ?_
    split
    · exact .pure trivial
    refine (Gives.skip _).seq fun found => ?_
    split
    · exact (gives_modifierArgument h).bind fun first hfirst =>
        ih.bind fun more hmore => .pure ⟨hfirst, hmore⟩
    · exact .pure trivial

theorem gives_modifier (h : Gives inner.read (Expr.Licensed scope)) (inBranch : Bool)
    {value : Expr} (hvalue : value.Licensed scope) :
    Gives (modifier scope inner inBranch value) (Expr.Licensed scope) := by
  unfold modifier
  refine Gives.takeName.bind fun name hname => ?_
  split
  · exact .throw _
  · rename_i symbol hsymbol
    exact (gives_modifierArguments h inBranch _).bind fun arguments harguments =>
      .pure ⟨hname, hsymbol, hvalue, harguments⟩

theorem gives_modifiers (h : Gives inner.read (Expr.Licensed scope)) (inBranch : Bool)
    (bound : Nat) {value : Expr} (hvalue : value.Licensed scope) :
    Gives (modifiers scope inner inBranch bound value) (Expr.Licensed scope) := by
  induction bound generalizing value with
  | zero => exact .pure hvalue
  | succ bound ih =>
    unfold modifiers
    refine (Gives.skip _).seq fun found => ?_
    split
    · exact (gives_modifier h inBranch hvalue).bind fun _ ha => ih ha
    · exact .pure hvalue

theorem gives_operand (h : Gives inner.read (Expr.Licensed scope)) (inBranch : Bool)
    (bound : Nat) : Gives (operand scope inner inBranch bound) (Expr.Licensed scope) := by
  induction bound with
  | zero => exact .refuse _
  | succ bound ih =>
    unfold operand
    refine (Gives.takeOperator _).bind fun op hop => ?_
    split
    · exact ih.bind fun e he => .pure ⟨mem_operators (hop _ rfl), he⟩
    refine (Gives.takeOperator _).seq fun sign => ?_
    split
    · exact (gives_targetWith h).bind fun place hplace => .pure hplace
    · exact (gives_term h).bind fun value hvalue => gives_modifiers h inBranch _ hvalue

theorem mem_of_binaryOperator {c : Cursor} {least power : Nat} {op : Text}
    (h : binaryOperator? c least = some (op, power)) : op ∈ operators := by
  unfold binaryOperator? at h
  rw [operator?_eq] at h
  simp only [Option.bind_eq_bind, Option.bind_eq_some_iff] at h
  obtain ⟨s, hs, p, -, h⟩ := h
  split at h <;> cases h
  exact mem_operators (Gives.mem_roles_of_operatorOf hs)

theorem gives_climb {next : Reading Expr} (h : Gives next (Expr.Licensed scope)) (bound least : Nat)
    {left : Expr} (hleft : left.Licensed scope) :
    Gives (climb next bound least left) (Expr.Licensed scope) := by
  induction bound generalizing least left with
  | zero => exact .pure hleft
  | succ bound ih =>
    unfold climb
    refine Gives.get.seq fun c => ?_
    split
    · exact .pure hleft
    · rename_i op power hop
      refine Gives.advance.seq fun _ => h.bind fun first hfirst => ?_
      exact (ih _ hfirst).bind fun right hright =>
        ih _ ⟨mem_of_binaryOperator hop, hleft, hright⟩

theorem gives_operation (h : Gives inner.read (Expr.Licensed scope)) (inBranch : Bool) :
    Gives (operation scope inner inBranch) (Expr.Licensed scope) := by
  have hnext : Gives (operandHere scope inner inBranch) (Expr.Licensed scope) :=
    gives_operand h inBranch _
  unfold operation
  exact hnext.bind fun first hfirst => gives_climb hnext _ _ hfirst

theorem gives_expressionWithin (depth : Nat) (inBranch : Bool) :
    Gives (expressionWithin scope depth inBranch) (Expr.Licensed scope) := by
  induction depth generalizing inBranch with
  | zero => exact .refuse _
  | succ depth ih =>
    unfold expressionWithin choice
    refine (gives_operation (ih false) inBranch).bind fun condition hcondition => ?_
    refine (Gives.skip _).seq fun question => ?_
    split
    · refine (Gives.skip _).seq fun short => ?_
      split
      · exact (ih inBranch).bind fun otherwise hotherwise => .pure ⟨hcondition, hotherwise⟩
      · exact (ih true).bind fun yes hyes => (Gives.discard _).seq fun _ =>
          (ih inBranch).bind fun no hno => .pure ⟨hcondition, hyes, hno⟩
    · exact .pure hcondition

theorem gives_expression : Gives (expression scope) (Expr.Licensed scope) := by
  unfold expression
  exact Gives.remaining.seq fun _ => gives_expressionWithin _ _

theorem gives_target : Gives (target scope) (Expr.Licensed scope) := by
  unfold target
  exact Gives.remaining.seq fun _ => gives_targetWith (gives_expressionWithin _ _)

end Grammar

end Stencil
