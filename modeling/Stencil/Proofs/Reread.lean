import Stencil.Proofs.Levels

/-!
# Written expressions are read back

Every tree whose calls, methods and modifiers may be used is read back from its text, to the end of
the text and to the expression that it stands for.
-/

namespace Stencil.Written

open Grammar Reading

variable {scope : Scope} {inner : Inner} {n m bound : Nat} {ends : Option Kind → Prop}

/-! ## Lists -/

theorem startsExpression_listWords {ts : List Tree} (hts : ts ≠ []) (k : Option Kind) :
    StartsExpression (headKind (listWords ts) k) := by
  cases ts with
  | nil => exact absurd rfl hts
  | cons t more =>
    cases more with
    | nil => exact t.startsExpression [' '] k
    | cons next more =>
      rw [listWords, headKind_append]
      · exact t.startsExpression [' '] _
      · simp

theorem passes_argumentsFrom (ts : List Tree) (hts : ts ≠ [])
    (h : ∀ t ∈ ts, AsExpression scope t.words (t.expr scope)) (hready : Ready scope m inner)
    (hm : n ≤ m - 1) (hn : n ≤ bound) (after : Text) :
    Passes (argumentsFrom inner bound) n (listWords ts ++ [.symbol [')'] after]) ends
      (exprs scope ts) := by
  induction ts generalizing n bound with
  | nil => exact absurd rfl hts
  | cons t more ih =>
    refine Passes.of_pos (argumentsFrom inner) (by simp) hn ?_
    rintro b rfl
    rw [argumentsFrom]
    dsimp only [String.reduceToList]
    have hfirst := ((h t (by simp)).inside hready [' ']).mono hm fun _ hk => hk
    cases more with
    | nil =>
      refine hfirst.bind (fun _ _ => endsExpression_of_mem (by decide) _ _) ?_
      exact Passes.skip_then rfl Passes.pure
    | cons next more =>
      rw [listWords, List.append_assoc]
      · refine hfirst.bind (fun _ _ => endsExpression_of_mem (by decide) _ _) ?_
        refine Passes.skip_else (fun _ _ => by simp) ?_
        refine (Passes.discard_take rfl).step ?_
        exact (ih (by simp) (fun t ht => h t (by simp [ht])) (by omega) (by omega)).bind_pure
      · simp

theorem passes_arguments (ts : List Tree) (h : ∀ t ∈ ts, AsExpression scope t.words (t.expr scope))
    (hready : Ready scope n inner) (after : Text) :
    Passes (arguments inner) n (bracketed ['('] [')'] (listWords ts) after) ends (exprs scope ts) := by
  rw [arguments]
  dsimp only [String.reduceToList]
  refine (Passes.discard_take rfl).step ?_
  cases ts with
  | nil => exact Passes.skip_then rfl Passes.pure
  | cons t more =>
    have hle := hready.le_bound
    refine Passes.skip_else (fun k _ => ?_)
      (passes_argumentsFrom (t :: more) (by simp) h hready (by omega) (by omega) after)
    rw [headKind_append]
    exact (startsExpression_listWords (by simp) _).ne (by decide)

theorem passes_itemsFrom (ts : List Tree) (h : ∀ t ∈ ts, AsExpression scope t.words (t.expr scope))
    (hready : Ready scope m inner) (hm : n ≤ m - 1) (hn : n ≤ bound) (after : Text) :
    Passes (itemsFrom inner bound) n (listWords ts ++ [.symbol [']'] after]) ends
      (exprs scope ts) := by
  induction ts generalizing n bound with
  | nil =>
    refine Passes.of_pos (itemsFrom inner) (by simp) hn ?_
    rintro b rfl
    exact Passes.skip_then rfl Passes.pure
  | cons t more ih =>
    refine Passes.of_pos (itemsFrom inner) (by simp) hn ?_
    rintro b rfl
    rw [itemsFrom]
    dsimp only [String.reduceToList]
    refine Passes.skip_else (fun k _ => ?_) ?_
    · rw [headKind_append]
      exact (startsExpression_listWords (by simp) _).ne (by decide)
    have hfirst := ((h t (by simp)).inside hready [' ']).mono hm fun _ hk => hk
    have hmore := fun t ht => h t (List.mem_cons_of_mem _ ht)
    cases more with
    | nil =>
      refine hfirst.bind (fun _ _ => endsExpression_of_mem (by decide) _ _) ?_
      refine Passes.look (Passes.sees_true fun _ hk => hk) (fun _ _ => rfl) ?_
      have hlen := List.length_pos_iff.mpr (t.flows [' ']).ne_nil
      exact (ih hmore (by omega) (by omega)).bind_pure
    | cons next more =>
      rw [listWords, List.append_assoc]
      · refine hfirst.bind (fun _ _ => endsExpression_of_mem (by decide) _ _) ?_
        refine Passes.look (Passes.sees_false fun _ hk => hk)
          (fun _ _ => by simp) ?_
        refine (Passes.discard_take rfl).step ?_
        exact (ih hmore (by omega) (by omega)).bind_pure
      · simp

theorem passes_items (ts : List Tree) (h : ∀ t ∈ ts, AsExpression scope t.words (t.expr scope))
    (hready : Ready scope n inner) (after : Text) :
    Passes (items inner) n (bracketed ['['] [']'] (listWords ts) after) ends (exprs scope ts) := by
  rw [items]
  dsimp only [String.reduceToList]
  have hle := hready.le_bound
  refine (Passes.discard_take rfl).step ?_
  exact passes_itemsFrom ts h hready (by omega) (by omega) after

/-! ## Variables -/

/-- The target is read back, and what is added to it may be read. -/
def AsTarget (scope : Scope) (place : Target) : Prop :=
  ∀ n inner bound after, Ready scope n inner → n ≤ bound →
    Leads (loopVariable >>= fun name => accesses scope inner bound (.variable name))
      (accesses scope inner) n (place.words after) (· ≠ some (.symbol ['('])) (place.expr scope)

theorem name_of_variable {t : Token} {name : Identifier} {after : Text}
    (ht : t.word = ⟨.variable, '$' :: name.val, after⟩) : t.name = name.val := by
  obtain ⟨kind, text, space, line⟩ := t
  obtain ⟨rfl, rfl, rfl⟩ := Word.mk.inj ht
  obtain ⟨_ | ⟨c, rest⟩, hname⟩ := name
  · simp [isWord] at hname
  · have hc : c ≠ '$' := by
      rintro rfl
      exact absurd (isWord_cons.mp hname).1 (by decide)
    simp [Token.name, hc]

theorem passes_loopVariable (name : Identifier) (after : Text) :
    Passes loopVariable n [⟨.variable, '$' :: name.val, after⟩] ends name.val := by
  refine Passes.of_token fun t ht behind ahead endLine => ?_
  rw [loopVariable, bind_of_ok (need_cons (congrArg Word.kind ht)), bind_of_ok (advance_cons t),
    name_of_variable ht]
  rfl

theorem AsTarget.extend {base place : Target} (h : AsTarget scope base) {s : Text}
    (hs : s ∈ [['.'], ['['], ['-', '>']]) (part : Text → List Word)
    (hwords : ∀ after, place.words after = base.words [' '] ++ .spaced s :: part after)
    (hturn : ∀ m inner bound after, Ready scope m inner → m ≤ bound + 1 →
      Leads (accesses scope inner (bound + 1) (base.expr scope)) (accesses scope inner) m
        (.spaced s :: part after) (· ≠ some (.symbol ['('])) (place.expr scope)) :
    AsTarget scope place := by
  intro n inner bound after hready hn
  rw [hwords]
  refine (h n inner bound [' '] hready hn).trans (fun k _ hk => ?_) fun m bound hm hbound => ?_
  · obtain rfl : s = ['('] := Kind.symbol.inj (Option.some.inj hk)
    exact absurd hs (by decide)
  · refine Leads.of_turn _ (by simp) hbound ?_
    rintro b rfl
    exact hturn m inner b after (hready.mono (by omega)) hbound

theorem AsTarget.dotted {base place : Target} (h : AsTarget scope base) (w : Text → Word)
    (hwords : ∀ after, place.words after = base.words [' '] ++ [.spaced ['.'], w after])
    (hw : ∀ after t, t.word = w after → ∀ behind ahead endLine,
      Grammar.dotted (base.expr scope) ⟨behind, t :: ahead, endLine⟩ =
        .ok (place.expr scope) ⟨t :: behind, ahead, endLine⟩) : AsTarget scope place := by
  refine h.extend (by decide) (fun after => [w after]) hwords ?_
  intro m inner bound after _ hm
  rw [accesses]
  dsimp only [String.reduceToList]
  exact Leads.skip_then rfl (Leads.step (Passes.of_token (hw after)) (Leads.done _ (by omega)))

theorem AsTarget.member {base : Target} (h : AsTarget scope base) (name : Name) :
    AsTarget scope (.member base name) := by
  refine h.dotted (fun after => ⟨.name, name.val, after⟩) (fun _ => rfl) ?_
  rintro after ⟨kind, text, space, line⟩ ht behind ahead endLine
  obtain ⟨rfl, rfl, rfl⟩ := Word.mk.inj ht
  rfl

theorem AsTarget.item {base : Target} (h : AsTarget scope base) (digits : Digits) :
    AsTarget scope (.item base digits) := by
  refine h.dotted (fun after => ⟨.integer, digits.val, after⟩) (fun _ => rfl) ?_
  rintro after ⟨kind, text, space, line⟩ ht behind ahead endLine
  obtain ⟨rfl, rfl, rfl⟩ := Word.mk.inj ht
  rfl

theorem AsTarget.selected {base : Target} (h : AsTarget scope base) (name : Identifier) :
    AsTarget scope (.selected base name) := by
  refine h.dotted (fun after => ⟨.variable, '$' :: name.val, after⟩) (fun _ => rfl) ?_
  intro after t ht behind ahead endLine
  have hkind : t.kind = .variable := congrArg Word.kind ht
  simp [Grammar.dotted, Cursor.current?, Cursor.advance, hkind, name_of_variable ht, Target.expr]

theorem AsTarget.index {base : Target} {key : Tree} (h : AsTarget scope base)
    (hkey : AsExpression scope key.words (key.expr scope)) : AsTarget scope (.index base key) := by
  refine h.extend (by decide) (fun after => key.words [' '] ++ [.symbol [']'] after])
    (fun _ => rfl) ?_
  intro m inner bound after hready hm
  rw [accesses]
  dsimp only [String.reduceToList]
  refine Leads.skip_else (by simp) (Leads.skip_then rfl ?_)
  refine Leads.bind (hkey.inside hready [' ']) (fun _ _ => endsExpression_of_mem (by decide) _ _) ?_
  exact Leads.step (Passes.discard_take rfl) (Leads.done _ (by omega))

theorem AsTarget.arrowed {base place : Target} (h : AsTarget scope base) (part : Text → List Word)
    (hwords : ∀ after, place.words after = base.words [' '] ++ .spaced ['-', '>'] :: part after)
    (hpart : ∀ m inner after, Ready scope m inner →
      Passes (Grammar.arrowed scope inner (base.expr scope)) m (part after)
        (· ≠ some (.symbol ['('])) (place.expr scope)) : AsTarget scope place := by
  refine h.extend (by decide) part hwords ?_
  intro m inner bound after hready hm
  rw [accesses]
  dsimp only [String.reduceToList]
  refine Leads.skip_else (by simp) (Leads.skip_else (by simp) (Leads.skip_then rfl ?_))
  rw [← List.append_nil (part after)]
  exact Leads.bind (hpart _ inner after (hready.mono (by omega))) (fun _ hk => hk)
    (Leads.done _ (by omega))

theorem AsTarget.property {base : Target} (h : AsTarget scope base) (name : Name) :
    AsTarget scope (.property base name) := by
  refine h.arrowed (fun after => [⟨.name, name.val, after⟩]) (fun _ => rfl) ?_
  intro m inner after _
  rw [Grammar.arrowed]
  dsimp only [String.reduceToList]
  refine (Passes.take_name _ _).step ?_
  exact Passes.look (Passes.sees_false fun _ hk => hk) (fun _ hk => hk) Passes.pure

theorem AsTarget.method {base : Target} (h : AsTarget scope base) (name : Name) {ts : List Tree}
    (hallowed : scope.options.has .denyMethods = false)
    (hts : ∀ t ∈ ts, AsExpression scope t.words (t.expr scope)) :
    AsTarget scope (.method base name ts) := by
  refine h.arrowed (fun after => ⟨.name, name.val, [' ']⟩ :: bracketed ['('] [')'] (listWords ts) after)
    (fun _ => rfl) ?_
  intro m inner after hready
  rw [Grammar.arrowed]
  dsimp only [String.reduceToList]
  refine (Passes.take_name _ _).step ?_
  refine Passes.look (Passes.sees_true fun _ hk => hk) (fun _ _ => rfl) ?_
  simp only [hallowed, if_true, Bool.false_eq_true, if_false]
  exact (passes_arguments ts hts (hready.mono (by omega)) after).bind_pure

theorem accesses_of_end {base : Expr} {c : Cursor} (h : EndsTarget (nextKind c.ahead)) :
    accesses scope inner bound base c = .ok base c :=
  accesses_of_ne (fun _ hs => h.ne (List.mem_append_left [['(']] hs)) bound base

theorem AsTarget.passes {place : Target} (h : AsTarget scope place) (hready : Ready scope n inner)
    (after : Text) :
    Passes (targetWith scope inner) n (place.words after) EndsTarget (place.expr scope) := by
  rw [targetWith]
  exact (h n inner inner.bound after hready hready.le_bound).passes
    (fun _ hk => hk.ne (by decide)) fun _ _ hk => accesses_of_end hk

/-! ## Terms -/

theorem asTerm_of_token {words : Text → List Word} (w : Text → Word) {e : Expr}
    (hwords : ∀ after, words after = [w after])
    (h : ∀ inner after t, t.word = w after → ∀ behind ahead endLine,
      term scope inner ⟨behind, t :: ahead, endLine⟩ = .ok e ⟨t :: behind, ahead, endLine⟩) :
    AsTerm scope words e := by
  intro n inner after _
  rw [hwords]
  exact Passes.of_token (h inner after)

theorem asTerm_integer (digits : Digits) :
    AsTerm scope (Tree.integer digits).words ((Tree.integer digits).expr scope) := by
  refine asTerm_of_token (fun after => ⟨.integer, digits.val, after⟩) (fun _ => rfl) ?_
  rintro inner after ⟨kind, text, space, line⟩ ht behind ahead endLine
  obtain ⟨rfl, rfl, rfl⟩ := Word.mk.inj ht
  rfl

theorem asTerm_float (number : Decimal) :
    AsTerm scope (Tree.float number).words ((Tree.float number).expr scope) := by
  refine asTerm_of_token (fun after => ⟨.float, number.text, after⟩) (fun _ => rfl) ?_
  rintro inner after ⟨kind, text, space, line⟩ ht behind ahead endLine
  obtain ⟨rfl, rfl, rfl⟩ := Word.mk.inj ht
  rfl

theorem asTerm_string (literal : Literal) :
    AsTerm scope (Tree.string literal).words ((Tree.string literal).expr scope) := by
  refine asTerm_of_token (fun after => ⟨.quoted, literal.text, after⟩) (fun _ => rfl) ?_
  rintro inner after ⟨kind, text, space, line⟩ ht behind ahead endLine
  obtain ⟨rfl, rfl, rfl⟩ := Word.mk.inj ht
  simp [term, Cursor.current?, Cursor.advance, Literal.unquote?_token, Tree.expr]

theorem asTerm_constant (word : Constant) :
    AsTerm scope (Tree.constant word).words ((Tree.constant word).expr scope) := by
  refine asTerm_of_token (fun after => ⟨.name, word.val, after⟩) (fun _ => rfl) ?_
  rintro inner after ⟨kind, text, space, line⟩ ht behind ahead endLine
  obtain ⟨rfl, rfl, rfl⟩ := Word.mk.inj ht
  simp [term, Grammar.word, Token.isConstant, Cursor.current?, Cursor.advance, Tree.expr,
    word.property]

theorem asTerm_of_variable {words : Text → List Word} {e : Expr}
    (hhead : ∀ after k, headKind (words after) k = some .variable)
    (h : ∀ n inner after, Ready scope n inner →
      Passes (counted scope inner) n (words after) EndsTerm e) : AsTerm scope words e := by
  intro n inner after hready
  have hall := h n inner after hready
  have hfirst := hhead after none
  generalize words after = ws at hall hfirst
  cases ws with
  | nil => simp at hfirst
  | cons w ws =>
    refine hall.of_head fun behind t ahead endLine ht => ?_
    have hkind : t.kind = .variable := (congrArg Word.kind ht).trans (Option.some.inj hfirst)
    simp [term, Cursor.current?, hkind]

theorem AsTarget.term {place : Target} (h : AsTarget scope place) :
    AsTerm scope (Tree.target place).words ((Tree.target place).expr scope) := by
  refine asTerm_of_variable place.headKind_words fun n inner after hready => ?_
  rw [counted, ← List.append_nil (Tree.words _ _)]
  refine (h.passes hready after).bind (fun _ hk => hk.1) ?_
  exact Passes.look (Passes.not_takeOperator fun _ hk => hk) (fun _ hk => hk.not_step) Passes.pure

theorem AsTarget.countAfter {place : Target} (h : AsTarget scope place) (up : Bool) :
    AsTerm scope (Tree.countAfter up place).words ((Tree.countAfter up place).expr scope) := by
  refine asTerm_of_variable (fun after k => ?_) fun n inner after hready => ?_
  · exact (headKind_append ..).trans (place.headKind_words ..)
  rw [counted]
  refine (h.passes hready [' ']).bind (fun _ _ => ?_) ?_
  · cases up <;> simp [EndsTarget, countSign]
  refine (Passes.takeOperator rfl ?_).step ?_
  · cases up <;> decide
  · cases up <;> exact Passes.pure

theorem asTerm_call (name : FunctionName) {ts : List Tree}
    (hallowed : scope.library.permits scope.options name.val = true)
    (hts : ∀ t ∈ ts, AsExpression scope t.words (t.expr scope)) :
    AsTerm scope (Tree.call name ts).words ((Tree.call name ts).expr scope) := by
  intro n inner after hready
  have hcall : Passes (call scope inner) n ((Tree.call name ts).words after) EndsTerm
      ((Tree.call name ts).expr scope) := by
    rw [call]
    refine (Passes.take_name _ _).step ?_
    simp only [hallowed, if_true]
    exact (passes_arguments ts hts (hready.mono (by omega)) after).bind_pure
  intro behind tokens rest endLine hwords hk hn
  rw [← hcall behind tokens rest endLine hwords hk hn]
  obtain ⟨t, tail, rfl, ht, htail⟩ := List.map_eq_cons_iff.mp hwords
  obtain ⟨next, tail, rfl, hnext, -⟩ := List.map_eq_cons_iff.mp htail
  have hkind : t.kind = .name := congrArg Word.kind ht
  have htext : t.text = name.val := congrArg Word.text ht
  have hparen : next.kind = .symbol ['('] := congrArg Word.kind hnext
  have hconstant : t.isConstant = false := by simp [Token.isConstant, htext, name.property.2]
  have hnext : Cursor.seesNext ⟨behind, t :: next :: (tail ++ rest), endLine⟩ (mark ['(']) = true := by
    simp [Cursor.seesNext, Cursor.next?, mark, Token.fits, Want.symbol, Want.accepts, hparen]
  simp [term, Cursor.current?, hkind, Grammar.word, hconstant, hnext]

theorem asTerm_list {ts : List Tree} (hts : ∀ t ∈ ts, AsExpression scope t.words (t.expr scope)) :
    AsTerm scope (Tree.list ts).words ((Tree.list ts).expr scope) := by
  intro n inner after hready
  have hlist : Passes (Expr.list <$> items inner) n ((Tree.list ts).words after) EndsTerm
      ((Tree.list ts).expr scope) := (passes_items ts hts hready after).map
  refine hlist.of_head fun behind t ahead endLine ht => ?_
  have hkind : t.kind = .symbol ['['] := congrArg Word.kind ht
  simp [Grammar.term, Cursor.current?, hkind]

/-! ## Modifiers -/

theorem endsTerm_argumentWords (ts : List Tree) (after : Text) {k : Option Kind} (hk : EndsTerm k) :
    EndsTerm (headKind (argumentWords ts after) k) := by
  cases ts with
  | nil => exact hk
  | cons t more =>
    rw [argumentWords_cons, headKind_cons]
    decide

/-- A colon with white space before it belongs to the choice around. -/
theorem modifierArguments_of_end {inBranch : Bool} {last : Token} {behind ahead : List Token}
    {endLine : Nat} (h : EndsModified inBranch last.space (nextKind ahead)) :
    modifierArguments scope inner inBranch bound ⟨last :: behind, ahead, endLine⟩ =
      .ok [] ⟨last :: behind, ahead, endLine⟩ := by
  by_cases hcolon : nextKind ahead = some (.symbol [':'])
  · obtain ⟨rfl, hspace⟩ := h.2 hcolon
    cases bound with
    | zero => rfl
    | succ bound =>
      rw [modifierArguments]
      dsimp only [String.reduceToList]
      rw [get_bind, bind_of_ok (sees_eq _ _), spaced_cons]
      simp [hcolon, hspace, pure_apply]
  · exact modifierArguments_of_ne hcolon inBranch bound

/-- Without white space before it, a colon starts an argument. -/
theorem modifierArguments_of_glued {inBranch : Bool} {last : Token} {behind ahead : List Token}
    {endLine : Nat} (h : last.space = []) :
    modifierArguments scope inner inBranch (bound + 1) ⟨last :: behind, ahead, endLine⟩ =
      (skip (mark [':']) >>= fun found => if found = true then (do
          let first ← modifierArgument scope inner
          let more ← modifierArguments scope inner inBranch bound
          pure (first :: more)) else pure []) ⟨last :: behind, ahead, endLine⟩ := by
  rw [modifierArguments]
  dsimp only [String.reduceToList]
  rw [get_bind, bind_of_ok (sees_eq _ _), spaced_cons]
  simp [h]

theorem passesAfter_modifierArguments (ts : List Tree) (h : ∀ t ∈ ts, AsArgument scope t)
    (hready : Ready scope m inner) (hm : n ≤ m) (hn : n ≤ bound) (inBranch : Bool) (after : Text) :
    PassesAfter (if ts.isEmpty then after else []) (modifierArguments scope inner inBranch bound) n
      (argumentWords ts after) (EndsModified inBranch after) (exprs scope ts) := by
  induction ts generalizing n bound with
  | nil =>
    rintro last behind tokens rest endLine rfl hwords hk _
    obtain rfl := List.map_eq_nil_iff.mp hwords
    exact modifierArguments_of_end hk
  | cons t more ih =>
    intro last behind tokens rest endLine hspace hwords hk hlen
    obtain ⟨b, rfl⟩ : ∃ b, bound = b + 1 := by
      have hpos := congrArg List.length hwords
      simp only [argumentWords_cons, List.length_map, List.length_cons] at hpos
      simp only [List.length_append] at hlen
      exact ⟨bound - 1, by omega⟩
    rw [modifierArguments_of_glued (by simpa using hspace)]
    refine Passes.skip_then rfl ?_ (last :: behind) tokens rest endLine
      (hwords.trans (argumentWords_cons t more after)) hk hlen
    have hspaces := (flows_argument_words t (if more.isEmpty then after else [])).space_getLast
    refine Passes.bind_after (h t (by simp) _ inner _ (hready.mono (by omega))) hspaces
      (fun _ hk => endsTerm_argumentWords more after hk.1) ?_
    exact (ih (fun t ht => h t (by simp [ht])) (by omega) (by omega)).bind_pure

theorem passes_modifier (value : Expr) (name : Name) {ts : List Tree}
    (hallowed : ∃ symbol, scope.library.modifier scope.options name.val = .ok symbol)
    (h : ∀ t ∈ ts, AsArgument scope t) (hready : Ready scope n inner) (inBranch : Bool)
    (after : Text) :
    Passes (modifier scope inner inBranch value) n
      (⟨.name, name.val, if ts.isEmpty then after else []⟩ :: argumentWords ts after)
      (EndsModified inBranch after)
      (.modified name.val (symbolOf scope name.val) value (exprs scope ts)) := by
  obtain ⟨symbol, hsymbol⟩ := hallowed
  have hbound := hready.le_bound
  have hname : Passes (take [.kind .name]) n
      [⟨.name, name.val, if ts.isEmpty then after else []⟩] (fun _ => True) name.val :=
    Passes.take_name _ _
  rw [modifier]
  refine hname.bind_after rfl (fun _ _ => trivial) ?_
  simp only [symbolOf, hsymbol]
  exact (passesAfter_modifierArguments ts h hready (by simp) (by simp; omega) inBranch after).bind_pure

theorem Rereads.modified_with {value : Tree} (hvalue : Rereads scope value) (name : Name)
    {ts : List Tree}
    (hallowed : ∃ symbol, scope.library.modifier scope.options name.val = .ok symbol)
    (h : ∀ t ∈ ts, AsArgument scope t) :
    AsModified scope (Tree.modified value name ts).words ((Tree.modified value name ts).expr scope) := by
  intro n inner inBranch bound after hready hn
  refine (hvalue.modified n inner inBranch bound [' '] hready hn).trans (fun k _ => ?_) ?_
  · exact ⟨by simp; decide, by simp⟩
  intro m bound hm hbound
  refine Leads.of_turn _ (by simp) hbound ?_
  rintro b rfl
  rw [modifiers]
  dsimp only [String.reduceToList]
  refine Leads.skip_then rfl ?_
  have hmodifier := passes_modifier (value.expr scope) name hallowed h
    (hready.mono (m := m - 1) (by omega)) inBranch after
  rw [← List.append_nil (_ :: argumentWords ts after)]
  exact Leads.bind hmodifier (fun _ hk => hk) (Leads.done _ (by omega))

/-! ## Operators -/

theorem UnaryOperator.unary_mem_roles (op : UnaryOperator) : Role.unary ∈ Symbol.roles op.val := by
  have hall : ∀ s ∈ [['!'], ['~'], ['-']], Role.unary ∈ Symbol.roles s := by decide
  exact hall _ op.property

theorem Rereads.unary {x : Tree} (hx : Rereads scope x) (op : UnaryOperator) :
    Rereads scope (.unary op x) := by
  refine .of_operand rfl ?_ fun _ => ?_
  · intro n inner inBranch bound after hready hn
    refine Passes.of_pos (Grammar.operand scope inner inBranch) (by simp [Tree.words]) hn ?_
    rintro b rfl
    rw [Grammar.operand]
    refine (Passes.takeOperator rfl op.unary_mem_roles).step ?_
    exact (hx.operand _ inner inBranch b after (hready.mono (by omega)) (by omega)).bind_pure
  · intro n inner after hready
    rw [modifierArgument]
    refine (Passes.takeOperator rfl op.unary_mem_roles).step ?_
    exact (hx.term _ inner after (hready.mono (by omega))).bind_pure

theorem AsTarget.countFirst {place : Target} (h : AsTarget scope place) (up : Bool) :
    Rereads scope (.countFirst up place) := by
  refine .of_operand rfl ?_ ?_
  · intro n inner inBranch bound after hready hn
    refine Passes.of_pos (Grammar.operand scope inner inBranch) (by simp [Tree.words]) hn ?_
    rintro b rfl
    rw [Grammar.operand]
    refine Passes.look (Passes.not_takeOperator fun _ hk => hk) (fun k _ => ?_) ?_
    · cases up <;> rfl
    refine (Passes.takeOperator rfl ?_).step ?_
    · cases up <;> decide
    have hplace := (h.passes (hready.mono (m := n - 1) (by omega)) after).mono (Nat.le_refl _)
      fun k (hk : EndsOperand inBranch after k) => hk.1.1.1
    cases up <;> exact hplace.bind_pure
  · rintro ⟨operator, operand, h⟩
    cases h

theorem climb_of_operator {next : Reading Expr} {least : Nat} {left : Expr} {c : Cursor}
    (op : BinaryOperator) (h : nextKind c.ahead = some (.symbol op.val)) (hleast : least ≤ op.power) :
    climb next (bound + 1) least left c = (advance >>= fun _ =>
      (next >>= climb next bound (op.power + 1)) >>= fun right =>
        climb next bound least (.binary op.val left right)) c := by
  rw [climb, get_bind, binaryOperator?_of_operator op h hleast]
  simp only [bind_assoc]

theorem Rereads.binary {left right : Tree} (hleft : Rereads scope left) (hright : Rereads scope right)
    (op : BinaryOperator) : Rereads scope (.binary op left right) := by
  refine .of_operation op.power_range ?_
  intro n inner inBranch bound least after hready hn hleast
  have hpower : op.power = (Tree.binary op left right).rank := rfl
  rw [← hpower] at hleast ⊢
  refine (hleft.operation op.power op.power_range.1 n inner inBranch bound least [' '] hready hn
    hleast).trans (fun k _ => op.endsOperation inBranch [' ']) fun m bound hm hbound => ?_
  refine Leads.of_turn (fun bound => climb (operandHere scope inner inBranch) bound least)
    (by simp) hbound ?_
  rintro b rfl
  refine Leads.of_head ?_ fun behind t ahead endLine ht =>
    climb_of_operator op (congrArg (some ∘ Word.kind) ht) hleast
  refine Leads.step Passes.advance ?_
  have hrest := (hright.operation (op.power + 1) (by omega)).passes
    (hready.mono (m := m - 1) (by omega)) inBranch b (op.power + 1) (by omega) (Nat.le_refl _) after
  rw [← List.append_nil (enclosed _ _ after)]
  refine Leads.bind hrest (fun k hk => ?_)
    (Leads.done (fun bound => climb (operandHere scope inner inBranch) bound least) (by omega))
  exact ⟨hk.mono (by omega), fun p hp => Nat.lt_succ_of_le (hk.2 p hp)⟩

/-! ## Choices -/

theorem endsOperand_question (inBranch : Bool) :
    EndsOperand inBranch [' '] (some (.symbol ['?'])) ∧ powerOf (some (.symbol ['?'])) = none := by
  cases inBranch <;> decide

theorem Rereads.fallback {value otherwise : Tree} (hvalue : Rereads scope value)
    (hotherwise : Rereads scope otherwise) : Rereads scope (.fallback value otherwise) := by
  refine .of_expression rfl ?_
  intro n inBranch after
  refine Passes.of_pos (expressionWithin scope · inBranch) (by simp [Tree.words]) (Nat.le_refl n) ?_
  rintro depth rfl
  rw [expressionWithin, Grammar.choice]
  dsimp only [String.reduceToList]
  refine ((hvalue.operation 1 (Nat.le_refl 1)).start depth inBranch [' ']).bind
    (fun _ _ => endsOperand_question inBranch) ?_
  refine Passes.skip_then rfl (Passes.skip_then rfl ?_)
  exact ((hotherwise.expression depth inBranch after).mono (by omega) fun _ hk => hk).bind_pure

theorem Rereads.choice {condition yes no : Tree} (hcondition : Rereads scope condition)
    (hyes : Rereads scope yes) (hno : Rereads scope no) : Rereads scope (.choice condition yes no) := by
  refine .of_expression rfl ?_
  intro n inBranch after
  refine Passes.of_pos (expressionWithin scope · inBranch) (by simp [Tree.words]) (Nat.le_refl n) ?_
  rintro depth rfl
  rw [expressionWithin, Grammar.choice]
  dsimp only [String.reduceToList]
  refine ((hcondition.operation 1 (Nat.le_refl 1)).start depth inBranch [' ']).bind
    (fun _ _ => endsOperand_question inBranch) ?_
  refine Passes.skip_then rfl (Passes.skip_else (fun k _ => ?_) ?_)
  · rw [headKind_append]
    exact (yes.startsExpression [' '] _).ne (by decide)
  have hbranch := (hyes.expression depth true [' ']).mono
    (m := depth + 1 - (enclosed (condition.rank < 1) condition.words [' ']).length - 1) (by omega)
    fun _ hk => hk
  refine hbranch.bind (fun _ _ => ?_) ?_
  · show EndsExpression true [' '] (some (.symbol [':']))
    decide
  refine (Passes.discard_take rfl).step ?_
  exact ((hno.expression depth inBranch after).mono (by omega) fun _ hk => hk).bind_pure

/-! ## All trees -/

mutual

theorem Tree.rereads : ∀ (t : Tree), t.Permitted scope → Rereads scope t
  | .integer digits, _ => .of_term rfl (asTerm_integer digits)
  | .float number, _ => .of_term rfl (asTerm_float number)
  | .string literal, _ => .of_term rfl (asTerm_string literal)
  | .constant word, _ => .of_term rfl (asTerm_constant word)
  | .target place, h => .of_term rfl (place.asTarget h).term
  | .countFirst up place, h => (place.asTarget h).countFirst up
  | .countAfter up place, h => .of_term rfl ((place.asTarget h).countAfter up)
  | .call name arguments, h =>
    .of_term rfl (asTerm_call name h.1 fun t ht => (allReread arguments h.2 t ht).expression)
  | .list items, h => .of_term rfl (asTerm_list fun t ht => (allReread items h t ht).expression)
  | .unary operator operand, h => (operand.rereads h).unary operator
  | .binary operator left right, h => (left.rereads h.1).binary (right.rereads h.2) operator
  | .modified value name arguments, h =>
    .of_modified rfl ((value.rereads h.2.1).modified_with name h.1
      fun t ht => (allReread arguments h.2.2 t ht).argument)
  | .choice condition yes no, h =>
    (condition.rereads h.1).choice (yes.rereads h.2.1) (no.rereads h.2.2)
  | .fallback value otherwise, h => (value.rereads h.1).fallback (otherwise.rereads h.2)

theorem Target.asTarget : ∀ (place : Target), place.Permitted scope → AsTarget scope place
  | .variable name, _ => by
    intro n inner bound after _ hn
    exact Leads.step (passes_loopVariable name after) (Leads.done _ (by omega))
  | .member base name, h => (base.asTarget h).member name
  | .item base digits, h => (base.asTarget h).item digits
  | .selected base name, h => (base.asTarget h).selected name
  | .index base key, h => (base.asTarget h.1).index (key.rereads h.2).expression
  | .property base name, h => (base.asTarget h).property name
  | .method base name arguments, h =>
    (base.asTarget h.2.1).method name h.1 fun t ht => (allReread arguments h.2.2 t ht).expression

theorem allReread : ∀ (ts : List Tree), AllPermitted scope ts → ∀ t ∈ ts, Rereads scope t
  | [], _ => by simp
  | t :: more, h => by
    have hfirst := t.rereads h.1
    have hmore := allReread more h.2
    intro x hx
    rcases List.mem_cons.mp hx with rfl | hx
    · exact hfirst
    · exact hmore x hx

end

/-! ## From the words and from the text -/

theorem Tree.passes {t : Tree} (h : t.Permitted scope) (after : Text) :
    Passes (expression scope) n (t.words after) (EndsExpression false after) (t.expr scope) := by
  intro behind tokens rest endLine hwords hk _
  exact (t.rereads h).expression _ false after behind tokens rest endLine hwords hk (Nat.le_refl _)

theorem Tree.passes_last {t : Tree} (h : t.Permitted scope) :
    Passes (expression scope) n (t.words []) (· = none) (t.expr scope) := by
  refine (Tree.passes h []).mono (Nat.le_refl n) fun k hk => ?_
  subst hk
  decide

theorem Target.passes {place : Target} (h : place.Permitted scope) (after : Text) :
    Passes (target scope) n (place.words after) EndsTarget (place.expr scope) := by
  intro behind tokens rest endLine hwords hk _
  have hready : Ready scope (tokens ++ rest).length
      { read := expressionWithin scope (tokens ++ rest).length false
        bound := (tokens ++ rest).length } :=
    ⟨Nat.le_refl _, _, Nat.le_succ _, rfl⟩
  exact (place.asTarget h).passes hready after behind tokens rest endLine hwords hk (Nat.le_refl _)

/--
The text of a tree is read to its end as the expression that the tree stands for, and the code of
that expression is the form of the tree.
-/
theorem Tree.expression_source (scope : Scope) (t : Tree) (line : Nat) (h : t.Permitted scope) :
    ∃ c : Cursor, expression scope (Cursor.ofText t.source line) = .ok (t.expr scope) c ∧
      c.atEnd = true ∧ (t.expr scope).code = (t.form scope).text := by
  have hread := Tree.passes h [] [] (tokenize line t.source) []
    (Cursor.ofText t.source line).endLine (words_tokenize t.apart line) (by decide) (Nat.le_refl _)
  rw [List.append_nil] at hread
  exact ⟨_, hread, rfl, (Expr.code_eq_spelling _).trans t.spelling_expr⟩

/-- `- ( $a + $b [ 1 ] ) | default: - 2: "x\n" ? $o -> p ( count ( ) ) : $b [ 1 ] ++ ? : ! TRUE` -/
def sample : Tree :=
  let a := Tree.target (.variable ⟨['a'], by decide⟩)
  let one := Tree.integer ⟨['1'], by decide⟩
  let two := Tree.integer ⟨['2'], by decide⟩
  let x := Tree.string ⟨true, [(false, 'x'), (true, 'n')], by simp⟩
  let place := Target.index (.variable ⟨['b'], by decide⟩) one
  let sum := Tree.binary ⟨['+'], by decide⟩ a (.target place)
  let minus : UnaryOperator := ⟨['-'], by decide⟩
  let called := Tree.call ⟨"count".toList, by decide⟩ []
  .choice (.unary minus (.modified sum ⟨"default".toList, by decide⟩ [.unary minus two, x]))
    (.target (.method (.variable ⟨['o'], by decide⟩) ⟨['p'], by decide⟩ [called]))
    (.fallback (.countAfter true place)
      (.unary ⟨['!'], by decide⟩ (.constant ⟨"TRUE".toList, by decide⟩)))

theorem Tree.expression_source_sample :
    sample.Permitted ⟨.standard, ⟨0⟩⟩ ∧
    sample.source = "- ( $a + $b [ 1 ] ) | default: - 2: \"x\\n\" ".toList ++
      "? $o -> p ( count ( ) ) : $b [ 1 ] ++ ? : ! TRUE".toList ∧
    ∃ e c, expression ⟨.standard, ⟨0⟩⟩ (Cursor.ofText sample.source 1) = .ok e c ∧
      c.atEnd = true ∧
      e.code = "(? (- (mod Modifier::default_value (+ (var a) (get (var b) 1)) (- 2) ".toList ++
        "\"x\\n\")) (method (var o) \"p\" (fn count)) ".toList ++
        "(?: (postinc (get (var b) 1)) (! true)))".toList := by
  have h : sample.Permitted ⟨.standard, ⟨0⟩⟩ := by
    simp only [sample, Tree.Permitted, Target.Permitted, AllPermitted]
    exact ⟨⟨⟨_, rfl⟩, by decide, by decide⟩, by decide, by decide⟩
  obtain ⟨c, hread, hend, hcode⟩ := Tree.expression_source _ sample 1 h
  refine ⟨h, by decide +kernel, _, c, hread, hend, hcode.trans ?_⟩
  decide +kernel

end Stencil.Written
