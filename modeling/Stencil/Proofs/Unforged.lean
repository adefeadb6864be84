import Stencil.Proofs.Alike
import Stencil.Proofs.Longest
import Stencil.Proofs.Trees

/-!
# Contents stay contents

No content of a literal or a name becomes code. The strings of an expression's form are the contents
of the tokens that were read for it, in order, and other contents give a form of the same shape.
-/

namespace Stencil

open Grammar Reading

/-! ## The grammar -/

/-- The strings of the first expression's form, and one shape for the forms of both. -/
structure Same (strings : List Text) (e e' : Expr) : Prop where
  strings : e.tree.strings = strings
  shape : e'.tree.shape = e.tree.shape

structure SameAll (strings : List Text) (es es' : List Expr) : Prop where
  strings : Form.allStrings (Expr.trees es) = strings
  shapes : Form.shapes (Expr.trees es') = Form.shapes (Expr.trees es)

theorem SameAll.nil : SameAll [] [] [] := ⟨rfl, rfl⟩

theorem Same.cons {strings more : List Text} {e e' : Expr} {es es' : List Expr}
    (h : Same strings e e') (hmore : SameAll more es es') :
    SameAll (strings ++ more) (e :: es) (e' :: es') := by
  constructor
  · simp [h.strings, hmore.strings]
  · simp [h.shape, hmore.shapes]

section Grammar

variable {scope : Scope} {inner : Inner}

theorem shadows_argumentsFrom (h : Shadows false false inner.read inner.read Same) (bound : Nat) :
    Shadows false false (argumentsFrom inner bound) (argumentsFrom inner bound) SameAll := by
  induction bound with
  | zero => exact .refuse _
  | succ bound ih =>
    unfold argumentsFrom
    refine h.bind fun strings first first' hfirst => .skip rfl ?_ (.expect rfl ?_)
    · exact .pure (hfirst.cons .nil)
    · exact ih.bind fun more rest rest' hrest => .pure (by simpa using hfirst.cons hrest)

theorem shadows_arguments (h : Shadows false false inner.read inner.read Same) :
    Shadows false false (arguments inner) (arguments inner) SameAll := by
  unfold arguments
  exact .expect rfl (.skip rfl (.pure .nil) (shadows_argumentsFrom h _))

theorem shadows_itemsFrom (h : Shadows false false inner.read inner.read Same) (bound : Nat) :
    Shadows false false (itemsFrom inner bound) (itemsFrom inner bound) SameAll := by
  induction bound with
  | zero => exact .refuse _
  | succ bound ih =>
    unfold itemsFrom
    refine .skip rfl (.pure .nil) (h.bind fun strings first first' hfirst => .sees fun last => ?_)
    have hrest : Shadows false false (itemsFrom inner bound >>= fun rest => pure (first :: rest))
        (itemsFrom inner bound >>= fun rest => pure (first' :: rest))
        fun more es es' => SameAll (strings ++ more) es es' :=
      ih.bind fun more rest rest' hrest => .pure (by simpa using hfirst.cons hrest)
    dsimp only
    split
    · exact hrest
    · exact .expect rfl hrest

theorem shadows_items (h : Shadows false false inner.read inner.read Same) :
    Shadows false false (items inner) (items inner) SameAll := by
  unfold items
  exact .expect rfl (shadows_itemsFrom h _)

theorem shadows_dotted {strings : List Text} {base base' : Expr} (h : Same strings base base') :
    Shadows true false (dotted base) (dotted base')
      fun more e e' => Same (strings ++ more) e e' := by
  intro c d e c' hdecodes halike hrun
  unfold dotted at hrun ⊢
  cases ht : c.current? with
  | none =>
    rw [ht] at hrun
    cases hrun
  | some t =>
    obtain ⟨u, hu, htu, -, -⟩ := halike.advance ht
    rw [ht] at hrun
    rw [hu]
    dsimp only at hrun ⊢
    rw [htu.kind]
    split at hrun
    · rename_i hkind
      cases hrun
      refine Shadows.done ht halike (by rw [hkind]; rfl) ⟨?_, ?_⟩
      · simp [h.strings, Token.strings, hkind]
      · simp [h.shape]
    · rename_i hkind
      cases hrun
      refine Shadows.done ht halike (by rw [hkind]; rfl) ⟨?_, ?_⟩
      · simp [h.strings, Token.strings, Token.unquote?, hkind]
      · simp [h.shape]
    · rename_i hkind
      cases hrun
      refine Shadows.done ht halike (by rw [hkind]; rfl) ⟨?_, ?_⟩
      · simp [h.strings, Token.strings, Token.unquote?, hkind]
      · simp [h.shape]
    · cases hrun

theorem shadows_arrowed (h : Shadows false false inner.read inner.read Same) {strings : List Text}
    {base base' : Expr} (hbase : Same strings base base') :
    Shadows true false (arrowed scope inner base) (arrowed scope inner base')
      fun more e e' => Same (strings ++ more) e e' := by
  unfold arrowed
  refine Shadows.accessor.bind ?_
  rintro _ name name' rfl
  refine .sees fun called => ?_
  dsimp only
  split
  · split
    · exact .throw _
    · refine (shadows_arguments h).bind fun more args args' hargs => .pure ⟨?_, ?_⟩
      · simp [hbase.strings, hargs.strings]
      · simp [hbase.shape, hargs.shapes]
  · refine .pure ⟨?_, ?_⟩
    · simp [hbase.strings]
    · simp [hbase.shape]

theorem shadows_accesses (h : Shadows false false inner.read inner.read Same) (bound : Nat)
    {strings : List Text} {base base' : Expr} (hbase : Same strings base base') :
    Shadows false false (accesses scope inner bound base) (accesses scope inner bound base')
      fun more e e' => Same (strings ++ more) e e' := by
  induction bound generalizing strings base base' with
  | zero => exact .pure (by simpa using hbase)
  | succ bound ih =>
    unfold accesses
    have hmore {more : List Text} {next next' : Expr} (hnext : Same (strings ++ more) next next') :
        Shadows false false (accesses scope inner bound next) (accesses scope inner bound next')
          fun last e e' => Same (strings ++ (more ++ last)) e e' :=
      (ih hnext).mono fun last e e' hlast => by rwa [List.append_assoc] at hlast
    refine .skip rfl ?_ (.skip rfl ?_ (.skip rfl ?_ ?_))
    · exact (shadows_dotted hbase).bind fun more next next' hnext => hmore hnext
    · refine h.bind fun more key key' hkey => .expect rfl (hmore ⟨?_, ?_⟩)
      · simp [hbase.strings, hkey.strings]
      · simp [hbase.shape, hkey.shape]
    · exact (shadows_arrowed h hbase).bind fun more next next' hnext => hmore hnext
    · exact .pure (by simpa using hbase)

theorem shadows_loopVariable :
    Shadows false false loopVariable loopVariable fun strings _ _ => strings = [] := by
  unfold loopVariable
  refine .token fun t u hkind _ => .pure ?_
  simp [Token.strings, Token.unquote?, hkind]

theorem shadows_targetWith (h : Shadows false false inner.read inner.read Same) :
    Shadows false false (targetWith scope inner) (targetWith scope inner) Same := by
  unfold targetWith
  refine shadows_loopVariable.bind ?_
  rintro _ name name' rfl
  exact shadows_accesses h _ ⟨rfl, rfl⟩

theorem shadows_counted (h : Shadows false false inner.read inner.read Same) :
    Shadows false false (counted scope inner) (counted scope inner) Same := by
  unfold counted
  refine (shadows_targetWith h).bind fun strings place place' hplace => .operator (fun op => ?_) ?_
  · refine .pure ⟨?_, ?_⟩
    · simp [hplace.strings]
    · simp [hplace.shape]
  · exact .pure (by simpa using hplace)

theorem shadows_call (h : Shadows false false inner.read inner.read Same) :
    Shadows false false (call scope inner) (call scope inner) Same := by
  unfold call
  refine Shadows.name.seq fun name => ?_
  split
  · refine (shadows_arguments h).bind fun strings args args' hargs => .pure ⟨?_, ?_⟩
    · simp [hargs.strings]
    · simp [hargs.shapes]
  · exact .throw _

theorem shadows_word (h : Shadows false false inner.read inner.read Same) {c d c' : Cursor}
    {t u : Token} {e : Expr} (hdecodes : c.Decodes) (halike : c.Alike false d)
    (ht : c.current? = some t) (htu : t.Alike false u) (hkind : t.kind = .name)
    (hrun : word scope inner t c = .ok e c') :
    ∃ e' d' strings, word scope inner u d = .ok e' d' ∧ c'.Alike false d' ∧
      c.Yields false false c' strings ∧ Same strings e e' := by
  have htext : u.text = t.text := htu.text (by rw [hkind]; decide) (by simp)
  have hconstant : u.isConstant = t.isConstant := by simp [Token.isConstant, htu.kind, htext]
  unfold word at hrun ⊢
  rw [hconstant, htext, halike.seesNext_eq]
  split at hrun
  · rename_i hyes
    cases hrun
    rw [if_pos hyes]
    refine Shadows.done ht halike (by rw [hkind]; rfl) ⟨?_, rfl⟩
    simp [Token.strings, Token.unquote?, hkind]
  · rename_i hno
    rw [if_neg hno]
    split at hrun
    · rename_i hcall
      rw [if_pos hcall]
      exact shadows_call h c d e c' hdecodes halike hrun
    · cases hrun

theorem shadows_list (h : Shadows false false inner.read inner.read Same) :
    Shadows false false (Expr.list <$> items inner) (Expr.list <$> items inner) Same := by
  rw [map_eq_pure_bind]
  refine (shadows_items h).bind fun strings es es' hes => .pure ⟨?_, ?_⟩
  · simp [hes.strings]
  · simp [hes.shapes]

theorem shadows_term (h : Shadows false false inner.read inner.read Same) :
    Shadows false false (term scope inner) (term scope inner) Same := by
  intro c d e c' hdecodes halike hrun
  unfold term at hrun ⊢
  cases ht : c.current? with
  | none =>
    rw [ht] at hrun
    cases hrun
  | some t =>
    obtain ⟨u, hu, htu, -, -⟩ := halike.advance ht
    rw [ht] at hrun
    rw [hu]
    dsimp only at hrun ⊢
    rw [htu.kind]
    split at hrun
    · rename_i hkind
      cases hrun
      refine Shadows.done ht halike (by rw [hkind]; rfl) ⟨?_, rfl⟩
      simp [Token.strings, Token.unquote?, hkind]
    · rename_i hkind
      cases hrun
      refine Shadows.done ht halike (by rw [hkind]; rfl) ⟨?_, rfl⟩
      simp [Token.strings, Token.unquote?, hkind]
    · rename_i hkind
      cases hrun
      obtain ⟨value, hvalue⟩ := Option.isSome_iff_exists.mp
        (hdecodes t (List.mem_of_mem_head? ht) hkind)
      refine Shadows.done ht halike (by rw [hkind]; rfl) ⟨?_, rfl⟩
      simp [Token.strings, hkind, hvalue]
    · exact shadows_counted h c d e c' hdecodes halike hrun
    · rename_i hkind
      exact shadows_word h hdecodes halike ht htu hkind hrun
    · rename_i hkind
      have hinside : Shadows t.kind.isAccess false
          (inner.read >>= fun e => discard (take (mark ")")) >>= fun _ => pure e)
          (inner.read >>= fun e => discard (take (mark ")")) >>= fun _ => pure e)
          fun more e e' => Same (t.strings false ++ more) e e' := by
        rw [hkind, Token.strings_symbol hkind]
        exact h.bind fun strings e e' he => .expect rfl (.pure (by simpa using he))
      exact hinside.behind ht hdecodes halike hrun
    · exact shadows_list h c d e c' hdecodes halike hrun
    · cases hrun

theorem shadows_modifierArgument (h : Shadows false false inner.read inner.read Same) :
    Shadows false false (modifierArgument scope inner) (modifierArgument scope inner) Same := by
  unfold modifierArgument
  refine .operator (fun op => ?_) (shadows_term h)
  refine (shadows_term h).bind fun strings e e' he => .pure ⟨?_, ?_⟩
  · simp [he.strings]
  · simp [he.shape]

theorem shadows_modifierArguments (h : Shadows false false inner.read inner.read Same)
    (inBranch : Bool) (bound : Nat) :
    Shadows false false (modifierArguments scope inner inBranch bound)
      (modifierArguments scope inner inBranch bound) SameAll := by
  induction bound with
  | zero => exact .pure .nil
  | succ bound ih =>
    unfold modifierArguments
    refine .get fun c d halike => .sees fun colon => ?_
    rw [halike.spaced]
    split
    · exact .pure .nil
    · refine .skip rfl ?_ (.pure .nil)
      refine (shadows_modifierArgument h).bind fun strings first first' hfirst => ?_
      exact ih.bind fun more rest rest' hrest => .pure (by simpa using hfirst.cons hrest)

theorem shadows_modifier (h : Shadows false false inner.read inner.read Same) (inBranch : Bool)
    {strings : List Text} {value value' : Expr} (hvalue : Same strings value value') :
    Shadows false false (modifier scope inner inBranch value) (modifier scope inner inBranch value')
      fun more e e' => Same (strings ++ more) e e' := by
  unfold modifier
  refine Shadows.name.seq fun name => ?_
  split
  · exact .throw _
  · rename_i symbol _
    refine (shadows_modifierArguments h inBranch _).bind fun more args args' hargs => .pure ⟨?_, ?_⟩
    · simp [Form.allStrings_append, Form.allStrings_ofSymbol, hvalue.strings, hargs.strings]
    · simp [Form.shapes_append, hvalue.shape, hargs.shapes]

theorem shadows_modifiers (h : Shadows false false inner.read inner.read Same) (inBranch : Bool)
    (bound : Nat) {strings : List Text} {value value' : Expr} (hvalue : Same strings value value') :
    Shadows false false (modifiers scope inner inBranch bound value)
      (modifiers scope inner inBranch bound value')
      fun more e e' => Same (strings ++ more) e e' := by
  induction bound generalizing strings value value' with
  | zero => exact .pure (by simpa using hvalue)
  | succ bound ih =>
    unfold modifiers
    refine .skip rfl ?_ (.pure (by simpa using hvalue))
    refine (shadows_modifier h inBranch hvalue).bind fun more next next' hnext => ?_
    exact (ih hnext).mono fun last e e' hlast => by rwa [List.append_assoc] at hlast

theorem shadows_operand (h : Shadows false false inner.read inner.read Same) (inBranch : Bool)
    (bound : Nat) :
    Shadows false false (operand scope inner inBranch bound) (operand scope inner inBranch bound)
      Same := by
  induction bound with
  | zero => exact .refuse _
  | succ bound ih =>
    unfold operand
    refine .operator (fun op => ?_) (.operator (fun op => ?_) ?_)
    · refine ih.bind fun strings e e' he => .pure ⟨?_, ?_⟩
      · simp [he.strings]
      · simp [he.shape]
    · refine (shadows_targetWith h).bind fun strings place place' hplace => .pure ⟨?_, ?_⟩
      · simp [hplace.strings]
      · simp [hplace.shape]
    · exact (shadows_term h).bind fun strings value value' hvalue =>
        shadows_modifiers h inBranch _ hvalue

theorem shadows_climb {next : Reading Expr} (h : Shadows false false next next Same)
    (bound least : Nat) {strings : List Text} {left left' : Expr}
    (hleft : Same strings left left') :
    Shadows false false (climb next bound least left) (climb next bound least left')
      fun more e e' => Same (strings ++ more) e e' := by
  induction bound generalizing least strings left left' with
  | zero => exact .pure (by simpa using hleft)
  | succ bound ih =>
    unfold climb
    refine .binary (.pure (by simpa using hleft)) fun op power => ?_
    refine h.bind fun more first first' hfirst => ?_
    refine (ih _ hfirst).bind fun last right right' hright => ?_
    have hboth : Same (strings ++ (more ++ last)) (.binary op left right)
        (.binary op left' right') := by
      constructor
      · simp [hleft.strings, hright.strings]
      · simp [hleft.shape, hright.shape]
    exact (ih _ hboth).mono fun final e e' hfinal => by simpa using hfinal

theorem shadows_operation (h : Shadows false false inner.read inner.read Same) (inBranch : Bool) :
    Shadows false false (operation scope inner inBranch) (operation scope inner inBranch) Same := by
  have hnext : Shadows false false (operandHere scope inner inBranch)
      (operandHere scope inner inBranch) Same := shadows_operand h inBranch _
  unfold operation
  exact hnext.bind fun strings first first' hfirst => shadows_climb hnext _ _ hfirst

theorem shadows_expressionWithin (depth : Nat) (inBranch : Bool) :
    Shadows false false (expressionWithin scope depth inBranch)
      (expressionWithin scope depth inBranch) Same := by
  induction depth generalizing inBranch with
  | zero => exact .refuse _
  | succ depth ih =>
    unfold expressionWithin choice
    refine (shadows_operation (ih false) inBranch).bind fun strings condition condition' hif => ?_
    refine .skip rfl (.skip rfl ?_ ?_) (.pure (by simpa using hif))
    · refine (ih inBranch).bind fun more otherwise otherwise' helse => .pure ⟨?_, ?_⟩
      · simp [hif.strings, helse.strings]
      · simp [hif.shape, helse.shape]
    · refine (ih true).bind fun more yes yes' hyes => .expect rfl ?_
      refine (ih inBranch).bind fun last no no' hno => .pure ⟨?_, ?_⟩
      · simp [hif.strings, hyes.strings, hno.strings]
      · simp [hif.shape, hyes.shape, hno.shape]

theorem shadows_expression : Shadows false false (expression scope) (expression scope) Same := by
  intro c d e c' hdecodes halike hrun
  -- The depth is the number of tokens left, so it is the same for both.
  have hlength : d.ahead.length = c.ahead.length := halike.ahead.length_eq
  have hdepth : Shadows false false (expressionWithin scope c.ahead.length false)
      (expressionWithin scope c.ahead.length false) Same := shadows_expressionWithin _ _
  obtain ⟨e', d', strings, hrun', hresult⟩ := hdepth c d e c' hdecodes halike hrun
  refine ⟨e', d', strings, ?_, hresult⟩
  rw [← hlength] at hrun'
  exact hrun'

end Grammar

/-! ## Code that is read back -/

theorem exists_literal_of_quoted {c : Char} {t : Text} (h : (Lexeme.first c t).kind = .quoted) :
    ∃ l : Literal, c :: (Lexeme.first c t).tail = l.text := by
  have hdecided := Lexeme.decided_first c t
  rw [h] at hdecided
  generalize c :: (Lexeme.first c t).tail = text at hdecided ⊢
  cases hdecided with
  | complete hcomplete =>
    cases hcomplete with
    | quoted l _ => exact ⟨l, rfl⟩

theorem decodes_place (line : Nat) (source : Text) (position endLine : Nat) :
    (Cursor.place (tokenize line source) position endLine).Decodes := by
  intro t ht hkind
  obtain ⟨before, after, hsplit⟩ := List.append_of_mem (List.mem_of_mem_drop ht)
  obtain ⟨front, c, rest, -, -, -, rfl⟩ := atFront_of_tokenize hsplit
  obtain ⟨l, hl⟩ := exists_literal_of_quoted hkind
  have hvalue := l.unquote?_token ((Lexeme.first c rest).rest.takeWhile isBlank)
    (line + Text.newlines front)
  rw [← hl, ← hkind] at hvalue
  exact Option.isSome_iff_exists.mpr ⟨_, hvalue⟩

theorem spells_of_expression {scope : Scope} (hscope : scope.library.Bare)
    {line position endLine : Nat} {source : Text} {e : Expr} {c : Cursor}
    (h : expression scope (.place (tokenize line source) position endLine) = .ok e c) :
    Form.Spells e.code e.tree := by
  have hlexed := Cursor.lexed_place (lexed_tokenize line source) position endLine
  exact Expr.spells_code_tree hscope (gives_expression _ e c hlexed h).1

/--
Whatever the tokens of a text hold, the code of an expression is one line and is read back as one
form. The strings of that form are what the literals and the accessor names stand for, in order, and
other contents in their place give a form of the same shape.
-/
theorem expression_unforged {scope : Scope} (hscope : scope.library.Bare)
    {line position endLine : Nat} {source : Text} {e : Expr} {c : Cursor}
    (h : expression scope (.place (tokenize line source) position endLine) = .ok e c) :
    Text.OneLine e.code ∧
    ∃ consumed tree, (tokenize line source).drop position = consumed ++ c.ahead ∧
      Form.readAll e.code = some [tree] ∧ tree.strings = Token.stringsFrom false consumed ∧
      ∀ line' source' position' endLine',
        (Cursor.place (tokenize line source) position endLine).Alike false
          (.place (tokenize line' source') position' endLine') →
        ∃ e' c' tree',
          expression scope (.place (tokenize line' source') position' endLine') = .ok e' c' ∧
          Form.readAll e'.code = some [tree'] ∧ tree'.shape = tree.shape := by
  have hspells := spells_of_expression hscope h
  have hdecodes := decodes_place line source position endLine
  -- The run beside itself tells the strings, and beside another one the shape.
  obtain ⟨_, _, _, -, -, ⟨consumed, hconsumed, -, rfl⟩, hself⟩ :=
    shadows_expression _ _ e c hdecodes (.refl _) h
  refine ⟨hspells.oneLine, consumed, e.tree, hconsumed, Statement.readAll_of_spells hspells,
    hself.strings, ?_⟩
  intro line' source' position' endLine' halike
  obtain ⟨e', c', _, h', -, -, hsame⟩ := shadows_expression _ _ e c hdecodes halike h
  have hspells' := spells_of_expression hscope h'
  exact ⟨e', c', e'.tree, h', Statement.readAll_of_spells hspells', hsame.shape⟩

/-! A literal that would close its form and open another one, if it were not in quotes. -/

namespace Hostile

def scope : Scope := ⟨Library.standard, Options.empty⟩

def source : Text := "$user.name|default:\"\\\") (fn system \\\"id\\\"\\n\"\x7d"

def tame : Text := "$x.y|default:''\x7d"

def cursor (source : Text) : Cursor := .place (tokenize 1 source) 0 1

/-- What a run leaves unread, if it succeeds. -/
def unread? (r : EStateM.Result Fault Cursor Expr) : Option (List Token) :=
  match r with
  | .ok _ c => some c.ahead
  | .error _ _ => none

end Hostile

open Hostile in
theorem expression_unforged_hostile :
    ∃ e c tree, expression scope (cursor source) = .ok e c ∧ Text.OneLine e.code ∧
      Form.readAll e.code = some [tree] ∧
      tree.strings = ["name".toList, "\") (fn system \"id\"\n".toList] ∧
      ∃ e' c' tree', expression scope (cursor tame) = .ok e' c' ∧
        Form.readAll e'.code = some [tree'] ∧ tree'.shape = tree.shape := by
  have hbare : scope.library.Bare := by
    unfold Library.Bare
    decide
  have hunread : unread? (expression scope (cursor source)) =
      some ((tokenize 1 source).drop 7) := by decide +kernel
  have halike : (cursor source).Alike false (cursor tame) := by decide +kernel
  cases hread : expression scope (cursor source) with
  | error fault c =>
    rw [hread] at hunread
    cases hunread
  | ok e c =>
    rw [hread] at hunread
    obtain ⟨hline, consumed, tree, hconsumed, htree, hstrings, htwin⟩ :=
      expression_unforged hbare hread
    refine ⟨e, c, tree, rfl, hline, htree, ?_, htwin 1 tame 0 1 halike⟩
    have hsplit : consumed = (tokenize 1 source).take 7 := by
      have hahead : c.ahead = (tokenize 1 source).drop 7 := Option.some.inj hunread
      rw [hahead, List.drop_zero] at hconsumed
      exact (List.append_cancel_right ((List.take_append_drop 7 _).trans hconsumed)).symm
    rw [hstrings, hsplit]
    decide +kernel

end Stencil
