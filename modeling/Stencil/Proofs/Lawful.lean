import Stencil.Proofs.Handled

/-!
# What a script may call

A script asks for methods, functions and modifiers by lists that start with `method`, `fn` or `mod`.
The grammar lets through only what the scope allows, at any depth of an expression, and this is still
so once the script is read back.
-/

namespace Stencil

open Form (isAtom SpellsAll spells_atom spells_encode)
open Script

/-! ## Lawful forms -/

/-- The function is always allowed, or it is one of the host and the options do not deny those. -/
def Library.MayCall (l : Library) (options : Options) (name : Text) : Prop :=
  name ∈ l.allowed ∨ name ∈ l.host ∧ options.has .denyFunctions = false

/-- The forms that a symbol is read as; none if it is empty. -/
def Form.ofSymbol (symbol : Text) : List Form := if symbol.isEmpty then [] else [.atom symbol]

/-- What the scope demands of a list that starts with `method`, `fn` or `mod`. -/
structure Scope.Permits (scope : Scope) (items : List Form) : Prop where
  method : items.head? = some (.atom "method") → scope.options.has .denyMethods = false
  call : items.head? = some (.atom "fn") → ∃ name rest,
    items = .atom "fn" :: .atom name :: rest ∧ scope.library.MayCall scope.options name
  modifier : items.head? = some (.atom "mod") → ∃ symbol rest,
    items = .atom "mod" :: .atom symbol :: rest ∧
      ((∃ name, scope.library.modifiers.lookup name = some symbol) ∨
        scope.library.MayCall scope.options symbol)

/--
Every list in the form is one that the scope permits. The entries of a list that starts with
`params` are names with values, whatever the names are.
-/
inductive Form.Lawful (scope : Scope) : Form → Prop
  | atom (name : Text) : Lawful scope (.atom name)
  | string (value : Text) : Lawful scope (.string value)
  | params {entries : List (Text × Form)} (h : ∀ entry ∈ entries, Lawful scope entry.2) :
    Lawful scope
      (.list (.atom "params" :: entries.map fun entry => .list [.atom entry.1, entry.2]))
  | list {items : List Form} (hhead : items.head? ≠ some (.atom "params"))
    (hpermits : scope.Permits items) (h : ∀ item ∈ items, Lawful scope item) :
    Lawful scope (.list items)

/-- No white space, parentheses or double quotes. -/
def isSymbol (t : Text) : Bool := t.all fun c => Form.isAtomPart c && c != '"'

theorem isAtom_of_isSymbol {t : Text} (h : isSymbol t = true) (hne : t ≠ []) : isAtom t = true := by
  cases t with
  | nil => exact absurd rfl hne
  | cons c t =>
    simp only [isSymbol, List.all_cons, Bool.and_eq_true, List.all_eq_true] at h
    simp only [isAtom, Bool.and_eq_true, List.all_eq_true]
    exact ⟨⟨h.1.2, h.1.1⟩, fun x hx => (h.2 x hx).1⟩

theorem spellsAll_ofSymbol {t : Text} (h : t ≠ [] → isAtom t = true) :
    SpellsAll t (Form.ofSymbol t) := by
  cases t with
  | nil => exact ⟨Form.readsAll_nil, by decide⟩
  | cons c t => exact (spells_atom (h (by simp))).all

theorem Library.mayCall_of_permits {l : Library} {options : Options} {name : Text}
    (h : l.permits options name = true) : l.MayCall options name := by
  simpa [Library.permits, Library.MayCall, and_comm] using h

theorem Library.of_modifier {l : Library} {options : Options} {name symbol : Text}
    (h : l.modifier options name = .ok symbol) :
    l.modifiers.lookup name = some symbol ∨ symbol = name ∧ l.MayCall options symbol := by
  unfold Library.modifier at h
  split at h
  · rename_i hlookup
    cases h
    exact .inl hlookup
  · split at h
    · split at h
      · rename_i hpermits
        cases h
        exact .inr ⟨rfl, mayCall_of_permits hpermits⟩
      · cases h
    · cases h

section

variable {scope : Scope}

/-! ## Texts of lawful forms -/

/-- The text is read as one lawful form. -/
def LawfulForm (scope : Scope) (t : Text) : Prop :=
  ∃ f, Form.Spells t f ∧ f.Lawful scope

/-- The text is read as lawful forms, however many. -/
def LawfulForms (scope : Scope) (t : Text) : Prop :=
  ∃ forms, SpellsAll t forms ∧ ∀ f ∈ forms, f.Lawful scope

theorem LawfulForm.all {t : Text} (h : LawfulForm scope t) : LawfulForms scope t := by
  obtain ⟨f, hspells, hlawful⟩ := h
  exact ⟨[f], hspells.all, by simpa using hlawful⟩

theorem lawfulForm_atom {t : Text} (h : isAtom t = true) : LawfulForm scope t :=
  ⟨_, spells_atom h, .atom t⟩

theorem lawfulForm_encode (t : Text) : LawfulForm scope (Quoted.encode t) :=
  ⟨_, spells_encode t, .string t⟩

theorem lawful_ofSymbol (t : Text) : ∀ f ∈ Form.ofSymbol t, f.Lawful scope := by
  unfold Form.ofSymbol
  split
  · simp
  · simpa using Form.Lawful.atom t

theorem exists_lawful {parts : List Text} (h : ∀ part ∈ parts, LawfulForms scope part) :
    ∃ forms, List.Forall₂ SpellsAll parts forms ∧ ∀ fs ∈ forms, ∀ f ∈ fs, f.Lawful scope := by
  induction parts with
  | nil => exact ⟨[], .nil, by simp⟩
  | cons part parts ih =>
    obtain ⟨fs, hspells, hlawful⟩ := h part (by simp)
    obtain ⟨forms, hall, hforms⟩ := ih fun other hother => h other (by simp [hother])
    exact ⟨fs :: forms, .cons hspells hall, by simpa using ⟨hlawful, hforms⟩⟩

theorem lawfulForm_list {head : Text} (hhead : isAtom head = true) (hparams : head ≠ "params")
    {parts : List Text} {forms : List (List Form)} (hspells : List.Forall₂ SpellsAll parts forms)
    (hforms : ∀ fs ∈ forms, ∀ f ∈ fs, f.Lawful scope)
    (hpermits : scope.Permits (.atom head :: forms.flatten)) :
    LawfulForm scope (form head parts) := by
  refine ⟨_, Form.spells_formAll hhead hspells, .list (by simpa using hparams) hpermits ?_⟩
  intro item hitem
  rcases List.mem_cons.mp hitem with rfl | hitem
  · exact .atom head
  · obtain ⟨fs, hfs, hf⟩ := List.mem_flatten.mp hitem
    exact hforms fs hfs item hf

/-- The heads of lists that are not like the others. -/
def specialHeads : List Text := ["params", "method", "fn", "mod"]

theorem Scope.permits_of_head {head : Text} (h : head ∉ specialHeads) (rest : List Form) :
    scope.Permits (.atom head :: rest) := by
  simp only [specialHeads, List.mem_cons, List.not_mem_nil, or_false, not_or] at h
  constructor <;> intro heq <;> simp only [List.head?_cons, Option.some.injEq, Form.atom.injEq] at heq
  · exact absurd heq h.2.1
  · exact absurd heq h.2.2.1
  · exact absurd heq h.2.2.2

theorem lawfulForm_plain {head : Text} (hhead : isAtom head = true) (hplain : head ∉ specialHeads)
    {parts : List Text} (h : ∀ part ∈ parts, LawfulForms scope part) :
    LawfulForm scope (form head parts) := by
  obtain ⟨forms, hspells, hforms⟩ := exists_lawful h
  have hparams : head ≠ "params" := fun heq => hplain (by simp [specialHeads, heq])
  exact lawfulForm_list hhead hparams hspells hforms (Scope.permits_of_head hplain _)

theorem lawfulForm_operator {operator : Text} (h : operator ∈ operators) {parts : List Text}
    (hparts : ∀ part ∈ parts, LawfulForms scope part) : LawfulForm scope (form operator parts) := by
  have hall : ∀ s ∈ operators, s ∉ specialHeads := by decide
  exact lawfulForm_plain (isAtom_of_mem_operators h) (hall operator h) hparts

theorem lawfulForm_call {name : Text} (hname : isAtom name = true)
    (hcall : scope.library.MayCall scope.options name) {parts : List Text}
    (h : ∀ part ∈ parts, LawfulForms scope part) : LawfulForm scope (form "fn" (name :: parts)) := by
  obtain ⟨forms, hspells, hforms⟩ := exists_lawful h
  refine lawfulForm_list (by decide) (by decide) (.cons (spells_atom hname).all hspells) ?_ ?_
  · simpa using ⟨Form.Lawful.atom name, hforms⟩
  · refine ⟨by simp, fun _ => ⟨name, forms.flatten, by simp, hcall⟩, by simp⟩

theorem lawfulForm_method (hmethods : scope.options.has .denyMethods = false) {parts : List Text}
    (h : ∀ part ∈ parts, LawfulForms scope part) : LawfulForm scope (form "method" parts) := by
  obtain ⟨forms, hspells, hforms⟩ := exists_lawful h
  refine lawfulForm_list (by decide) (by decide) hspells hforms ?_
  exact ⟨fun _ => hmethods, by simp, by simp⟩

theorem lawfulForm_modifier {symbol : Text} (hsymbol : isAtom symbol = true)
    (hcall : (∃ name, scope.library.modifiers.lookup name = some symbol) ∨
      scope.library.MayCall scope.options symbol) {parts : List Text}
    (h : ∀ part ∈ parts, LawfulForms scope part) :
    LawfulForm scope (form "mod" (symbol :: parts)) := by
  obtain ⟨forms, hspells, hforms⟩ := exists_lawful h
  refine lawfulForm_list (by decide) (by decide) (.cons (spells_atom hsymbol).all hspells) ?_ ?_
  · simpa using ⟨Form.Lawful.atom symbol, hforms⟩
  · refine ⟨by simp, by simp, fun _ => ⟨symbol, forms.flatten, by simp, hcall⟩⟩

/-! ## Expressions -/

/-- The symbols that modifiers run can stand in a script. -/
def Scope.Symbols (scope : Scope) : Prop :=
  ∀ name symbol, scope.library.modifiers.lookup name = some symbol → isAtom symbol = true

namespace Expr

mutual

theorem lawful_spelling (hscope : scope.Symbols) :
    ∀ (e : Expr), e.Licensed scope → LawfulForm scope e.spelling
  | .number _, h | .constant _, h => lawfulForm_atom h
  | .string value, _ => lawfulForm_encode value
  | .variable _, h => lawfulForm_plain (by decide) (by decide) (by
    simpa using (lawfulForm_atom h).all)
  | .member base name, h => lawfulForm_plain (by decide) (by decide) (by
    simpa using ⟨(lawful_spelling hscope base h).all, (lawfulForm_encode name).all⟩)
  | .property base name, h => lawfulForm_plain (by decide) (by decide) (by
    simpa using ⟨(lawful_spelling hscope base h).all, (lawfulForm_encode name).all⟩)
  | .item base _, h => lawfulForm_plain (by decide) (by decide) (by
    simpa using ⟨(lawful_spelling hscope base h.2).all, (lawfulForm_atom h.1).all⟩)
  | .selected base name, h => by
    have hname : LawfulForm scope (Stencil.form "var" [name]) :=
      lawfulForm_plain (by decide) (by decide) (by simpa using (lawfulForm_atom h.1).all)
    exact lawfulForm_plain (by decide) (by decide) (by
      simpa using ⟨(lawful_spelling hscope base h.2).all, hname.all⟩)
  | .index left right, h => lawfulForm_plain (by decide) (by decide) (by
    simpa using ⟨(lawful_spelling hscope left h.1).all, (lawful_spelling hscope right h.2).all⟩)
  | .fallback left right, h => lawfulForm_plain (by decide) (by decide) (by
    simpa using ⟨(lawful_spelling hscope left h.1).all, (lawful_spelling hscope right h.2).all⟩)
  | .method base name arguments, h => lawfulForm_method h.1 (by
    simpa using ⟨(lawful_spelling hscope base h.2.1).all, (lawfulForm_encode name).all,
      lawful_spellings hscope arguments h.2.2⟩)
  | .call _ arguments, h =>
    lawfulForm_call h.1 (Library.mayCall_of_permits h.2.1) (lawful_spellings hscope arguments h.2.2)
  | .list items, h =>
    lawfulForm_plain (by decide) (by decide) (lawful_spellings hscope items h)
  | .unary _ operand, h => lawfulForm_operator h.1 (by
    simpa using (lawful_spelling hscope operand h.2).all)
  | .count way target, h =>
    lawfulForm_plain (by cases way <;> decide) (by cases way <;> decide) (by
      simpa using (lawful_spelling hscope target h).all)
  | .binary _ left right, h => lawfulForm_operator h.1 (by
    simpa using ⟨(lawful_spelling hscope left h.2.1).all, (lawful_spelling hscope right h.2.2).all⟩)
  | .modified name symbol value arguments, h => by
    -- A modifier runs the symbol it is registered with, or else a function of its own name.
    obtain ⟨hname, hmodifier, hvalue, harguments⟩ := h
    have hparts : ∀ part ∈ value.spelling :: spellings arguments, LawfulForms scope part := by
      simpa using ⟨(lawful_spelling hscope value hvalue).all,
        lawful_spellings hscope arguments harguments⟩
    rcases Library.of_modifier hmodifier with hlookup | ⟨rfl, hcall⟩
    · exact lawfulForm_modifier (hscope name symbol hlookup) (.inl ⟨name, hlookup⟩) hparts
    · exact lawfulForm_modifier hname (.inr hcall) hparts
  | .choice condition yes no, h => lawfulForm_plain (by decide) (by decide) (by
    simpa using ⟨(lawful_spelling hscope condition h.1).all, (lawful_spelling hscope yes h.2.1).all,
      (lawful_spelling hscope no h.2.2).all⟩)

theorem lawful_spellings (hscope : scope.Symbols) :
    ∀ (es : List Expr), AllLicensed scope es → ∀ part ∈ spellings es, LawfulForms scope part
  | [], _ => by simp [spellings]
  | e :: more, h => by
    simpa [spellings] using ⟨(lawful_spelling hscope e h.1).all, lawful_spellings hscope more h.2⟩

end

theorem lawful_code (hscope : scope.Symbols) {e : Expr} (h : e.Licensed scope) :
    LawfulForm scope e.code := by
  rw [code_eq_spelling]
  exact lawful_spelling hscope e h

end Expr

/-! ## Arguments -/

theorem Param.lawful_code (hscope : scope.Symbols) : ∀ {p : Param}, p.Licensed scope →
    ∃ name f, Form.Spells p.code (.list [.atom name, f]) ∧ f.Lawful scope
  | .named name _, h => by
    obtain ⟨f, hspells, hlawful⟩ := Expr.lawful_code hscope h.2
    exact ⟨name, f, Form.spells_form h.1 (.cons hspells .nil), hlawful⟩
  | .positional _, h => by
    obtain ⟨f, hspells, hlawful⟩ := Expr.lawful_code hscope h
    exact ⟨"arg", f, Form.spells_form (by decide) (.cons hspells .nil), hlawful⟩

theorem Param.lawful_listCode (hscope : scope.Symbols) {ps : List Param}
    (h : ∀ p ∈ ps, p.Licensed scope) : LawfulForm scope (Param.listCode ps) := by
  have hentries : ∃ entries : List (Text × Form),
      List.Forall₂ Form.Spells (ps.map Param.code)
        (entries.map fun entry => .list [.atom entry.1, entry.2]) ∧
      ∀ entry ∈ entries, entry.2.Lawful scope := by
    induction ps with
    | nil => exact ⟨[], .nil, by simp⟩
    | cons p more ih =>
      obtain ⟨name, f, hspells, hlawful⟩ := Param.lawful_code hscope (h p (by simp))
      obtain ⟨entries, hall, hentries⟩ := ih fun q hq => h q (by simp [hq])
      exact ⟨(name, f) :: entries, .cons hspells hall, List.forall_mem_cons.mpr ⟨hlawful, hentries⟩⟩
  obtain ⟨entries, hspells, hlawful⟩ := hentries
  exact ⟨_, Form.spells_form (by decide) hspells, .params hlawful⟩

/-! ## Statements -/

/-- The text is a line of a script with lawful arguments. -/
def LawfulLine (scope : Scope) (t : Text) : Prop :=
  ∃ line, Shows t line ∧ ∀ f ∈ line.arguments, f.Lawful scope

theorem lawfulLine_words {word : Text} (hword : IsWord word) {parts : List Text}
    (h : ∀ part ∈ parts, LawfulForms scope part) :
    LawfulLine scope (Statement.words (word :: parts)) := by
  obtain ⟨forms, hspells, hforms⟩ := exists_lawful h
  refine ⟨_, shows_wordsAll hword hspells, fun f hf => ?_⟩
  obtain ⟨fs, hfs, hf⟩ := List.mem_flatten.mp hf
  exact hforms fs hfs f hf

theorem lawfulLine_word {word : Text} (hword : IsWord word) : LawfulLine scope word := by
  have hnone : ∀ part ∈ ([] : List Text), LawfulForms scope part := by simp
  exact lawfulLine_words hword hnone

/-- What a tag of a dialect without handlers of its own gives. -/
abbrev Statement.Obeys (scope : Scope) : Statement → Prop :=
  Statement.Licensed scope (isSymbol · = true) (LawfulForm scope)

theorem Statement.Obeys.lawful (hscope : scope.Symbols) :
    ∀ {s : Statement}, s.Obeys scope → LawfulLine scope s.render
  | .text value, _ | .block value, _ =>
    lawfulLine_words (by decide) (by simpa using (lawfulForm_encode value).all)
  | .echo _, h | .ifThen _, h | .elseIf _, h | .whileLoop _, h | .switch _, h | .case _, h
  | .parent _, h => lawfulLine_words (by decide) (by simpa using (Expr.lawful_code hscope h).all)
  | .echoCall symbol params, h => by
    have hsymbol : LawfulForms scope symbol :=
      ⟨_, spellsAll_ofSymbol (isAtom_of_isSymbol h.1), lawful_ofSymbol symbol⟩
    have hcall : LawfulForm scope (form "call" [symbol, Param.listCode params]) :=
      lawfulForm_plain (by decide) (by decide) (by
        simpa using ⟨hsymbol, (Param.lawful_listCode hscope h.2).all⟩)
    exact lawfulLine_words (by decide) (by simpa using hcall.all)
  | .set _ _, h => lawfulLine_words (by decide) (by
    simpa using ⟨(Expr.lawful_code hscope h.1).all, (Expr.lawful_code hscope h.2).all⟩)
  | .foreach _ _ _, h => lawfulLine_words (by decide) (by
    simpa using ⟨(Expr.lawful_code hscope h.1).all, (lawfulForm_atom h.2.1).all,
      (lawfulForm_atom h.2.2).all⟩)
  | .forRange _ _ _ _, h => lawfulLine_words (by decide) (by
    simpa using ⟨(lawfulForm_atom h.1).all, (Expr.lawful_code hscope h.2.1).all,
      (Expr.lawful_code hscope h.2.2.1).all, (Expr.lawful_code hscope h.2.2.2).all⟩)
  | .inclusion embedded _ _, h => by
    have hword : IsWord (if embedded then "embed" else "include") := by cases embedded <;> decide
    exact lawfulLine_words hword (by
      simpa using ⟨(Expr.lawful_code hscope h.1).all, (Param.lawful_listCode hscope h.2).all⟩)
  | .finish symbol _, h => by
    have hsymbol : LawfulForms scope symbol :=
      ⟨_, spellsAll_ofSymbol (isAtom_of_isSymbol h.1), lawful_ofSymbol symbol⟩
    exact lawfulLine_words (by decide) (by simpa using ⟨hsymbol, h.2.all⟩)
  | .otherwise, _ | .foreachElse, _ | .forElse, _ | .default, _ | .breakLoop, _
  | .continueLoop, _ | .close, _ | .begin, _ => lawfulLine_word (by decide)

end

end Stencil
