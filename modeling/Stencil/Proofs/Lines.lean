import Stencil.Proofs.Forms
import Stencil.Script.Step
import Stencil.Template.Compile

/-!
# Statements as lines

A statement is a word and its arguments, and is read back as a line with that word. A script holds
the lines of its statements, whatever markers stand between them.
-/

namespace Stencil

open Form Script Text

/-! ## Arguments -/

/-- The text is one line at most, and is read as the form. -/
structure Form.Spells (t : Text) (f : Form) : Prop where
  reads : Reads t f
  oneLine : OneLine t

theorem Form.spells_atom {t : Text} (h : isAtom t = true) : Form.Spells t (.atom t) :=
  ⟨reads_atom h, oneLine_of_isAtom h⟩

theorem Form.spells_encode (t : Text) : Form.Spells (Quoted.encode t) (.string t) :=
  ⟨reads_encode t, Quoted.oneLine_encode t⟩

theorem Expr.spells_code {e : Expr} (h : e.Clean) : Form.Spells e.code e.form :=
  ⟨reads_code h, oneLine_code h⟩

/-- The text is one line at most, and is read as these forms. -/
structure Form.SpellsAll (t : Text) (forms : List Form) : Prop where
  reads : ReadsAll t forms
  oneLine : OneLine t

theorem Form.Spells.all {t : Text} {f : Form} (h : Form.Spells t f) : Form.SpellsAll t [f] :=
  ⟨h.reads, h.oneLine⟩

theorem Form.spellsAll_of_spells {parts : List Text} {forms : List Form}
    (h : List.Forall₂ Form.Spells parts forms) :
    List.Forall₂ Form.SpellsAll parts (forms.map ([·])) :=
  List.forall₂_map_right_iff.mpr (h.imp fun _ _ hpart => hpart.all)

theorem Form.reads_of_spells {parts : List Text} {forms : List (List Form)}
    (h : List.Forall₂ Form.SpellsAll parts forms) : List.Forall₂ ReadsAll parts forms :=
  h.imp fun _ _ hpart => hpart.reads

theorem Form.oneLine_of_spells {parts : List Text} {forms : List (List Form)}
    (h : List.Forall₂ Form.SpellsAll parts forms) : ∀ part ∈ parts, OneLine part := by
  induction h with
  | nil => simp
  | cons hpart _ ih => simpa using ⟨hpart.oneLine, ih⟩

theorem Form.spells_formAll {head : Text} (hhead : isAtom head = true) {parts : List Text}
    {forms : List (List Form)} (h : List.Forall₂ Form.SpellsAll parts forms) :
    Form.Spells (Stencil.form head parts) (.list (.atom head :: forms.flatten)) :=
  ⟨reads_formAll hhead (reads_of_spells h),
    oneLine_form (oneLine_of_isAtom hhead) (oneLine_of_spells h)⟩

theorem Form.spells_form {head : Text} (hhead : isAtom head = true) {parts : List Text}
    {forms : List Form} (h : List.Forall₂ Form.Spells parts forms) :
    Form.Spells (Stencil.form head parts) (.list (.atom head :: forms)) := by
  have hform := spells_formAll hhead (spellsAll_of_spells h)
  rwa [← List.flatMap_def, List.flatMap_singleton'] at hform

/-! ## Words and arguments -/

theorem Script.cut?_of_notMem {c : Char} {t : Text} (h : c ∉ t) (rest : Text) :
    Text.cut? [c] (t ++ c :: rest) = some (t, rest) := by
  induction t with
  | nil => simp [Text.cut?]
  | cons x t ih =>
    have hx : c ≠ x ∧ c ∉ t := by simpa using h
    rw [List.cons_append, Text.cut?, if_neg (by simp [hx.1]), ih hx.2]
    rfl

theorem Script.cut?_eq_none {c : Char} {t : Text} (h : c ∉ t) : Text.cut? [c] t = none := by
  induction t with
  | nil => rfl
  | cons x t ih =>
    have hx : c ≠ x ∧ c ∉ t := by simpa using h
    rw [Text.cut?, if_neg (by simp [hx.1]), ih hx.2]
    rfl

/-- A word that a statement can start with. -/
def Script.IsWord (word : Text) : Prop :=
  word ≠ [] ∧ ' ' ∉ word ∧ isMarker word = false ∧ OneLine word

instance : DecidablePred Script.IsWord :=
  fun _ => inferInstanceAs (Decidable (_ ∧ _ ∧ _ ∧ _))

theorem Statement.words_cons (word : Text) (arguments : List Text) :
    words (word :: arguments) = word ++ arguments.flatMap (' ' :: ·) := by
  induction arguments generalizing word with
  | nil => simp [words]
  | cons argument more ih =>
    rw [words, ih, List.flatMap_cons, List.cons_append]
    simp

theorem Script.read?_words {word : Text} (hword : ' ' ∉ word) {parts : List Text}
    {forms : List (List Form)} (h : List.Forall₂ ReadsAll parts forms) :
    Line.read? (Statement.words (word :: parts)) = some ⟨word, forms.flatten⟩ := by
  have hall : readFrom [] [] (parts.flatMap (' ' :: ·) ++ []) =
      readFrom [] (forms.flatten.reverse ++ []) [] := readFrom_parts h [] [] (by simp)
  simp only [List.append_nil, readFrom_nil, List.reverse_reverse] at hall
  rw [Statement.words_cons]
  cases parts with
  | nil =>
    rw [List.flatMap_nil, List.append_nil]
    rw [List.flatMap_nil] at hall
    simp [Line.read?, splitWord, cut?_eq_none hword, readAll, hall]
  | cons part parts =>
    rw [List.flatMap_cons, List.cons_append] at hall ⊢
    rw [readFrom_blank _ _ (by decide)] at hall
    simp [Line.read?, splitWord, cut?_of_notMem hword, readAll, hall]

/-- The text is one line of a script, and is read as `line`. -/
structure Script.Shows (text : Text) (line : Line) : Prop where
  read_eq : Line.read? text = some line
  oneLine : OneLine text
  ne_nil : text ≠ []
  not_marker : isMarker text = false

theorem Script.shows_wordsAll {word : Text} (hword : IsWord word) {parts : List Text}
    {forms : List (List Form)} (h : List.Forall₂ Form.SpellsAll parts forms) :
    Shows (Statement.words (word :: parts)) ⟨word, forms.flatten⟩ := by
  obtain ⟨hne, hspace, hmarker, hone⟩ := hword
  obtain ⟨c, rest, rfl⟩ := List.exists_cons_of_ne_nil hne
  refine ⟨read?_words hspace (reads_of_spells h), ?_, ?_, ?_⟩ <;> rw [Statement.words_cons]
  · exact hone.append (.flatMap fun t ht => .cons (by decide) (oneLine_of_spells h t ht))
  · simp
  · exact hmarker

theorem Script.shows_words {word : Text} (hword : IsWord word) {parts : List Text}
    {forms : List Form} (h : List.Forall₂ Form.Spells parts forms) :
    Shows (Statement.words (word :: parts)) ⟨word, forms⟩ := by
  have hshows := shows_wordsAll hword (spellsAll_of_spells h)
  rwa [← List.flatMap_def, List.flatMap_singleton'] at hshows

/-! ## Statements -/

namespace Param

def Clean : Param → Prop
  | .named name value => isAtom name = true ∧ value.Clean
  | .positional value => value.Clean

def form : Param → Form
  | .named name value => .list [.atom name, value.form]
  | .positional value => .list [.atom "arg", value.form]

def listForm (params : List Param) : Form := .list (.atom "params" :: params.map form)

theorem spells_code : ∀ {p : Param}, p.Clean → Form.Spells p.code p.form
  | .named _ _, h => spells_form h.1 (.cons (Expr.spells_code h.2) .nil)
  | .positional _, h => spells_form (by decide) (.cons (Expr.spells_code h) .nil)

theorem spells_listCode {params : List Param} (h : ∀ p ∈ params, p.Clean) :
    Form.Spells (listCode params) (listForm params) := by
  refine spells_form (by decide) ?_
  induction params with
  | nil => exact .nil
  | cons p more ih =>
    exact .cons (spells_code (h p (by simp))) (ih fun q hq => h q (by simp [hq]))

end Param

namespace Statement

/-- What a tag of the standard dialect may give: all parts can be read back. -/
def Clean : Statement → Prop
  | .text _ | .block _ => True
  | .echo value | .ifThen value | .elseIf value | .whileLoop value | .switch value | .case value
  | .parent value => value.Clean
  | .echoCall symbol params => isAtom symbol = true ∧ ∀ p ∈ params, p.Clean
  | .set target value => target.Clean ∧ value.Clean
  | .foreach items key value => items.Clean ∧ isAtom (key.getD ['_']) = true ∧ isAtom value = true
  | .forRange name first last step =>
    isAtom name = true ∧ first.Clean ∧ last.Clean ∧ step.Clean
  | .inclusion _ name params => name.Clean ∧ ∀ p ∈ params, p.Clean
  | .finish symbol params => isAtom symbol = true ∧ ∃ f, Form.Spells params f
  | .otherwise | .foreachElse | .forElse | .default | .breakLoop | .continueLoop | .close
  | .begin => True
  | .code _ => False

def line : Statement → Line
  | .text value => ⟨"text", [.string value]⟩
  | .echo value => ⟨"echo", [value.form]⟩
  | .echoCall symbol params =>
    ⟨"echo", [.list [.atom "call", .atom symbol, Param.listForm params]]⟩
  | .set target value => ⟨"set", [target.form, value.form]⟩
  | .ifThen condition => ⟨"if", [condition.form]⟩
  | .elseIf condition => ⟨"elseif", [condition.form]⟩
  | .otherwise => ⟨"else", []⟩
  | .foreach items key value => ⟨"foreach", [items.form, .atom (key.getD ['_']), .atom value]⟩
  | .foreachElse => ⟨"foreachelse", []⟩
  | .forRange name first last step => ⟨"for", [.atom name, first.form, last.form, step.form]⟩
  | .forElse => ⟨"forelse", []⟩
  | .whileLoop condition => ⟨"while", [condition.form]⟩
  | .switch subject => ⟨"switch", [subject.form]⟩
  | .case value => ⟨"case", [value.form]⟩
  | .default => ⟨"default", []⟩
  | .breakLoop => ⟨"break", []⟩
  | .continueLoop => ⟨"continue", []⟩
  | .close => ⟨"end", []⟩
  | .block name => ⟨"block", [.string name]⟩
  | .parent name => ⟨"extends", [name.form]⟩
  | .inclusion embedded name params =>
    ⟨if embedded then "embed" else "include", [name.form, Param.listForm params]⟩
  | .begin => ⟨"begin", []⟩
  | .finish symbol params => ⟨"finish", .atom symbol :: (readAll params).getD []⟩
  | .code _ => ⟨[], []⟩

theorem readAll_of_spells {t : Text} {f : Form} (h : Form.Spells t f) : readAll t = some [f] := by
  have hread := h.reads [] [] [] (by simp)
  rw [List.append_nil, readFrom_nil] at hread
  exact hread

theorem Clean.shows : ∀ {s : Statement}, s.Clean → Shows s.render s.line
  | .text value, _ | .block value, _ => shows_words (by decide) (.cons (spells_encode value) .nil)
  | .echo _, h | .ifThen _, h | .elseIf _, h | .whileLoop _, h | .switch _, h | .case _, h
  | .parent _, h => shows_words (by decide) (.cons (Expr.spells_code h) .nil)
  | .echoCall _ _, h =>
    shows_words (by decide) (.cons (spells_form (by decide)
      (.cons (spells_atom h.1) (.cons (Param.spells_listCode h.2) .nil))) .nil)
  | .set _ _, h =>
    shows_words (by decide) (.cons (Expr.spells_code h.1) (.cons (Expr.spells_code h.2) .nil))
  | .foreach _ _ _, h =>
    shows_words (by decide) (.cons (Expr.spells_code h.1)
      (.cons (spells_atom h.2.1) (.cons (spells_atom h.2.2) .nil)))
  | .forRange _ _ _ _, h =>
    shows_words (by decide) (.cons (spells_atom h.1) (.cons (Expr.spells_code h.2.1)
      (.cons (Expr.spells_code h.2.2.1) (.cons (Expr.spells_code h.2.2.2) .nil))))
  | .inclusion embedded _ _, h => by
    have hword : IsWord (if embedded then "embed" else "include") := by cases embedded <;> decide
    exact shows_words hword (.cons (Expr.spells_code h.1) (.cons (Param.spells_listCode h.2) .nil))
  | .finish symbol params, h => by
    obtain ⟨hsymbol, f, hf⟩ := h
    have hline : (Statement.finish symbol params).line =
        ⟨"finish", .atom symbol :: (readAll params).getD []⟩ := rfl
    rw [hline, readAll_of_spells hf]
    exact shows_words (by decide) (.cons (spells_atom hsymbol) (.cons hf .nil))
  | .otherwise, _ | .foreachElse, _ | .forElse, _ | .default, _ | .breakLoop, _
  | .continueLoop, _ | .close, _ | .begin, _ => shows_words (by decide) .nil

end Statement

/-! ## Scripts -/

/-- A line of a script that is no marker and not empty. -/
def Script.isCode (text : Text) : Bool := !isMarker text && !text.isEmpty

namespace Template.Output

/-- The output so far holds these lines and markers between them. -/
structure Holds (o : Output) (lines : List Line) : Prop where
  oneLine : ∀ l ∈ o.lines, OneLine l
  read_eq : (o.lines.filter isCode).mapM Line.read? = some lines
  markers : ∀ l ∈ o.lines, isCode l = true ∨ ∃ n, l = marker n

theorem Holds.empty : Holds {} [] := ⟨by simp [Output.lines], rfl, by simp [Output.lines]⟩

theorem oneLine_marker (line : Nat) : OneLine (marker line) := by
  refine .cons (by decide) fun c hc => ?_
  have hdigit : c.isDigit = true := Nat.isDigit_of_mem_toDigits (by decide) (by decide) hc
  refine ⟨?_, ?_⟩ <;> rintro rfl <;> exact absurd hdigit (by decide)

variable {o : Output} {lines : List Line} {text : Text} {line : Line}

theorem Holds.add {o' : Output} (h : Holds o lines) (hshows : Shows text line)
    (markers : List Text) (hmarkers : ∀ m ∈ markers, ∃ n, m = marker n)
    (heq : o'.lines = o.lines ++ (markers ++ [text])) : Holds o' (lines ++ [line]) := by
  have hcode : isCode text = true := by
    simp [isCode, hshows.not_marker, hshows.ne_nil]
  have hnone : markers.filter isCode = [] := by
    refine List.filter_eq_nil_iff.mpr fun m hm => ?_
    obtain ⟨n, rfl⟩ := hmarkers m hm
    simp [isCode, isMarker, marker]
  refine ⟨?_, ?_, ?_⟩
  · intro l hl
    rw [heq, List.mem_append, List.mem_append, List.mem_singleton] at hl
    rcases hl with hl | hl | rfl
    · exact h.oneLine l hl
    · obtain ⟨n, rfl⟩ := hmarkers l hl
      exact oneLine_marker n
    · exact hshows.oneLine
  · rw [heq, List.filter_append, List.filter_append, hnone, List.nil_append]
    simp [List.mapM_append, h.read_eq, hcode, hshows.read_eq]
  · intro l hl
    rw [heq, List.mem_append, List.mem_append, List.mem_singleton] at hl
    rcases hl with hl | hl | rfl
    · exact h.markers l hl
    · exact .inr (hmarkers l hl)
    · exact .inl hcode

theorem Holds.addText (h : Holds o lines) (value : Text) :
    Holds (o.addText value) (lines ++ [(Statement.text value).line]) := by
  have hshows := Statement.Clean.shows (s := .text value) trivial
  exact h.add hshows [] (by simp) (lines_addText o value)

theorem Holds.addShown {statement : Statement} (h : Holds o lines)
    (hshows : Shows statement.render line) (n : Nat) :
    Holds (o.addStatement n statement) (lines ++ [line]) := by
  refine h.add hshows (o.markers n) ?_ ?_
  · intro m hm
    unfold Output.markers at hm
    split at hm
    · simp at hm
    · exact ⟨n, by simpa using hm⟩
  · rw [lines_addStatement o n hshows.ne_nil, Text.lines_eq hshows.oneLine hshows.ne_nil]

theorem Holds.addStatement {statement : Statement} (h : Holds o lines) (hclean : statement.Clean)
    (n : Nat) : Holds (o.addStatement n statement) (lines ++ [statement.line]) :=
  h.addShown hclean.shows n

theorem Holds.lines_eq (h : Holds o lines) : o.script.lines = o.lines :=
  Text.lines_flatMap h.oneLine

theorem Holds.lines? (h : Holds o lines) : Script.lines? o.script = some lines := by
  unfold Script.lines?
  rw [h.lines_eq]
  exact h.read_eq

end Template.Output

end Stencil
