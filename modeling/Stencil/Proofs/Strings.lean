import Stencil.Proofs.Gathered
import Stencil.Proofs.Lines
import Stencil.Proofs.Separated
import Stencil.Script.Run

/-!
# Strings from the template to the page

A string that a tag prints is unquoted, quoted again for the script and unquoted by the run. What
reaches the page is the string itself, between the texts around the tag.
-/

namespace Stencil

open Grammar Script Segment Template

/-! ## Spelling a string -/

/-- The string between quotes, with a backslash before each backslash and each of these quotes. -/
def quotedWith (quote : Char) (s : Text) : Text :=
  quote :: (s.flatMap (fun c => if c = '\\' ∨ c = quote then ['\\', c] else [c]) ++ [quote])

namespace Literal

/-- The literal that has a backslash only where it needs one. -/
def spelling (double : Bool) (s : Text) : Literal where
  double
  inside := s.map fun c => (decide (c = '\\' ∨ c = if double then '"' else '\x27'), c)
  closed := by
    intro c hc
    obtain ⟨_, -, heq⟩ := List.mem_map.mp hc
    obtain ⟨hplain, rfl⟩ := Prod.mk.inj heq
    simpa using hplain

variable (double : Bool) (s : Text)

theorem text_spelling : (spelling double s).text = quotedWith (spelling double s).quote s := by
  unfold text quotedWith insideText spelling
  rw [List.flatMap_map]
  congr 3
  funext c
  by_cases hc : c = '\\' ∨ c = if double then '"' else '\x27' <;> simp [hc, partText, quote]

theorem value_spelling : (spelling double s).value = s := by
  have hpart (c : Char) : partValue (spelling double s).quote
      (decide (c = '\\' ∨ c = if double then '"' else '\x27'), c) = [c] := by
    by_cases hc : c = '\\' ∨ c = if double then '"' else '\x27'
    · simp only [hc, decide_true, partValue, Token.escaped]
      rw [if_pos (by simpa [quote, spelling] using hc)]
    · simp only [hc, decide_false, partValue]
  have hinside : (spelling double s).inside =
      s.map fun c => (decide (c = '\\' ∨ c = if double then '"' else '\x27'), c) := rfl
  rw [value, hinside, List.flatMap_map]
  simp only [hpart, List.flatMap_singleton']

end Literal

/-! ## Steps that only print -/

namespace Script

/-- Whatever the state, the step prints the text and the next one follows. -/
def Prints (step : Step) (text : Text) : Prop :=
  ∀ run bound s, runStep run bound step s = .done (.normal, s.print text)

theorem prints_text (t : Text) : Prints (.text t) t := fun _ _ _ => rfl

theorem prints_string (t : Text) : Prints (.echo (.string t)) t := by
  intro run bound s
  show Outcome.done (Flow.normal, s.print (String.ofList t).toList) = _
  rw [String.toList_ofList]

theorem runSteps_prints {steps : List Step} {texts : List Text}
    (h : List.Forall₂ Prints steps texts) {fuel : Nat} (hfuel : steps.length < fuel) (s : State) :
    ∃ s' : State, runSteps fuel steps s = .done (.normal, s') ∧
      s'.output = s.output ++ texts.flatten := by
  induction h generalizing fuel s with
  | nil =>
    obtain ⟨n, rfl⟩ := Nat.exists_eq_add_of_lt hfuel
    exact ⟨s, by rfl, by simp⟩
  | @cons step text steps texts hstep _ ih =>
    rw [List.length_cons] at hfuel
    obtain ⟨n, rfl⟩ : ∃ n, fuel = n + 1 := ⟨fuel - 1, by omega⟩
    obtain ⟨s', hrun, houtput⟩ := ih (by omega : steps.length < n) (s.print text)
    refine ⟨s', ?_, ?_⟩
    · rw [runSteps, hstep]
      exact hrun
    · rw [houtput, State.output_print, List.flatten_cons, List.append_assoc]

theorem render_of_prints {code : Text} {steps : List Step} {texts : List Text}
    (hparse : parse code = some steps) (h : List.Forall₂ Prints steps texts) {fuel : Nat}
    (hfuel : steps.length < fuel) (bindings : Variables) :
    render fuel code bindings = .done texts.flatten := by
  obtain ⟨s, hrun, houtput⟩ := runSteps_prints h hfuel { bindings }
  have hstart : State.output { bindings } = [] := rfl
  rw [hstart, List.nil_append] at houtput
  rw [← houtput, render, hparse]
  simp only [Outcome.ofOption, bind, Outcome.bind, hrun]
  rfl

end Script

/-! ## Text around a tag -/

/-- The line of a text; an empty text has none. -/
def textLines (t : Text) : List Line := if t.isEmpty then [] else [(Statement.text t).line]

def textSteps (t : Text) : List Step := if t.isEmpty then [] else [.text t]

theorem gathers_textLines (t : Text) : Written.Gathers (textLines t) (textSteps t) := by
  unfold textLines textSteps
  split
  · exact .nil
  · exact .of_step (by decide) fun _ _ _ => rfl

theorem gathers_echo (t : Text) :
    Written.Gathers [(Statement.echo (.string t)).line] [.echo (.string t)] :=
  .of_step (by decide) fun _ _ _ => rfl

theorem parse_script {output : Output} {lines : List Line} {steps : List Step}
    (h : output.Holds lines) (hgathers : Written.Gathers lines steps) :
    parse output.script = some steps := by
  have hread := hgathers.readBody_all (Nat.le_refl _)
  unfold parse
  rw [h.lines?]
  simp [hread]

theorem length_textSteps (t : Text) : (textSteps t).length ≤ 1 := by
  unfold textSteps
  split <;> simp

theorem prints_textSteps (t : Text) :
    ∃ texts : List Text, List.Forall₂ Prints (textSteps t) texts ∧ texts.flatten = t := by
  unfold textSteps
  split
  · rename_i hempty
    exact ⟨[], .nil, by simpa using hempty.symm⟩
  · exact ⟨[t], .cons (prints_text t) .nil, by simp⟩

theorem foldlM_literals (d : Dialect) (options : Options) (name : Text) (t : Text)
    {p : Progress} {lines : List Line} (h : p.output.Holds lines) :
    ∃ output, (literals t).foldlM (compileSegment d options name) p = .ok { p with output } ∧
      output.Holds (lines ++ textLines t) := by
  unfold literals textLines
  split
  · exact ⟨p.output, rfl, by simpa using h⟩
  · exact ⟨p.output.addText t, rfl, h.addText t⟩

theorem scan_tag_between {words : List Word} (h : IsTag words) {front back : Text}
    (hfront : '\x7b' ∉ front) (hback : '\x7b' ∉ back) :
    ∃ line, scan (front ++ ((Part.tag words).source ++ back)) =
      { segments := literals front ++ (.tag line (Word.join words) :: literals back) } := by
  obtain ⟨line, hscan⟩ := scanFrom_tag_part h 1 {} front (cut?_eq_none hfront) back
  refine ⟨line, ?_⟩
  rw [scan, hscan, scanFrom_none (cut?_eq_none hback)]
  simp [Scan.after]

/-! ## Printing a string -/

theorem compileSegment_literal (d : Dialect) (options : Options) (name : Text) (line : Nat)
    (literal : Literal) (output : Output) :
    compileSegment d options name ⟨[], output⟩
        (.tag line (Word.join ((Written.Tree.string literal).words []))) =
      .ok ⟨[], output.addStatement line (.echo (.string literal.value))⟩ := by
  have hpermitted : (Written.Tree.string literal).Permitted (d.scope options) := trivial
  refine compileSegment_tag (Written.Tree.isTag hpermitted).apart (fun n => ?_) name output
  apply passes_content_of_expression (by simp) (by simp)
  exact (Written.Tree.passes_last hpermitted).bind_pure

/--
A string between quotes, each quote and backslash in it behind a backslash, reaches the page as it
is, and so do the texts around its tag.
-/
theorem render_quoted (d : Dialect) (options : Options) (name : Text) {quote : Char}
    (hquote : quote = '"' ∨ quote = '\x27') (s : Text) {front back : Text}
    (hfront : '\x7b' ∉ front) (hback : '\x7b' ∉ back) :
    ∃ code, compile d options name (front ++ '\x7b' :: (quotedWith quote s ++ '\x7d' :: back)) =
        .ok code ∧
      ∀ (bindings : Variables) (fuel : Nat), 4 ≤ fuel →
        render fuel code bindings = .done (front ++ s ++ back) := by
  obtain ⟨literal, htext, hvalue⟩ :
      ∃ literal : Literal, literal.text = quotedWith quote s ∧ literal.value = s := by
    rcases hquote with rfl | rfl
    · exact ⟨.spelling true s, Literal.text_spelling true s, Literal.value_spelling true s⟩
    · exact ⟨.spelling false s, Literal.text_spelling false s, Literal.value_spelling false s⟩
  have hpermitted : (Written.Tree.string literal).Permitted (d.scope options) := trivial
  obtain ⟨line, hscan⟩ := scan_tag_between (Written.Tree.isTag hpermitted) hfront hback
  have hsource : (Part.tag ((Written.Tree.string literal).words [])).source ++ back =
      '\x7b' :: (quotedWith quote s ++ '\x7d' :: back) := by
    simp [Part.source, Written.Tree.words, htext]
  rw [hsource] at hscan
  -- The three parts of the script: the text before, the string, the text behind.
  obtain ⟨first, hfirst, hholds⟩ := foldlM_literals d options name front (p := {}) .empty
  have hclean : (Statement.echo (.string literal.value)).Clean := trivial
  have hecho := hholds.addStatement hclean line
  obtain ⟨last, hlast, hholds⟩ := foldlM_literals d options name back
    (p := ⟨[], first.addStatement line (.echo (.string literal.value))⟩) hecho
  refine ⟨last.script, ?_, fun bindings fuel hfuel => ?_⟩
  · unfold compile
    rw [hscan]
    simp only [List.foldlM_append, List.foldlM_cons, hfirst, compileSegment_literal, bind,
      Except.bind, hlast]
    rfl
  · have hgathers := (gathers_textLines front).append (.append (gathers_echo literal.value)
      (gathers_textLines back))
    rw [List.append_assoc] at hholds
    obtain ⟨before, hbefore, hfront⟩ := prints_textSteps front
    obtain ⟨after, hafter, hback⟩ := prints_textSteps back
    have hprints := List.rel_append hbefore (.cons (prints_string literal.value) hafter)
    have hlength : (textSteps front ++ ([Step.echo (.string literal.value)] ++ textSteps back)).length <
        fuel := by
      have := length_textSteps front
      have := length_textSteps back
      simp only [List.length_append, List.length_singleton]
      omega
    rw [render_of_prints (parse_script hholds hgathers) hprints hlength bindings]
    simp [hfront, hback, hvalue]

theorem render_quoted_hostile :
    '\x7b' ∉ ['a', '\x7d'] ∧ '\x7b' ∉ ['"', '\\'] ∧
      quotedWith '\x27' "'\"\\n\x7b\n\u00e9".toList = "'\\'\"\\\\n\x7b\n\u00e9'".toList ∧
      ∃ code, compile Dialect.standard ⟨0x70⟩ "page"
          (['a', '\x7d'] ++ '\x7b' :: (quotedWith '\x27' "'\"\\n\x7b\n\u00e9".toList ++
            '\x7d' :: ['"', '\\'])) = .ok code ∧
        ∀ (bindings : Variables) (fuel : Nat), 4 ≤ fuel → render fuel code bindings =
          .done (['a', '\x7d'] ++ "'\"\\n\x7b\n\u00e9".toList ++ ['"', '\\']) := by
  refine ⟨by decide, by decide, by decide +kernel, ?_⟩
  exact render_quoted Dialect.standard ⟨0x70⟩ "page" (.inr rfl) _ (by decide) (by decide)

end Stencil
