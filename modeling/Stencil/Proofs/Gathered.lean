import Stencil.Proofs.Page

/-!
# Gathering the lines of a script

The lines of a written template, one for each statement, are gathered into the steps that the
template is meant to do, at every depth.
-/

namespace Stencil.Written

open Script

/-! ## The lines of a template -/

def endLine : Line := ⟨"end", []⟩

/-- The line of a loop over a list. -/
def foreachLine (scope : Scope) (list : Tree) (key : Option KeyName) (value : Identifier) : Line :=
  ⟨"foreach", [(list.expr scope).form, .atom ((key.map (·.val)).getD ['_']), .atom value.val]⟩

mutual

def Node.lines (scope : Scope) : Node → List Line
  | .text value => [⟨"text", [.string value.val]⟩]
  | .echo value => [⟨"echo", [(value.expr scope).form]⟩]
  | .set place value => [⟨"set", [(place.expr scope).form, (value.expr scope).form]⟩]
  | .branch condition body others =>
    ⟨"if", [(condition.expr scope).form]⟩ ::
      (lines scope body ++ (others.lines scope "elseif" "else" ++ [endLine]))
  | .foreach list key value body otherwise =>
    foreachLine scope list key value ::
      (lines scope body ++ (elseLines scope "foreachelse" otherwise ++ [endLine]))
  | .forRange name first last step body otherwise =>
    ⟨"for", [.atom name.val, (first.expr scope).form, (last.expr scope).form,
        (step.expr scope).form]⟩ ::
      (lines scope body ++ (elseLines scope "forelse" otherwise ++ [endLine]))
  | .whileLoop condition body =>
    ⟨"while", [(condition.expr scope).form]⟩ :: (lines scope body ++ [endLine])
  | .switch subject body cases =>
    ⟨"switch", [(subject.expr scope).form]⟩ ::
      (lines scope body ++ (cases.lines scope "case" "default" ++ [endLine]))
  | .breakLoop => [⟨"break", []⟩]
  | .continueLoop => [⟨"continue", []⟩]

def lines (scope : Scope) : List Node → List Line
  | [] => []
  | node :: more => node.lines scope ++ lines scope more

def Arms.lines (scope : Scope) (next last : Text) : Arms → List Line
  | .none => []
  | .last body => ⟨last, []⟩ :: Written.lines scope body
  | .next value body others =>
    ⟨next, [(value.expr scope).form]⟩ :: (Written.lines scope body ++ others.lines scope next last)

def elseLines (scope : Scope) (name : Text) : Option (List Node) → List Line
  | none => []
  | some body => ⟨name, []⟩ :: lines scope body

end

/-! ## Bodies -/

/-- The words that a body may end with. -/
def stopWords : List Text := ["elseif", "else", "foreachelse", "forelse", "end"]

/-- Wherever a body is read, the lines come to the steps, and the reader goes on behind them. -/
def Gathers (lines : List Line) (steps : List Step) : Prop :=
  ∀ depth stops rest, stops ⊆ stopWords → (lines ++ rest).length ≤ depth →
    ∃ depth', rest.length ≤ depth' ∧ readBody depth stops (lines ++ rest) =
      (readBody depth' stops rest).map fun (more, stop?, rest) => (steps ++ more, stop?, rest)

namespace Gathers

variable {lines others : List Line} {steps more : List Step}

theorem nil : Gathers [] [] := by
  intro depth stops rest _ hdepth
  exact ⟨depth, by simpa using hdepth, by simp⟩

theorem append (h : Gathers lines steps) (hothers : Gathers others more) :
    Gathers (lines ++ others) (steps ++ more) := by
  intro depth stops rest hstops hdepth
  rw [List.append_assoc] at hdepth ⊢
  obtain ⟨depth', hdepth', hread⟩ := h depth stops (others ++ rest) hstops hdepth
  obtain ⟨depth'', hdepth'', hread'⟩ := hothers depth' stops rest hstops hdepth'
  refine ⟨depth'', hdepth'', ?_⟩
  rw [hread, hread']
  simp [Function.comp_def]

theorem of_step {word : Text} {arguments : List Form} {tail : List Line} {step : Step}
    (hword : word ∉ stopWords)
    (h : ∀ depth rest, (tail ++ rest).length ≤ depth →
      readStep (readBody depth) ⟨word, arguments⟩ (tail ++ rest) = some (step, rest)) :
    Gathers (⟨word, arguments⟩ :: tail) [step] := by
  intro depth stops rest hstops hdepth
  rw [List.cons_append, List.length_cons] at hdepth
  obtain ⟨d, rfl⟩ : ∃ d, depth = d + 1 := ⟨depth - 1, by omega⟩
  refine ⟨d, ?_, ?_⟩
  · rw [List.length_append] at hdepth
    omega
  · have hnot : word ∉ stops := fun hmem => hword (hstops hmem)
    rw [List.cons_append, readBody, if_neg hnot, h d rest (by omega)]
    cases hr : readBody d stops rest <;> simp [hr]

theorem readBody_stop (h : Gathers lines steps) {stops : List Text} (hstops : stops ⊆ stopWords)
    {stop : Line} (hstop : stop.word ∈ stops) {rest : List Line} {depth : Nat}
    (hdepth : (lines ++ stop :: rest).length ≤ depth) :
    readBody depth stops (lines ++ stop :: rest) = some (steps, some stop, rest) := by
  obtain ⟨depth', hdepth', hread⟩ := h depth stops (stop :: rest) hstops hdepth
  rw [List.length_cons] at hdepth'
  obtain ⟨d, rfl⟩ : ∃ d, depth' = d + 1 := ⟨depth' - 1, by omega⟩
  rw [hread, readBody, if_pos hstop]
  simp

theorem readBody_all (h : Gathers lines steps) {depth : Nat} (hdepth : lines.length ≤ depth) :
    readBody depth [] lines = some (steps, none, []) := by
  obtain ⟨depth', -, hread⟩ := h depth [] [] (by simp) (by simpa using hdepth)
  rw [List.append_nil] at hread
  rw [hread]
  cases depth' <;> simp [readBody]

end Gathers

/-! ## Branches and loops -/

section Blocks

variable {scope : Scope} {body : List Line} {steps : List Step} {depth : Nat} {rest : List Line}

/-- What a branch makes of its further arms, behind a first body. -/
def ReadsArms (scope : Scope) (others : Arms) : Prop :=
  ∀ {body : List Line} {steps : List Step}, Gathers body steps →
    ∀ condition depth bound rest,
      (body ++ (others.lines scope "elseif" "else" ++ endLine :: rest)).length ≤ depth →
      (body ++ (others.lines scope "elseif" "else" ++ endLine :: rest)).length ≤ bound →
      readArms (readBody depth) bound condition
          (body ++ (others.lines scope "elseif" "else" ++ endLine :: rest)) =
        some (.mk condition steps :: others.branches scope, rest)

theorem readArms_stop (hbody : Gathers body steps) {word : Text} {arguments : List Form}
    (hstop : word ∈ (["elseif".toList, "else".toList, "end".toList] : List Text))
    (hdepth : (body ++ ⟨word, arguments⟩ :: rest).length ≤ depth) (bound : Nat)
    (condition : Option Form) :
    readArms (readBody depth) (bound + 1) condition (body ++ ⟨word, arguments⟩ :: rest) =
      if word = "end".toList then some ([.mk condition steps], rest)
      else (readArms (readBody depth) bound
        (if word = "elseif".toList then arguments.head? else none) rest).map
          fun (arms, rest) => (.mk condition steps :: arms, rest) := by
  rw [readArms, hbody.readBody_stop (by decide) hstop hdepth]
  simp only [Option.bind_eq_bind, Option.bind_some]
  split
  · rfl
  · cases hr : readArms (readBody depth) bound
      (if word = "elseif".toList then arguments.head? else none) rest <;> rfl

theorem readsArms_none : ReadsArms scope .none := by
  intro body steps hbody condition depth bound rest hdepth hbound
  simp only [Arms.lines, List.nil_append, List.length_append, List.length_cons] at hdepth hbound ⊢
  obtain ⟨b, rfl⟩ : ∃ b, bound = b + 1 := ⟨bound - 1, by omega⟩
  rw [endLine, readArms_stop hbody (by decide) (by simpa using hdepth)]
  rfl

theorem readsArms_last {nodes : List Node}
    (h : Gathers (lines scope nodes) (Written.steps scope nodes)) : ReadsArms scope (.last nodes) := by
  intro body steps hbody condition depth bound rest hdepth hbound
  simp only [Arms.lines, List.cons_append, List.length_append, List.length_cons] at hdepth hbound ⊢
  obtain ⟨b, rfl⟩ : ∃ b, bound = b + 1 := ⟨bound - 1, by omega⟩
  rw [readArms_stop hbody (by decide) (by simpa using hdepth)]
  have hnone : ReadsArms scope .none := readsArms_none
  have hlast := hnone h none depth b rest
    (by simp only [Arms.lines, List.nil_append, List.length_append, List.length_cons]; omega)
    (by simp only [Arms.lines, List.nil_append, List.length_append, List.length_cons]; omega)
  simp only [Arms.lines, List.nil_append] at hlast
  rw [if_neg (by decide), if_neg (by decide), hlast]
  rfl

theorem readsArms_next {value : Tree} {nodes : List Node} {others : Arms}
    (h : Gathers (lines scope nodes) (Written.steps scope nodes)) (hothers : ReadsArms scope others) :
    ReadsArms scope (.next value nodes others) := by
  intro body steps hbody condition depth bound rest hdepth hbound
  simp only [Arms.lines, List.cons_append, List.append_assoc, List.length_append,
    List.length_cons] at hdepth hbound ⊢
  obtain ⟨b, rfl⟩ : ∃ b, bound = b + 1 := ⟨bound - 1, by omega⟩
  rw [readArms_stop hbody (by decide) (by simpa using hdepth)]
  have hnext := hothers h (some (value.expr scope).form) depth b rest
    (by simp only [List.length_append, List.length_cons]; omega)
    (by simp only [List.length_append, List.length_cons]; omega)
  rw [if_neg (by decide), if_pos rfl]
  simp only [List.head?_cons]
  rw [hnext]
  rfl

theorem readElse_eq (hbody : Gathers body steps) {otherwise : Option (List Node)}
    (h : ∀ nodes ∈ otherwise, Gathers (lines scope nodes) (Written.steps scope nodes)) {name : Text}
    (hname : name ∈ (["foreachelse".toList, "forelse".toList] : List Text))
    (hdepth : (body ++ (elseLines scope name otherwise ++ endLine :: rest)).length ≤ depth) :
    readElse (readBody depth) name (body ++ (elseLines scope name otherwise ++ endLine :: rest)) =
      some (steps, elseSteps scope otherwise, rest) := by
  have hstops : ([name, "end".toList] : List Text) ⊆ stopWords := by
    simp only [List.mem_cons, List.not_mem_nil, or_false] at hname
    rcases hname with rfl | rfl <;> decide
  have hend : "end".toList ≠ name := by
    rintro rfl
    revert hname
    decide
  cases otherwise with
  | none =>
    simp only [elseLines, List.nil_append] at hdepth ⊢
    rw [readElse, hbody.readBody_stop hstops (by simp [endLine]) hdepth]
    simp only [Option.bind_eq_bind, Option.bind_some, endLine, if_neg hend]
    rfl
  | some nodes =>
    simp only [elseLines, List.cons_append] at hdepth ⊢
    rw [readElse, hbody.readBody_stop hstops (by simp) hdepth]
    have hnodes : readBody depth ["end".toList] (lines scope nodes ++ endLine :: rest) =
        some (Written.steps scope nodes, some endLine, rest) := by
      apply (h nodes rfl).readBody_stop (by decide) (by simp [endLine])
      simp only [List.length_append, List.length_cons] at hdepth ⊢
      omega
    simp only [Option.bind_eq_bind, Option.bind_some, if_true]
    rw [hnodes]
    rfl

end Blocks

section Steps

variable {body : BodyReader} {first last step : Form} {steps others : List Step}
  {rest rest' : List Line}

theorem readStep_if {arms : List Arm}
    (h : readArms body (rest.length + 1) (some first) rest = some (arms, rest')) :
    readStep body ⟨"if", [first]⟩ rest = some (.branch arms, rest') := by
  have hstep : readStep body ⟨"if", [first]⟩ rest =
      (readArms body (rest.length + 1) (some first) rest).bind
        fun r => some (.branch r.1, r.2) := rfl
  rw [hstep, h]
  rfl

theorem readStep_foreach {key value : Text}
    (h : readElse body "foreachelse" rest = some (steps, others, rest')) :
    readStep body ⟨"foreach", [first, .atom key, .atom value]⟩ rest =
      some (.foreach first (keyName key) value steps others, rest') := by
  have hstep : readStep body ⟨"foreach", [first, .atom key, .atom value]⟩ rest =
      (readElse body "foreachelse" rest).bind
        fun r => some (.foreach first (keyName key) value r.1 r.2.1, r.2.2) := rfl
  rw [hstep, h]
  rfl

theorem readStep_for {name : Text} (h : readElse body "forelse" rest = some (steps, others, rest')) :
    readStep body ⟨"for", [.atom name, first, last, step]⟩ rest =
      some (.forRange name first last step steps others, rest') := by
  have hstep : readStep body ⟨"for", [.atom name, first, last, step]⟩ rest =
      (readElse body "forelse" rest).bind
        fun r => some (.forRange name first last step r.1 r.2.1, r.2.2) := rfl
  rw [hstep, h]
  rfl

theorem readStep_while {stop? : Option Line} (h : body ["end"] rest = some (steps, stop?, rest')) :
    readStep body ⟨"while", [first]⟩ rest = some (.whileLoop first steps, rest') := by
  have hstep : readStep body ⟨"while", [first]⟩ rest =
      (body ["end"] rest).bind fun r => some (.whileLoop first r.1, r.2.2) := rfl
  rw [hstep, h]
  rfl

theorem readStep_switch {stop? : Option Line} (h : body ["end"] rest = some (steps, stop?, rest')) :
    readStep body ⟨"switch", [first]⟩ rest = some (.switch first steps, rest') := by
  have hstep : readStep body ⟨"switch", [first]⟩ rest =
      (body ["end"] rest).bind fun r => some (.switch first r.1, r.2.2) := rfl
  rw [hstep, h]
  rfl

end Steps

theorem keyName_eq (key : Option KeyName) :
    keyName ((key.map (·.val)).getD ['_']) = key.map (·.val) := by
  cases key with
  | none => rfl
  | some key => simp [keyName, key.property.2]

mutual

theorem Node.gathers (scope : Scope) : ∀ (node : Node), Gathers (node.lines scope) [node.step scope]
  | .text _ | .echo _ | .set _ _ | .breakLoop | .continueLoop => by
    refine .of_step (by decide) fun depth rest _ => ?_
    rfl
  | .branch condition body others => by
    refine .of_step (by decide) fun depth rest hdepth => ?_
    rw [List.append_assoc, List.append_assoc, List.singleton_append] at hdepth ⊢
    exact readStep_if (others.readsArms scope (gathers_all scope body)
      (some (condition.expr scope).form) depth _ rest hdepth (Nat.le_succ _))
  | .foreach list key value body otherwise => by
    refine .of_step (by decide) fun depth rest hdepth => ?_
    rw [List.append_assoc, List.append_assoc, List.singleton_append] at hdepth ⊢
    refine (readStep_foreach
      (readElse_eq (gathers_all scope body) (else_gathers scope otherwise) (by decide) hdepth)).trans ?_
    rw [keyName_eq]
    rfl
  | .forRange name first last step body otherwise => by
    refine .of_step (by decide) fun depth rest hdepth => ?_
    rw [List.append_assoc, List.append_assoc, List.singleton_append] at hdepth ⊢
    exact readStep_for
      (readElse_eq (gathers_all scope body) (else_gathers scope otherwise) (by decide) hdepth)
  | .whileLoop condition body => by
    refine .of_step (by decide) fun depth rest hdepth => ?_
    rw [List.append_assoc, List.singleton_append] at hdepth ⊢
    exact readStep_while ((gathers_all scope body).readBody_stop (by decide) (by decide) hdepth)
  | .switch subject body cases => by
    refine .of_step (by decide) fun depth rest hdepth => ?_
    rw [← List.append_assoc, List.append_assoc, List.singleton_append] at hdepth ⊢
    exact readStep_switch (((gathers_all scope body).append (cases.gathers_cases scope)).readBody_stop
      (by decide) (by decide) hdepth)

theorem gathers_all (scope : Scope) : ∀ (nodes : List Node),
    Gathers (lines scope nodes) (steps scope nodes)
  | [] => .nil
  | node :: more => (node.gathers scope).append (gathers_all scope more)

theorem Arms.readsArms (scope : Scope) : ∀ (others : Arms), ReadsArms scope others
  | .none => readsArms_none
  | .last body => readsArms_last (gathers_all scope body)
  | .next _ body others => readsArms_next (gathers_all scope body) (others.readsArms scope)

theorem Arms.gathers_cases (scope : Scope) : ∀ (cases : Arms),
    Gathers (cases.lines scope "case" "default") (cases.cases scope)
  | .none => .nil
  | .last body => by
    have hlast : Gathers [⟨"default", []⟩] [.default] := .of_step (by decide) fun _ _ _ => rfl
    exact hlast.append (gathers_all scope body)
  | .next value body others => by
    have hcase : Gathers [⟨"case", [(value.expr scope).form]⟩] [.case (value.expr scope).form] :=
      .of_step (by decide) fun _ _ _ => rfl
    exact hcase.append ((gathers_all scope body).append (others.gathers_cases scope))

theorem else_gathers (scope : Scope) : ∀ (otherwise : Option (List Node)),
    ∀ nodes ∈ otherwise, Gathers (lines scope nodes) (steps scope nodes)
  | none => by simp
  | some body => by simpa using gathers_all scope body

end

end Stencil.Written
