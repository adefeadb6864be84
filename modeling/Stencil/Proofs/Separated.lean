import Stencil.Proofs.Tags

/-!
# Telling the parts of a template apart

Every tag of a written template is cut out as a tag, and no two texts run together.
-/

namespace Stencil.Written

open Segment Word

/-! ## Tags -/

theorem head_ne_star {k : Kind} {t : Text} (h : Spells k t)
    (hk : ∀ s, k = .symbol s → s.head? ≠ some '*') : ∀ c ∈ t.head?, c ≠ '*' := by
  rintro c hc rfl
  cases h with
  | dollar h => simp at hc
  | name h =>
    rw [isName, Bool.and_eq_true] at h
    cases t with
    | nil => simp at hc
    | cons x rest =>
      obtain rfl : x = '*' := by simpa using hc
      exact absurd (isWord_cons.mp h.1).1 (by decide)
  | integer h =>
    obtain ⟨x, rest, rfl, hx, -⟩ := exists_cons_of_isDigits h
    obtain rfl : x = '*' := by simpa using hc
    exact absurd hx (by decide)
  | float d =>
    obtain ⟨x, rest, hwhole, hx, -⟩ := exists_cons_of_isDigits d.isDigits_whole
    obtain rfl : x = '*' := by simpa [Decimal.text, hwhole] using hc
    exact absurd hx (by decide)
  | quoted l =>
    have hquote : l.quote = '*' := by simpa [Literal.text] using hc
    unfold Literal.quote at hquote
    split at hquote <;> exact absurd hquote (by decide)
  | word | symbol => exact hk _ rfl hc

theorem StartsExpression.head_ne_star {s : Text} (h : StartsExpression (some (.symbol s))) :
    s.head? ≠ some '*' := by
  rcases h with h | h
  · rcases h with rfl | rfl <;> decide
  · simp only [List.map_cons, List.map_nil, List.mem_cons, List.not_mem_nil, or_false,
      Option.some.injEq, Kind.symbol.injEq] at h
    rcases h with rfl | rfl | rfl | rfl | rfl <;> decide

theorem Tree.isTag {scope : Scope} {t : Tree} (h : t.Permitted scope) : IsTag (t.words []) := by
  obtain ⟨w, rest, hwords, hname⟩ := t.plain h []
  have hstart := t.startsExpression [] none
  have hspells : Spells w.kind w.text := (t.flows []).spells w (by simp [hwords])
  refine ⟨t.apart, (t.flows []).ne_nil, ?_, ?_⟩
  · intro c hc
    rw [hwords, headKind_cons] at hstart
    refine Written.head_ne_star hspells (fun s hs => ?_) c ?_
    · rw [hs] at hstart
      exact hstart.head_ne_star
    · obtain ⟨x, tail, htext, -⟩ := Lexeme.first_of_spells hspells
      simpa [hwords, htext] using hc
  · -- `ignore` is no constant, and a call goes on behind its name.
    intro space hraw
    obtain ⟨rfl, rfl⟩ := List.cons.inj (hwords.symm.trans hraw)
    have hignore : rawTag ∉ Token.constants := by decide
    rcases hname rfl with hconstant | ⟨-, -, hparen⟩
    · exact absurd hconstant hignore
    · simp at hparen

theorem isTag_name {name space : Text} {words : List Word} (hname : isName name = true)
    (hraw : name ≠ rawTag) (hapart : Apart (⟨.name, name, space⟩ :: words)) :
    IsTag (⟨.name, name, space⟩ :: words) := by
  refine ⟨hapart, by simp, ?_, ?_⟩
  · intro c hc
    refine head_ne_star (.name hname) (by simp) c ?_
    cases name with
    | nil => simp [isName, isWord] at hname
    | cons x rest => simpa using hc
  · intro space' heq
    exact hraw (congrArg Word.text (List.cons.inj heq).1)

theorem isTag_tag {name : Text} {words : List Word} (hname : isName name = true)
    (hraw : name ≠ rawTag) (h : Flows words []) : IsTag (⟨.name, name, [' ']⟩ :: words) :=
  isTag_name hname hraw ((Flows.cons (.name hname) h).apart (by simp))

theorem isTag_bare {name : Text} (hname : isName name = true) (hraw : name ≠ rawTag) :
    IsTag [⟨.name, name, []⟩] :=
  isTag_name hname hraw ((Flows.one (.name hname) (by simp [colon, Word.spaced]) []).apart (by simp))

theorem isTag_close {name : Text} (hname : isName name = true) :
    IsTag [.symbol ['/'] [], ⟨.name, name, []⟩] := by
  have hword : isWord name = true := by
    rw [isName, Bool.and_eq_true] at hname
    exact hname.1
  have hapart : Apart [⟨.name, name, []⟩] :=
    (Flows.one (.name hname) (by simp [colon, Word.spaced]) []).apart (by simp)
  refine ⟨.slash hword hapart, by simp, ?_, by simp [Word.symbol]⟩
  intro c hc
  obtain rfl : '/' = c := by simpa [Word.symbol] using hc
  decide

/-! ## The words of loops -/

theorem flows_loopWords (key : Option KeyName) (value : Identifier) : Flows (loopWords key value) [] := by
  have hlast : Flows [variableWord value []] [] :=
    .one (.dollar value.property) (by simp [colon, Word.spaced]) []
  cases key with
  | none => exact hlast
  | some key => exact .cons (.dollar key.property.1) (.cons (.symbol (by decide)) hlast)

theorem flows_rangeWords (name : Identifier) (first last step : Tree) :
    Flows (rangeWords name first last step) [] := by
  refine .cons (.dollar name.property) (.cons (.symbol (by decide)) ?_)
  refine (first.flows [' ']).append (.cons (.name (by decide)) ?_)
  exact (last.flows [' ']).append (.cons (.name (by decide)) (step.flows []))

/-! ## Templates -/

/-- A text comes first. -/
def startsText (parts : List Part) : Bool := parts.head?.any Part.isText

theorem startsText_parts {nodes : List Node} (h : nodes.head?.any Node.isText = false)
    {rest : List Part} (hrest : startsText rest = false) : startsText (parts nodes ++ rest) = false := by
  cases nodes with
  | nil => exact hrest
  | cons node more =>
    cases node with
    | text value => simp [Node.isText] at h
    | _ => rfl

theorem startsText_arms (others : Arms) (next last : Text) {rest : List Part}
    (hrest : startsText rest = false) : startsText (others.parts next last ++ rest) = false := by
  cases others with
  | none => exact hrest
  | last | next => rfl

theorem startsText_else (otherwise : Option (List Node)) (name : Text) {rest : List Part}
    (hrest : startsText rest = false) : startsText (elseParts name otherwise ++ rest) = false := by
  cases otherwise with
  | none => exact hrest
  | some => rfl

/-- A word that a tag can start with. -/
def IsTagName (name : Text) : Prop := isName name = true ∧ name ≠ rawTag

instance : DecidablePred IsTagName := fun _ => inferInstanceAs (Decidable (_ ∧ _))

variable {scope : Scope}

mutual

theorem Node.separate : ∀ (node : Node) {inBreakable inLoop : Bool},
    node.Valid scope inBreakable inLoop → ∀ {rest : List Part}, Separate rest →
    (node.isText = true → startsText rest = false) → Separate (node.parts ++ rest)
  | .text value, _, _, _, _, hrest, hhead =>
    ⟨value.property.1, value.property.2, hhead rfl, hrest⟩
  | .echo _, _, _, h, _, hrest, _ => ⟨Tree.isTag h, hrest⟩
  | .set place value, _, _, _, _, hrest, _ =>
    ⟨isTag_tag (by decide) (by decide)
      ((place.flows [' ']).append (.cons (.symbol (by decide)) (value.flows []))), hrest⟩
  | .branch condition body others, _, _, h, rest, hrest, _ => by
    refine ⟨isTag_tag (by decide) (by decide) (condition.flows []), ?_⟩
    rw [List.append_eq, List.append_assoc, List.append_assoc]
    exact separate_all body h.2.1 (others.separate h.2.2 (by decide) (by decide)
      ⟨isTag_close (by decide), hrest⟩ rfl) (startsText_arms others _ _ rfl)
  | .foreach list key value body otherwise, _, _, h, rest, hrest, _ => by
    refine ⟨isTag_tag (by decide) (by decide)
      ((list.flows [' ']).append (.cons (.name (by decide)) (flows_loopWords key value))), ?_⟩
    rw [List.append_eq, List.append_assoc, List.append_assoc]
    exact separate_all body h.2.1 (separate_else otherwise h.2.2 (by decide)
      ⟨isTag_close (by decide), hrest⟩ rfl) (startsText_else otherwise _ rfl)
  | .forRange name first last step body otherwise, _, _, h, rest, hrest, _ => by
    refine ⟨isTag_tag (by decide) (by decide) (flows_rangeWords name first last step), ?_⟩
    rw [List.append_eq, List.append_assoc, List.append_assoc]
    exact separate_all body h.2.1 (separate_else otherwise h.2.2 (by decide)
      ⟨isTag_close (by decide), hrest⟩ rfl) (startsText_else otherwise _ rfl)
  | .whileLoop condition body, _, _, h, rest, hrest, _ => by
    refine ⟨isTag_tag (by decide) (by decide) (condition.flows []), ?_⟩
    rw [List.append_eq, List.append_assoc]
    exact separate_all body h.2 ⟨isTag_close (by decide), hrest⟩ rfl
  | .switch subject body cases, _, _, h, rest, hrest, _ => by
    refine ⟨isTag_tag (by decide) (by decide) (subject.flows []), ?_⟩
    rw [List.append_eq, List.append_assoc, List.append_assoc]
    exact separate_all body h.2.1 (cases.separate h.2.2 (by decide) (by decide)
      ⟨isTag_close (by decide), hrest⟩ rfl) (startsText_arms cases _ _ rfl)
  | .breakLoop, _, _, _, _, hrest, _ | .continueLoop, _, _, _, _, hrest, _ =>
    ⟨isTag_bare (by decide) (by decide), hrest⟩

theorem separate_all : ∀ (nodes : List Node) {inBreakable inLoop : Bool},
    AllValid scope inBreakable inLoop nodes → ∀ {rest : List Part}, Separate rest →
    startsText rest = false → Separate (parts nodes ++ rest)
  | [], _, _, _, _, hrest, _ => hrest
  | node :: more, _, _, h, rest, hrest, hstart => by
    have hmore := separate_all more h.2.2 hrest hstart
    rw [parts, List.append_assoc]
    exact node.separate h.1 hmore fun htext => startsText_parts (h.2.1 htext) hstart

theorem Arms.separate : ∀ (others : Arms) {inBreakable inLoop : Bool} {next last : Text},
    others.Valid scope inBreakable inLoop → IsTagName next → IsTagName last →
    ∀ {rest : List Part}, Separate rest → startsText rest = false →
    Separate (others.parts next last ++ rest)
  | .none, _, _, _, _, _, _, _, _, hrest, _ => hrest
  | .last body, _, _, _, _, h, _, hlast, _, hrest, hstart =>
    ⟨isTag_bare hlast.1 hlast.2, separate_all body h hrest hstart⟩
  | .next value body others, _, _, _, _, h, hnext, hlast, rest, hrest, hstart => by
    refine ⟨isTag_tag hnext.1 hnext.2 (value.flows []), ?_⟩
    rw [List.append_eq, List.append_assoc]
    exact separate_all body h.2.1 (others.separate h.2.2 hnext hlast hrest hstart)
      (startsText_arms others _ _ hstart)

theorem separate_else : ∀ (otherwise : Option (List Node)) {inBreakable inLoop : Bool} {name : Text},
    ElseValid scope inBreakable inLoop otherwise → IsTagName name → ∀ {rest : List Part},
    Separate rest → startsText rest = false → Separate (elseParts name otherwise ++ rest)
  | none, _, _, _, _, _, _, hrest, _ => hrest
  | some body, _, _, _, h, hname, _, hrest, hstart =>
    ⟨isTag_bare hname.1 hname.2, separate_all body h hrest hstart⟩

end

end Stencil.Written
