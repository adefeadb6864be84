import Stencil.Proofs.Gives
import Stencil.Proofs.Lines
import Stencil.Proofs.Nested

/-!
# What tags give

Whatever stands in a tag, a handler of the standard dialect that accepts it gives a statement on one
line, and its word is one that may come next.
-/

namespace Stencil

open Form (isAtom)
open Grammar Reading Script Tag Template

/-! ## Readers of tags -/

namespace Gives

theorem takeWord (word : Text) : Gives (takeWord word) fun _ => True := by
  intro c a c' hc heq
  unfold Reading.takeWord at heq
  split at heq
  · split at heq
    · cases heq
      exact ⟨trivial, hc.advance⟩
    · cases heq
  · cases heq

theorem takeAny : Gives takeAny fun _ => True := by
  intro c a c' hc heq
  unfold Reading.takeAny at heq
  split at heq
  · cases heq
    exact ⟨trivial, hc.advance⟩
  · cases heq

theorem collect (stops : List Want) : Gives (collect stops) fun _ => True := by
  intro c a c' hc heq
  cases heq
  exact ⟨trivial, hc.collect stops⟩

theorem splice (text : Text) : Gives (modify fun c => c.splice c.length text) fun _ => True := by
  intro c a c' hc heq
  cases heq
  exact ⟨trivial, hc.splice _ text⟩

theorem takeName_of_sees {c c' : Cursor} {name : Text} (hc : c.Lexed)
    (hsees : c.sees [.kind .name] = true) (h : Reading.takeAny c = .ok name c') :
    isAtom name = true ∧ c'.Lexed := by
  unfold Reading.takeAny at h
  split at h
  · rename_i t ht
    cases h
    have hkind : t.kind = .name := by
      simpa [Cursor.sees, ht, Token.fits, Want.accepts] using hsees
    have hlexed := hc.current ht
    simp only [Token.Lexed, hkind] at hlexed
    exact ⟨hlexed, hc.advance⟩
  · cases h

end Gives

/-! ## Arguments -/

def Param.Licensed (scope : Scope) : Param → Prop
  | .named name value => isAtom name = true ∧ value.Licensed scope
  | .positional value => value.Licensed scope

section

variable {scope : Scope}

theorem Param.Licensed.clean (hscope : scope.Clean) : ∀ {p : Param}, p.Licensed scope → p.Clean
  | .named _ value, h => ⟨h.1, value.clean_of_licensed hscope h.2⟩
  | .positional value, h => value.clean_of_licensed hscope h

theorem gives_paramsFrom (positional : Bool) (bound : Nat) :
    Gives (paramsFrom scope positional bound) fun ps => ∀ p ∈ ps, p.Licensed scope := by
  induction bound with
  | zero => exact .pure (by simp)
  | succ bound ih =>
    have hrest : ∀ first : Param, first.Licensed scope → Gives (do
        return first :: (← paramsFrom scope positional bound))
        fun ps => ∀ p ∈ ps, p.Licensed scope :=
      fun first hfirst => ih.bind fun more hmore => .pure (by simpa using ⟨hfirst, hmore⟩)
    intro c ps c₂ hc h
    unfold paramsFrom at h
    rw [get_bind] at h
    dsimp only at h
    split at h
    · cases h
      exact ⟨by simp, hc⟩
    split at h
    · rename_i hnamed
      obtain ⟨name, c₁, hname, h⟩ := bind_eq_ok h
      obtain ⟨hatom, hc₁⟩ := Gives.takeName_of_sees hc (Bool.and_eq_true_iff.mp hnamed).1 hname
      have hvalue : Gives (Param.named name <$> expression scope) (Param.Licensed scope) :=
        .map (gives_expression.mono fun _ he => ⟨hatom, he⟩)
      exact (Gives.advance.seq fun _ => hvalue.bind hrest) c₁ ps c₂ hc₁ h
    · have hvalue : Gives (Param.positional <$> expression scope) (Param.Licensed scope) :=
        .map gives_expression
      split at h
      · exact (hvalue.bind hrest) c ps c₂ hc h
      · cases h

theorem gives_params (positional : Bool) :
    Gives (params scope positional) fun ps => ∀ p ∈ ps, p.Licensed scope := by
  unfold params
  exact Gives.remaining.seq fun _ => gives_paramsFrom positional _

theorem gives_blockName : Gives blockName fun _ => True := by
  unfold blockName
  refine Gives.get.seq fun c => ?_
  have hname : ∀ name : Text, Gives (do
      if name.isEmpty then refuse [.kind .name]
      return name) fun _ => True := by
    intro name
    split
    · exact (Gives.refuse (P := fun _ => True) _).seq fun _ => .pure trivial
    · exact .pure trivial
  dsimp only
  split
  · exact Gives.advance.seq fun _ => (Gives.pure (P := fun _ => True) trivial).seq hname
  · exact (Gives.map (R := fun _ => True) (Gives.collect [])).seq hname

/-! ## Statements of tags -/

/--
A statement made of what the grammar lets through. Symbols of functions satisfy `S`, and the noted
arguments of a block function satisfy `T`.
-/
def Statement.Licensed (scope : Scope) (S T : Text → Prop) : Statement → Prop
  | .text _ | .block _ => True
  | .echo value | .ifThen value | .elseIf value | .whileLoop value | .switch value | .case value
  | .parent value => value.Licensed scope
  | .echoCall symbol params => S symbol ∧ ∀ p ∈ params, p.Licensed scope
  | .set target value => target.Licensed scope ∧ value.Licensed scope
  | .foreach items key value =>
    items.Licensed scope ∧ isAtom (key.getD ['_']) = true ∧ isAtom value = true
  | .forRange name first last step =>
    isAtom name = true ∧ first.Licensed scope ∧ last.Licensed scope ∧ step.Licensed scope
  | .inclusion _ name params => name.Licensed scope ∧ ∀ p ∈ params, p.Licensed scope
  | .finish symbol params => S symbol ∧ T params
  | .otherwise | .foreachElse | .forElse | .default | .breakLoop | .continueLoop | .close
  | .begin => True
  | .code _ => False

theorem Statement.Licensed.clean (hscope : scope.Clean) :
    ∀ {s : Statement},
      s.Licensed scope (isAtom · = true) (fun t => ∃ f, Form.Spells t f) → s.Clean
  | .echo value, h | .ifThen value, h | .elseIf value, h | .whileLoop value, h | .switch value, h
  | .case value, h | .parent value, h => value.clean_of_licensed hscope h
  | .echoCall _ _, h => ⟨h.1, fun p hp => (h.2 p hp).clean hscope⟩
  | .set target value, h =>
    ⟨target.clean_of_licensed hscope h.1, value.clean_of_licensed hscope h.2⟩
  | .foreach items _ _, h => ⟨items.clean_of_licensed hscope h.1, h.2⟩
  | .forRange _ first last step, h =>
    ⟨h.1, first.clean_of_licensed hscope h.2.1, last.clean_of_licensed hscope h.2.2.1,
      step.clean_of_licensed hscope h.2.2.2⟩
  | .inclusion _ name _, h =>
    ⟨name.clean_of_licensed hscope h.1, fun p hp => (h.2 p hp).clean hscope⟩
  | .finish _ _, h => h
  | .text _, _ | .block _, _ | .otherwise, _ | .foreachElse, _ | .forElse, _ | .default, _
  | .breakLoop, _ | .continueLoop, _ | .close, _ | .begin, _ => trivial

/-- The statement is one line that starts with the word. -/
def Statement.Says (s : Statement) (word : Text) : Prop := s.Clean ∧ s.line.word = word

/-- The statement is made of what the grammar lets through, and starts with the word. -/
def Statement.Tells (s : Statement) (scope : Scope) (S T : Text → Prop) (word : Text) : Prop :=
  s.Licensed scope S T ∧ s.line.word = word

theorem Statement.Tells.toSays (hscope : scope.Clean) {s : Statement} {word : Text}
    (h : s.Tells scope (isAtom · = true) (fun t => ∃ f, Form.Spells t f) word) : s.Says word :=
  ⟨h.1.clean hscope, h.2⟩

variable {S T : Text → Prop}

theorem gives_ofExpression {make : Expr → Statement} {word : Text}
    (hmake : ∀ e : Expr, e.Licensed scope → (make e).Tells scope S T word) :
    Gives (do return make (← expression scope)) (·.Tells scope S T word) :=
  gives_expression.bind fun e he => .pure (hmake e he)

theorem gives_openForeach :
    Gives (openForeach scope) (·.Tells scope S T BlockKind.foreach.word) := by
  unfold openForeach
  refine gives_expression.bind fun items hitems => ?_
  refine (Gives.takeWord _).seq fun _ => ?_
  refine gives_loopVariable.bind fun first hfirst => ?_
  refine (Gives.skip _).seq fun more => ?_
  split
  · exact gives_loopVariable.bind fun value hvalue => .pure ⟨⟨hitems, hfirst, hvalue⟩, rfl⟩
  · exact .pure ⟨⟨hitems, by decide, hfirst⟩, rfl⟩

theorem gives_openFor : Gives (openFor scope) (·.Tells scope S T BlockKind.forRange.word) := by
  unfold openFor
  refine gives_loopVariable.bind fun name hname => ?_
  refine (Gives.discard _).seq fun _ => ?_
  refine gives_expression.bind fun first hfirst => ?_
  refine (Gives.takeWord _).seq fun _ => ?_
  refine gives_expression.bind fun last hlast => ?_
  have hstep : Gives (do
      takeWord "step"
      return Statement.forRange name first last (← expression scope))
      (·.Tells scope S T BlockKind.forRange.word) :=
    (Gives.takeWord _).seq fun _ =>
      gives_expression.bind fun step hstep => .pure ⟨⟨hname, hfirst, hlast, hstep⟩, rfl⟩
  refine Gives.get.seq fun c => ?_
  dsimp only
  split
  · exact (Gives.splice _).seq fun _ => hstep
  · exact hstep

theorem gives_openCapture (frame : Frame) :
    Gives (openCapture scope frame) fun r => r.1 = .begin ∧
      ∃ ps, (∀ p ∈ ps, p.Licensed scope) ∧ r.2 = frame.put paramsKey (Param.listCode ps) :=
  (gives_params false).bind fun ps hps => .pure ⟨rfl, ps, hps, rfl⟩

/-- The notes of a block right after it was opened. -/
def Notes.Opened (notes : Notes) : Prop :=
  (∀ key, key ≠ paramsKey → notes.has key = false) ∧
    ∀ t, notes.lookup paramsKey = some t → ∃ f, Form.Spells t f

theorem Notes.opened_nil : Notes.Opened [] := ⟨fun _ _ => rfl, fun _ h => by cases h⟩

theorem Notes.opened_put (hscope : scope.Clean) {ps : List Param}
    (hps : ∀ p ∈ ps, p.Licensed scope) :
    Notes.Opened (Notes.put [] paramsKey (Param.listCode ps)) := by
  refine ⟨fun key hkey => by simp [Notes.has, Notes.put, hkey], fun t ht => ?_⟩
  have hlookup : (Notes.put [] paramsKey (Param.listCode ps)).lookup paramsKey =
      some (Param.listCode ps) := by simp [Notes.put]
  cases hlookup.symm.trans ht
  exact ⟨_, Param.spells_listCode fun p hp => (hps p hp).clean hscope⟩

theorem gives_plain (hscope : scope.Clean) {handler : InlineHandler} {kind : BlockKind}
    (line : Nat) (h : Gives (handler scope)
      (·.Tells scope (isAtom · = true) (fun t => ∃ f, Form.Spells t f) kind.word)) :
    Gives (BlockHandler.plain handler scope (.opened kind.name line))
      fun r => r.1.Says kind.word ∧ r.2.Is kind ∧ r.2.notes.Opened :=
  h.bind fun _ hs => .pure ⟨hs.toSays hscope, Frame.is_opened kind line, Notes.opened_nil⟩

theorem BlockKind.gives_opener (hscope : scope.Clean) (line : Nat) (kind : BlockKind) :
    Gives (kind.block.opener scope (.opened kind.name line))
      fun r => r.1.Says kind.word ∧ r.2.Is kind ∧ r.2.notes.Opened := by
  cases kind with
  | foreach => exact gives_plain hscope line gives_openForeach
  | forRange => exact gives_plain hscope line gives_openFor
  | whileLoop => exact gives_plain hscope line (gives_ofExpression fun _ he => ⟨he, rfl⟩)
  | branch => exact gives_plain hscope line (gives_ofExpression fun _ he => ⟨he, rfl⟩)
  | switch => exact gives_plain hscope line (gives_ofExpression fun _ he => ⟨he, rfl⟩)
  | region => exact gives_plain hscope line (gives_blockName.seq fun _ => .pure ⟨trivial, rfl⟩)
  | capture =>
    refine (gives_openCapture _).mono ?_
    rintro ⟨_, _⟩ ⟨rfl, ps, hps, rfl⟩
    exact ⟨⟨trivial, rfl⟩, (Frame.is_opened .capture line).put .., Notes.opened_put hscope hps⟩

theorem BlockKind.gives_closer {frame : Frame} (kind : BlockKind)
    (hnotes : ∀ t, frame.notes.lookup paramsKey = some t → ∃ f, Form.Spells t f) :
    Gives (kind.block.closer scope frame) fun r => r.1.Says kind.closing := by
  have hplain : Gives (BlockHandler.plain (.constant .close) scope frame)
      fun r => r.1.Says "end" :=
    Gives.bind (P := (·.Says "end")) (.pure ⟨trivial, rfl⟩) fun _ hs => .pure hs
  cases kind with
  | capture =>
    refine .pure ⟨⟨by decide, ?_⟩, rfl⟩
    cases hlookup : frame.notes.lookup paramsKey with
    | some t => exact hnotes t hlookup
    | none => exact ⟨Param.listForm [], Param.spells_listCode (by simp)⟩
  | foreach | forRange | whileLoop | branch | switch | region => exact hplain

/-- Without its equals sign, an assignment other than the plain one is an operator. -/
theorem mem_dropLast {t : Token} (hlexed : t.Lexed) (hfits : t.fits [.role [.assign]] = true)
    (hne : t.text ≠ ['=']) : t.text.dropLast ∈ operators := by
  have hall : ∀ s ∈ roleSpellings, Role.assign ∈ Symbol.roles s → s ≠ ['='] →
      s.dropLast ∈ operators := by decide
  have hrole : Role.assign ∈ t.kind.roles := by
    simpa [Token.fits, Want.accepts, Role.meet, Token.roles] using hfits
  cases hkind : t.kind with
  | symbol s =>
    rw [hkind] at hrole
    have htext : t.text = s := by simpa [Token.Lexed, hkind] using hlexed
    rw [htext] at hne ⊢
    exact hall s (mem_roleSpellings hrole) hrole hne
  | _ =>
    rw [hkind] at hrole
    simp [Kind.roles] at hrole

theorem gives_assign :
    Gives (assign scope) fun s => ∃ word ∈ plainWords, s.Tells scope S T word := by
  unfold assign
  refine gives_target.bind fun place hplace => ?_
  refine (Gives.take _).bind fun op hop => ?_
  refine gives_expression.bind fun value hvalue => .pure ⟨"set", by decide, ⟨hplace, ?_⟩, rfl⟩
  obtain ⟨t, hlexed, hfits, rfl⟩ := hop
  split
  · exact hvalue
  · rename_i hne
    exact ⟨mem_dropLast hlexed hfits hne, hplace, hvalue⟩

theorem gives_inclusion :
    Gives (inclusion scope) fun s => ∃ word ∈ plainWords, s.Tells scope S T word := by
  unfold inclusion
  refine gives_expression.bind fun name hname => ?_
  refine (gives_params false).bind fun ps hps => .pure ?_
  cases name.isString && scope.options.has .embedIncludes with
  | true => exact ⟨"embed", by decide, ⟨hname, hps⟩, rfl⟩
  | false => exact ⟨"include", by decide, ⟨hname, hps⟩, rfl⟩

/-- A template is embedded, where that is asked for, if the code of its name starts with a quote. -/
theorem gives_inclusion_quoted : Gives (inclusion scope) fun s => ∃ name ps,
    s = .inclusion (name.code.head? == some '"' && scope.options.has .embedIncludes) name ps := by
  unfold inclusion
  refine gives_expression.bind fun name hname => (gives_params false).bind fun ps _ => .pure ?_
  have hquote : name.isString = (name.code.head? == some '"') := by
    rw [Bool.eq_iff_iff, beq_iff_eq]
    exact hname.isString_iff
  exact ⟨name, ps, by rw [hquote]⟩

theorem gives_parent :
    Gives (parent scope) fun s => ∃ word ∈ plainWords, s.Tells scope S T word :=
  gives_expression.bind fun _ he => .pure ⟨"extends", by decide, he, rfl⟩

end

end Stencil
