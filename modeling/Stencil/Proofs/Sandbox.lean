import Stencil.Proofs.Dispatch
import Stencil.Proofs.Lawful

/-!
# Options as a sandbox

A dialect whose tags use no handlers but those of the library cannot be made to write a call that
the options or the library forbid, whatever the template says.
-/

namespace Stencil

open Grammar Reading Script Tag Template

/-! ## Dialects without handlers of their own -/

/-- The handlers that open the blocks of the library, captures apart. -/
def Tag.openers : List InlineHandler :=
  [openForeach, openFor, openWhile, openIf, openSwitch, openBlock]

/-- The handlers of the library for blocks. -/
inductive BlockHandler.BuiltIn : BlockHandler → Prop
  | opens {handler : InlineHandler} : handler ∈ openers → BuiltIn (.plain handler)
  | close : BuiltIn (.plain (.constant .close))
  | breakLoop : BuiltIn (.plain (.constant .breakLoop))
  | continueLoop : BuiltIn (.plain (.constant .continueLoop))
  | elseIf : BuiltIn (before "else" "elseif" elseIf)
  | otherwise : BuiltIn (once "else" "else" .otherwise)
  | case : BuiltIn (before "default" "case" case)
  | default : BuiltIn (once "default" "default" .default)
  | foreachElse : BuiltIn (once "else" "foreachelse" .foreachElse)
  | forElse : BuiltIn (once "else" "forelse" .forElse)
  | openCapture : BuiltIn openCapture
  | closeCapture {symbol : Text} : isSymbol symbol = true → BuiltIn (closeCapture symbol)

structure Block.BuiltIn (b : Block) : Prop where
  opener : b.opener.BuiltIn
  closer : b.closer.BuiltIn
  children : ∀ child ∈ b.children, child.2.BuiltIn

/-- A tag of the library, a function, or a block function that captures. -/
def Behaviour.BuiltIn : Behaviour → Prop
  | .inline handler => handler ∈ [assign, inclusion, parent]
  | .function symbol _ => isSymbol symbol = true
  | .block b => b.BuiltIn
  | .blockFunction symbol opener closer =>
    isSymbol symbol = true ∧ opener = openCapture ∧ closer = closeCapture symbol

structure Dialect.BuiltIn (d : Dialect) : Prop where
  tags : ∀ tag ∈ d.tags, tag.behaviour.BuiltIn
  modifiers : ∀ entry ∈ d.library.modifiers, isSymbol entry.2 = true

theorem Dialect.BuiltIn.ofTag {d : Dialect} (h : d.BuiltIn) {tag : Tag} (htag : tag ∈ d.tags)
    {block : Block} (hblock : tag.block? = some block) : block.BuiltIn := by
  have hbehaviour := h.tags tag htag
  unfold Tag.block? at hblock
  cases hkind : tag.behaviour with
  | block b =>
    rw [hkind] at hblock hbehaviour
    cases hblock
    exact hbehaviour
  | blockFunction symbol opener closer =>
    rw [hkind] at hblock hbehaviour
    cases hblock
    obtain ⟨hsymbol, rfl, rfl⟩ := hbehaviour
    exact ⟨.openCapture, .closeCapture hsymbol, by simp⟩
  | inline | function =>
    rw [hkind] at hblock
    cases hblock

theorem Dialect.BuiltIn.block {d : Dialect} (h : d.BuiltIn) {action : Text} {block : Block}
    (hblock : d.block? action = some block) : block.BuiltIn := by
  obtain ⟨tag, htag, hblock⟩ := Dialect.exists_of_block? hblock
  exact h.ofTag htag hblock

theorem Dialect.builtIn_standard : Dialect.standard.BuiltIn := by
  have hforeach : foreachBlock.BuiltIn := by
    refine ⟨.opens (by simp [openers]), .close, ?_⟩
    refine List.forall_mem_cons.mpr ⟨.continueLoop, List.forall_mem_cons.mpr ⟨.breakLoop, ?_⟩⟩
    exact List.forall_mem_singleton.mpr .foreachElse
  have hfor : forBlock.BuiltIn := by
    refine ⟨.opens (by simp [openers]), .close, ?_⟩
    refine List.forall_mem_cons.mpr ⟨.continueLoop, List.forall_mem_cons.mpr ⟨.breakLoop, ?_⟩⟩
    exact List.forall_mem_singleton.mpr .forElse
  have hwhile : whileBlock.BuiltIn := by
    refine ⟨.opens (by simp [openers]), .close, ?_⟩
    exact List.forall_mem_cons.mpr ⟨.continueLoop, List.forall_mem_singleton.mpr .breakLoop⟩
  have hif : ifBlock.BuiltIn := by
    refine ⟨.opens (by simp [openers]), .close, ?_⟩
    exact List.forall_mem_cons.mpr ⟨.otherwise, List.forall_mem_singleton.mpr .elseIf⟩
  have hswitch : switchBlock.BuiltIn := by
    refine ⟨.opens (by simp [openers]), .close, ?_⟩
    refine List.forall_mem_cons.mpr ⟨.breakLoop, List.forall_mem_cons.mpr ⟨.default, ?_⟩⟩
    exact List.forall_mem_singleton.mpr .case
  have hblock : (plainBlock openBlock).BuiltIn :=
    ⟨.opens (by simp [openers]), .close, List.forall_mem_nil _⟩
  refine ⟨fun tag htag => ?_, by decide⟩
  simp only [Dialect.standard, Tag.standard, List.mem_cons, List.not_mem_nil, or_false] at htag
  rcases htag with rfl | rfl | rfl | rfl | rfl | rfl | rfl | rfl | rfl | rfl | rfl
  · exact hforeach
  · exact hfor
  · exact hwhile
  · exact hif
  · exact hswitch
  · exact hblock
  · simp [Behaviour.BuiltIn]
  · simp [Behaviour.BuiltIn]
  · simp [Behaviour.BuiltIn]
  · exact ⟨by decide, rfl, rfl⟩
  · exact (by decide : isSymbol "Func::mailto" = true)

/-! ## Handlers -/

section

variable {scope : Scope} {frame : Frame}

/-- The noted arguments of a block are lawful. -/
def Notes.Lawful (scope : Scope) (notes : Notes) : Prop :=
  ∀ t, notes.lookup paramsKey = some t → LawfulForm scope t

theorem Notes.lawful_nil : Notes.Lawful scope [] := fun _ h => by cases h

theorem Notes.Lawful.put {notes : Notes} (h : notes.Lawful scope) {key : Text}
    (hkey : key ≠ paramsKey) : (notes.put key []).Lawful scope := by
  intro t ht
  have hne : (paramsKey == key) = false := beq_false_of_ne hkey.symm
  rw [Notes.put, List.lookup_cons, hne] at ht
  exact h t ht

theorem gives_opener {handler : InlineHandler} (h : handler ∈ openers) :
    Gives (handler scope) (·.Obeys scope) := by
  have hexpression {make : Expr → Statement}
      (hmake : ∀ e : Expr, e.Licensed scope → (make e).Obeys scope) :
      Gives (do return make (← expression scope)) (·.Obeys scope) :=
    gives_expression.bind fun e he => .pure (hmake e he)
  simp only [openers, List.mem_cons, List.not_mem_nil, or_false] at h
  rcases h with rfl | rfl | rfl | rfl | rfl | rfl
  · exact gives_openForeach.mono fun _ hs => hs.1
  · exact gives_openFor.mono fun _ hs => hs.1
  · exact hexpression fun _ he => he
  · exact hexpression fun _ he => he
  · exact hexpression fun _ he => he
  · exact gives_blockName.seq fun _ => .pure trivial

def Kept (scope : Scope) (r : Statement × Frame) : Prop :=
  r.1.Obeys scope ∧ r.2.notes.Lawful scope

theorem gives_once (hnotes : frame.notes.Lawful scope) {key tag : Text} {statement : Statement}
    (hkey : key ≠ paramsKey) (hstatement : statement.Obeys scope) :
    Gives (once key tag statement scope frame) (Kept scope) :=
  .guard fun _ => .pure ⟨hstatement, hnotes.put hkey⟩

theorem gives_before (hnotes : frame.notes.Lawful scope) {key tag : Text}
    {handler : InlineHandler} (h : Gives (handler scope) (·.Obeys scope)) :
    Gives (before key tag handler scope frame) (Kept scope) :=
  .guard fun _ => h.bind fun _ hs => .pure ⟨hs, hnotes⟩

theorem BlockHandler.BuiltIn.gives {handler : BlockHandler} (h : handler.BuiltIn)
    (hscope : scope.Symbols) (hnotes : frame.notes.Lawful scope) :
    Gives (handler scope frame) (Kept scope) := by
  have hplain {inline : InlineHandler} (hinline : Gives (inline scope) (·.Obeys scope)) :
      Gives (BlockHandler.plain inline scope frame) (Kept scope) :=
    hinline.bind fun _ hs => .pure ⟨hs, hnotes⟩
  cases h with
  | opens hmem => exact hplain (gives_opener hmem)
  | close => exact hplain (.pure trivial)
  | breakLoop => exact hplain (.pure trivial)
  | continueLoop => exact hplain (.pure trivial)
  | elseIf => exact gives_before hnotes (gives_expression.bind fun _ he => .pure he)
  | otherwise => exact gives_once hnotes (by decide) trivial
  | case => exact gives_before hnotes (gives_expression.bind fun _ he => .pure he)
  | default => exact gives_once hnotes (by decide) trivial
  | foreachElse => exact gives_once hnotes (by decide) trivial
  | forElse => exact gives_once hnotes (by decide) trivial
  | openCapture =>
    refine (gives_openCapture frame).mono ?_
    rintro ⟨_, _⟩ ⟨rfl, ps, hps, rfl⟩
    -- The first note of a key counts, so what was noted before is of no account.
    refine ⟨trivial, fun t ht => ?_⟩
    have hlookup : (frame.put paramsKey (Param.listCode ps)).notes.lookup paramsKey =
        some (Param.listCode ps) := by simp [Frame.put, Notes.put]
    cases hlookup.symm.trans ht
    exact Param.lawful_listCode hscope hps
  | closeCapture hsymbol =>
    refine .pure ⟨⟨hsymbol, ?_⟩, hnotes⟩
    cases hlookup : frame.notes.lookup paramsKey with
    | some t => exact hnotes t hlookup
    | none => exact Param.lawful_listCode hscope (by simp)

end

/-! ## Tags -/

def Obedient (scope : Scope) (r : Statement × List Frame) : Prop :=
  r.1.Obeys scope ∧ ∀ frame ∈ r.2, frame.notes.Lawful scope

section

variable {d : Dialect} {options : Options} {frames : List Frame} {line : Nat}

theorem obedient_opener {scope : Scope} (hscope : scope.Symbols) {name : Text}
    {opener : BlockHandler} (hopener : opener.BuiltIn)
    (h : ∀ frame ∈ frames, frame.notes.Lawful scope) :
    Gives (compileOpener scope name line opener frames) (Obedient scope) := by
  refine .compileOpener ((hopener.gives hscope Notes.lawful_nil).mono fun r hr => ?_)
  exact ⟨hr.1, List.forall_mem_cons.mpr ⟨hr.2, h⟩⟩

theorem obedient_tag {scope : Scope} (hscope : scope.Symbols) {tag : Tag}
    (htag : tag.behaviour.BuiltIn) (h : ∀ frame ∈ frames, frame.notes.Lawful scope) :
    Gives (compileTag scope tag line frames) (Obedient scope) := by
  have hinline {handler : InlineHandler} (hgives : Gives (handler scope) (·.Obeys scope)) :
      Gives (do return (← handler scope, frames)) (Obedient scope) :=
    hgives.bind fun _ hs => .pure ⟨hs, h⟩
  unfold compileTag
  cases hbehaviour : tag.behaviour with
  | inline handler =>
    rw [hbehaviour] at htag
    simp only [Behaviour.BuiltIn, List.mem_cons, List.not_mem_nil, or_false] at htag
    rcases htag with rfl | rfl | rfl
    · exact hinline (gives_assign.mono fun _ ⟨_, _, hs⟩ => hs.1)
    · exact hinline (gives_inclusion.mono fun _ ⟨_, _, hs⟩ => hs.1)
    · exact hinline (gives_parent.mono fun _ ⟨_, _, hs⟩ => hs.1)
  | function symbol positional =>
    rw [hbehaviour] at htag
    exact (gives_params positional).bind fun ps hps => .pure ⟨⟨htag, hps⟩, h⟩
  | block block =>
    rw [hbehaviour] at htag
    exact obedient_opener hscope htag.opener h
  | blockFunction symbol opener closer =>
    rw [hbehaviour] at htag
    obtain ⟨-, rfl, -⟩ := htag
    exact obedient_opener hscope .openCapture h

theorem Dialect.BuiltIn.child (hd : d.BuiltIn) {frame : Frame} {child : Text}
    {handler : BlockHandler} (h : d.child? frame child = some handler) : handler.BuiltIn := by
  obtain ⟨block, hblock, hhandler⟩ := Option.bind_eq_some_iff.mp h
  exact (hd.block hblock).children _ (Block.mem_children hhandler)

theorem obedient_child (hd : d.BuiltIn) (hscope : (d.scope options).Symbols) {child : Text}
    {inner outer : List Frame} {owner : Frame} {handler : BlockHandler}
    (hhandler : d.child? owner child = some handler)
    (h : ∀ frame ∈ inner ++ owner :: outer, frame.notes.Lawful (d.scope options)) :
    Gives (compileChild d options child inner owner handler outer)
      (Obedient (d.scope options)) := by
  obtain ⟨hinner, houter⟩ := List.forall_mem_append.mp h
  obtain ⟨howner, houter⟩ := List.forall_mem_cons.mp houter
  refine .compileChild fun _ => ((hd.child hhandler).gives hscope howner).mono fun r hr => ⟨hr.1, ?_⟩
  exact List.forall_mem_append.mpr ⟨hinner, List.forall_mem_cons.mpr ⟨hr.2, houter⟩⟩

theorem obedient_body (hd : d.BuiltIn) (hscope : (d.scope options).Symbols)
    (h : ∀ frame ∈ frames, frame.notes.Lawful (d.scope options)) :
    Gives (compileBody d options line frames) (Obedient (d.scope options)) := by
  have hecho : Gives (do return (.echo (← expression (d.scope options)), frames))
      (Obedient (d.scope options)) := gives_expression.bind fun _ he => .pure ⟨he, h⟩
  refine .compileBody (.compileContent (fun name => ?_) (fun name => ?_) hecho)
  · refine .compileClose fun frame outer block hframes hblock => ?_
    rw [hframes] at h
    obtain ⟨hframe, houter⟩ := List.forall_mem_cons.mp h
    exact ((hd.block hblock).closer.gives hscope hframe).mono fun r hr => ⟨hr.1, houter⟩
  · refine .compileNamed ?_ (fun tag htag => ?_) hecho
    · rintro inner owner handler outer rfl hhandler
      exact obedient_child hd hscope hhandler h
    · exact obedient_tag hscope (hd.tags tag (List.mem_of_find?_eq_some htag)) h

end

/-! ## Templates -/

/-- All that the lines hand on is lawful. -/
def LawfulLines (scope : Scope) (lines : List Line) : Prop :=
  ∀ line ∈ lines, ∀ f ∈ line.arguments, f.Lawful scope

theorem LawfulLines.add {scope : Scope} {lines : List Line} {line : Line}
    (h : LawfulLines scope lines) (hline : ∀ f ∈ line.arguments, f.Lawful scope) :
    LawfulLines scope (lines ++ [line]) := by
  refine List.forall_mem_append.mpr ⟨h, ?_⟩
  simpa using hline

/-- The script so far is lawful, and the open blocks will keep it so. -/
structure Sandboxed (scope : Scope) (p : Progress) : Prop where
  output : ∃ lines, p.output.Holds lines ∧ LawfulLines scope lines
  frames : ∀ frame ∈ p.frames, frame.notes.Lawful scope

theorem Sandboxed.segment {d : Dialect} (hd : d.BuiltIn) {options : Options}
    (hscope : (d.scope options).Symbols) {name : Text} {p p' : Progress} {segment : Segment}
    (h : Sandboxed (d.scope options) p)
    (hrun : compileSegment d options name p segment = .ok p') :
    Sandboxed (d.scope options) p' := by
  obtain ⟨⟨lines, hholds, hlawful⟩, hframes⟩ := h
  cases segment with
  | literal text =>
    cases hrun
    have htext : ∀ f ∈ (Statement.text text).line.arguments, f.Lawful (d.scope options) :=
      List.forall_mem_singleton.mpr (.string text)
    exact ⟨⟨_, hholds.addText text, hlawful.add htext⟩, hframes⟩
  | tag line body =>
    obtain ⟨statement, ⟨hobeys, hkept⟩, houtput⟩ :=
      exists_of_compileSegment (obedient_body hd hscope hframes) hrun
    obtain ⟨shown, hshows, hline⟩ := hobeys.lawful hscope
    refine ⟨⟨_, ?_, hlawful.add hline⟩, hkept⟩
    rw [houtput]
    exact hholds.addShown hshows line

namespace Nameless

def dialect : Dialect :=
  { Dialect.standard with library := Library.standard.addModifier ['m'] [] }

def source : Text := "\x7b5|m\x7d"

end Nameless

end Stencil
