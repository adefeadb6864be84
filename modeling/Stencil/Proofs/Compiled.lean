import Stencil.Proofs.Gathered
import Stencil.Proofs.Gives
import Stencil.Proofs.Lines
import Stencil.Proofs.Separated

/-!
# Compiling written templates

A written template compiles, and its script says again what the template is meant to do: with the
same nesting, the arms in the same order, and the same expressions and texts.
-/

namespace Stencil.Written

open Grammar Script Template

/-! ## Expressions -/

theorem Tree.clean {scope : Scope} (hscope : scope.Clean) {t : Tree} (h : t.Permitted scope) :
    (t.expr scope).Clean := by
  have hread := Tree.passes h [] [] (tokenize 1 t.source) [] 1 (words_tokenize t.apart 1)
    (by decide) (Nat.le_refl _)
  have hlexed : Cursor.Lexed ⟨[], tokenize 1 t.source ++ [], 1⟩ := by
    rw [List.append_nil]
    exact Cursor.lexed_place (lexed_tokenize 1 t.source) 0 1
  exact Expr.clean_of_licensed hscope _ (gives_expression _ _ _ hlexed hread).1

theorem Target.clean {scope : Scope} (hscope : scope.Clean) {place : Target}
    (h : place.Permitted scope) : (place.expr scope).Clean :=
  Tree.clean hscope (t := .target place) h

theorem clean_tree {options : Options} {t : Tree}
    (h : t.Permitted (Dialect.standard.scope options)) :
    (t.expr (Dialect.standard.scope options)).Clean :=
  Tree.clean (Scope.clean_standard options) h

theorem clean_target {options : Options} {place : Target}
    (h : place.Permitted (Dialect.standard.scope options)) :
    (place.expr (Dialect.standard.scope options)).Clean :=
  Target.clean (Scope.clean_standard options) h

theorem isAtom_of_isWord {t : Text} (h : isWord t = true) : Form.isAtom t = true := by
  refine isAtom_of_forall ?_ fun c hc => isAtomPart_of_isWordPart (isWordPart_of_mem h hc)
  rintro rfl
  simp [isWord] at h

theorem isAtom_keyName (key : Option KeyName) :
    Form.isAtom ((key.map (·.val)).getD ['_']) = true := by
  cases key with
  | none => decide
  | some key => exact isAtom_of_isWord key.property.1

/-! ## Compiling parts -/

/-- Compiling the parts adds the lines, and afterwards the open blocks are as `after` says. -/
def Produces (options : Options) (frames : List Frame) (parts : List Part)
    (after : List Frame → Prop) (lines : List Line) : Prop :=
  ∀ (name : Text) (segments : List Segment) (output : Output) (done : List Line),
    List.Forall₂ Part.Fits parts segments → output.Holds done →
    ∃ frames' output', segments.foldlM (compileSegment Dialect.standard options name)
        ⟨frames, output⟩ = .ok ⟨frames', output'⟩ ∧
      after frames' ∧ output'.Holds (done ++ lines)

namespace Produces

variable {options : Options} {frames : List Frame} {parts more : List Part}
  {after after' : List Frame → Prop} {lines others : List Line}

theorem nil (h : after frames) : Produces options frames [] after [] := by
  intro name segments output done hfits houtput
  cases hfits
  exact ⟨frames, output, rfl, h, by simpa using houtput⟩

theorem mono (h : Produces options frames parts after lines)
    (hafter : ∀ frames', after frames' → after' frames') :
    Produces options frames parts after' lines := by
  intro name segments output done hfits houtput
  obtain ⟨frames', output', hfold, hframes, hholds⟩ := h name segments output done hfits houtput
  exact ⟨frames', output', hfold, hafter frames' hframes, hholds⟩

theorem append (h : Produces options frames parts after lines)
    (hmore : ∀ frames', after frames' → Produces options frames' more after' others) :
    Produces options frames (parts ++ more) after' (lines ++ others) := by
  intro name segments output done hfits houtput
  have hfront := (List.forall₂_take_append segments parts more hfits.flip).flip
  have hback := (List.forall₂_drop_append segments parts more hfits.flip).flip
  obtain ⟨frames', output', hfold, hafter, hholds⟩ := h name _ output done hfront houtput
  obtain ⟨frames'', output'', hfold', hafter', hholds'⟩ :=
    hmore frames' hafter name _ output' (done ++ lines) hback hholds
  refine ⟨frames'', output'', ?_, hafter', ?_⟩
  · rw [← List.take_append_drop parts.length segments, List.foldlM_append, hfold]
    exact hfold'
  · rw [← List.append_assoc]
    exact hholds'

theorem cons {part : Part} {line : Line} (h : Produces options frames [part] after [line])
    (hmore : ∀ frames', after frames' → Produces options frames' more after' others) :
    Produces options frames (part :: more) after' (line :: others) :=
  h.append hmore

theorem text (value : Text) :
    Produces options frames [.text value] (· = frames) [(Statement.text value).line] := by
  intro name segments output done hfits houtput
  obtain ⟨segment, _, rfl, hrest, rfl⟩ := List.forall₂_cons_left_iff.mp hfits
  cases hrest
  exact ⟨frames, output.addText value, rfl, rfl, houtput.addText value⟩

theorem tag {words : List Word} (statement : Statement) (htag : Segment.IsTag words)
    (hclean : statement.Clean)
    (h : ∀ line, ∃ frames', after frames' ∧ ∀ n, Passes
      (compileContent Dialect.standard options line frames) n words (· = none) (statement, frames')) :
    Produces options frames [.tag words] after [statement.line] := by
  intro name segments output done hfits houtput
  obtain ⟨_, _, ⟨line, rfl⟩, hrest, rfl⟩ := List.forall₂_cons_left_iff.mp hfits
  cases hrest
  obtain ⟨frames', hafter, hpasses⟩ := h line
  refine ⟨frames', output.addStatement line statement, ?_, hafter, houtput.addStatement hclean line⟩
  rw [List.foldlM_cons, compileSegment_tag htag.apart hpasses]
  rfl

end Produces

/-! ## Blocks -/

/-- A block of the kind has been opened on top of `frames`. -/
def Inside (kind : BlockKind) (frames : List Frame) (frames' : List Frame) : Prop :=
  ∃ frame, frames' = frame :: frames ∧ frame.Is kind

/-- As `Inside`, and the block has not noted anything yet. -/
def Fresh (kind : BlockKind) (frames : List Frame) (frames' : List Frame) : Prop :=
  ∃ frame, frames' = frame :: frames ∧ frame.Is kind ∧ frame.notes = []

section Blocks

variable {options : Options} {frames : List Frame} {frame : Frame} {kinds : List BlockKind}
  {kind : BlockKind} {words : List Word} {statement : Statement}

theorem produces_open (kind : BlockKind) (statement : Statement) (hkind : kind ≠ .capture)
    {handler : InlineHandler} (hopener : kind.block.opener = .plain handler)
    (hopened : Opened kinds frames)
    (htag : Segment.IsTag (⟨.name, kind.name, [' ']⟩ :: words)) (hclean : statement.Clean)
    (h : ∀ n, Passes (handler (Dialect.standard.scope options)) n words (· = none) statement) :
    Produces options frames [tag kind.name words] (Fresh kind frames) [statement.line] :=
  .tag statement htag hclean fun line => ⟨.opened kind.name line :: frames,
    ⟨_, rfl, Frame.is_opened kind line, rfl⟩, fun _ => passes_open hkind hopener hopened (h _)⟩

theorem produces_close (hkind : kind ≠ .capture) (hframe : frame.Is kind) :
    Produces options (frame :: frames) [closeTag kind.name] (· = frames) [endLine] :=
  .tag .close (isTag_close (by cases kind <;> decide)) trivial
    fun _ => ⟨frames, rfl, fun _ => passes_end hkind hframe⟩

theorem produces_leave {name : Text} {has : BlockKind → Bool} (hname : IsTagName name)
    (hconstant : name ∉ Token.constants) (hfloating : BlockKind.Floating name statement has)
    (hclean : statement.Clean) (hopened : Opened kinds frames) (hhas : kinds.any has = true) :
    Produces options frames [bareTag name] (· = frames) [statement.line] :=
  .tag statement (isTag_bare hname.1 hname.2) hclean
    fun _ => ⟨frames, rfl, fun _ => passes_floating hconstant hfloating hopened hhas⟩

theorem produces_block (hkind : kind ≠ .capture) {part : Part} {line : Line}
    (hopen : Produces options frames [part] (Fresh kind frames) [line]) {inner : List Part}
    {lines : List Line} (hinner : ∀ frame : Frame, frame.Is kind → frame.notes = [] →
      Produces options (frame :: frames) inner (Inside kind frames) lines) :
    Produces options frames (part :: (inner ++ [closeTag kind.name])) (· = frames)
      (line :: (lines ++ [endLine])) := by
  refine hopen.cons ?_
  rintro _ ⟨frame, rfl, hframe, hnotes⟩
  refine (hinner frame hframe hnotes).append ?_
  rintro _ ⟨frame, rfl, hframe⟩
  exact produces_close hkind hframe

/-! ## Child tags -/

/-- A child tag without content that stands at most once in its block, which notes it as `key`. -/
structure Once (kind : BlockKind) (key name : Text) (statement : Statement) : Prop where
  isTagName : IsTagName name
  not_constant : name ∉ Token.constants
  child_eq : kind.block.child? name = some (Tag.once key name statement)
  clean : statement.Clean
  line_eq : statement.line = ⟨name, []⟩

theorem once_foreachElse : Once .foreach "else" "foreachelse" .foreachElse :=
  ⟨by decide, by decide, rfl, trivial, rfl⟩

theorem once_forElse : Once .forRange "else" "forelse" .forElse :=
  ⟨by decide, by decide, rfl, trivial, rfl⟩

theorem once_else : Once .branch "else" "else" .otherwise := ⟨by decide, by decide, rfl, trivial, rfl⟩

theorem once_default : Once .switch "default" "default" .default :=
  ⟨by decide, by decide, rfl, trivial, rfl⟩

theorem Once.produces {key name : Text} (h : Once kind key name statement) (hframe : frame.Is kind)
    (hnotes : frame.has key = false) :
    Produces options (frame :: frames) [bareTag name] (Inside kind frames) [⟨name, []⟩] := by
  rw [← h.line_eq]
  refine .tag statement (isTag_bare h.isTagName.1 h.isTagName.2) h.clean fun line =>
    ⟨frame.put key [] :: frames, ⟨_, rfl, hframe.put key []⟩, fun n => ?_⟩
  apply passes_child h.not_constant hframe h.child_eq
  unfold Tag.once
  rw [hnotes]
  exact Passes.pure

/-- A child tag with an expression, which does not follow the one that is noted as `key`. -/
structure Before (kind : BlockKind) (key name : Text) (arm : Expr → Statement) : Prop where
  isTagName : IsTagName name
  not_constant : name ∉ Token.constants
  child_eq : kind.block.child? name =
    some (Tag.before key name fun scope => return arm (← expression scope))
  clean : ∀ e : Expr, e.Clean → (arm e).Clean
  line_eq : ∀ e : Expr, (arm e).line = ⟨name, [e.form]⟩

theorem before_elseIf : Before .branch "else" "elseif" .elseIf :=
  ⟨by decide, by decide, rfl, fun _ h => h, fun _ => rfl⟩

theorem before_case : Before .switch "default" "case" .case :=
  ⟨by decide, by decide, rfl, fun _ h => h, fun _ => rfl⟩

theorem Before.produces {key name : Text} {arm : Expr → Statement} (h : Before kind key name arm)
    {value : Tree} (hvalue : value.Permitted (Dialect.standard.scope options))
    (hframe : frame.Is kind) (hnotes : frame.has key = false) :
    Produces options (frame :: frames) [tag name (value.words [])] (· = frame :: frames)
      [⟨name, [(value.expr (Dialect.standard.scope options)).form]⟩] := by
  rw [← h.line_eq]
  refine .tag _ (isTag_tag h.isTagName.1 h.isTagName.2 (value.flows []))
    (h.clean _ (clean_tree hvalue)) fun line => ⟨frame :: frames, rfl, fun n => ?_⟩
  apply passes_child h.not_constant hframe h.child_eq
  unfold Tag.before
  rw [hnotes]
  exact (Tree.passes_last hvalue).bind_pure.bind_pure

end Blocks

/-! ## Templates -/

section Templates

variable {options : Options}

mutual

theorem Node.produces : ∀ (node : Node) {kinds : List BlockKind} {frames : List Frame},
    Opened kinds frames →
    node.Valid (Dialect.standard.scope options) (kinds.any (·.isBreakable)) (kinds.any (·.isLoop)) →
    Produces options frames node.parts (· = frames) (node.lines (Dialect.standard.scope options))
  | .text value, _, _, _, _ => .text value.val
  | .echo value, _, frames, hopened, h =>
    .tag (.echo _) (Tree.isTag h) (clean_tree h)
      fun _ => ⟨frames, rfl, fun _ => Tree.passes_echo h hopened⟩
  | .set place value, _, frames, hopened, h => by
    refine .tag (.set _ _) (isTag_tag (by decide) (by decide)
      ((place.flows [' ']).append (.cons (.symbol (by decide)) (value.flows []))))
      ⟨clean_target h.1, clean_tree h.2⟩ fun _ => ⟨frames, rfl, fun _ => ?_⟩
    apply passes_content_of_name (by decide)
    apply passes_named_of_tag (findOwner?_eq_none hopened (by decide)) rfl
    exact (passes_assign h.1 h.2).bind_pure
  | .branch condition body others, _, frames, hopened, h => by
    have hopen := produces_open .branch (.ifThen _) (by decide) rfl hopened
      (isTag_tag (by decide) (by decide) (condition.flows [])) (clean_tree h.1)
      fun n => (Tree.passes_last h.1).bind_pure
    rw [Node.parts, Node.lines, ← List.append_assoc, ← List.append_assoc]
    refine produces_block (by decide) hopen fun frame hframe hnotes => ?_
    refine (produces_all body (.cons hframe hopened) h.2.1).append ?_
    rintro _ rfl
    exact others.produces before_elseIf once_else hopened hframe (by rw [Frame.has, hnotes]; rfl) h.2.2
  | .foreach list key value body otherwise, _, frames, hopened, h => by
    have hopen := produces_open .foreach (.foreach _ _ _) (by decide) rfl hopened
      (isTag_tag (by decide) (by decide) ((list.flows [' ']).append (.cons (.name (by decide))
        (flows_loopWords key value))))
      ⟨clean_tree h.1, isAtom_keyName key, isAtom_of_isWord value.property⟩
      fun n => passes_foreach h.1 key value
    rw [Node.parts, Node.lines, ← List.append_assoc, ← List.append_assoc]
    refine produces_block (by decide) hopen fun frame hframe hnotes => ?_
    refine (produces_all body (.cons hframe hopened) h.2.1).append ?_
    rintro _ rfl
    exact else_produces otherwise once_foreachElse hopened hframe (by rw [Frame.has, hnotes]; rfl) h.2.2
  | .forRange name first last step body otherwise, _, frames, hopened, h => by
    have hopen := produces_open .forRange (.forRange _ _ _ _) (by decide) rfl hopened
      (isTag_tag (by decide) (by decide) (flows_rangeWords name first last step))
      ⟨isAtom_of_isWord name.property, clean_tree h.1.1, clean_tree h.1.2.1, clean_tree h.1.2.2⟩
      fun n => passes_for name h.1.1 h.1.2.1 h.1.2.2
    rw [Node.parts, Node.lines, ← List.append_assoc, ← List.append_assoc]
    refine produces_block (by decide) hopen fun frame hframe hnotes => ?_
    refine (produces_all body (.cons hframe hopened) h.2.1).append ?_
    rintro _ rfl
    exact else_produces otherwise once_forElse hopened hframe (by rw [Frame.has, hnotes]; rfl) h.2.2
  | .whileLoop condition body, _, frames, hopened, h => by
    have hopen := produces_open .whileLoop (.whileLoop _) (by decide) rfl hopened
      (isTag_tag (by decide) (by decide) (condition.flows [])) (clean_tree h.1)
      fun n => (Tree.passes_last h.1).bind_pure
    refine produces_block (by decide) hopen fun frame hframe _ => ?_
    exact (produces_all body (.cons hframe hopened) h.2).mono fun _ hframes => ⟨frame, hframes, hframe⟩
  | .switch subject body cases, _, frames, hopened, h => by
    have hopen := produces_open .switch (.switch _) (by decide) rfl hopened
      (isTag_tag (by decide) (by decide) (subject.flows [])) (clean_tree h.1)
      fun n => (Tree.passes_last h.1).bind_pure
    rw [Node.parts, Node.lines, ← List.append_assoc, ← List.append_assoc]
    refine produces_block (by decide) hopen fun frame hframe hnotes => ?_
    refine (produces_all body (.cons hframe hopened) h.2.1).append ?_
    rintro _ rfl
    exact cases.produces before_case once_default hopened hframe (by rw [Frame.has, hnotes]; rfl) h.2.2
  | .breakLoop, _, _, hopened, h =>
    produces_leave (by decide) (by decide) BlockKind.floating_break trivial hopened h
  | .continueLoop, _, _, hopened, h =>
    produces_leave (by decide) (by decide) BlockKind.floating_continue trivial hopened h

theorem produces_all : ∀ (nodes : List Node) {kinds : List BlockKind} {frames : List Frame},
    Opened kinds frames →
    AllValid (Dialect.standard.scope options) (kinds.any (·.isBreakable)) (kinds.any (·.isLoop))
      nodes →
    Produces options frames (parts nodes) (· = frames) (lines (Dialect.standard.scope options) nodes)
  | [], _, _, _, _ => .nil rfl
  | node :: more, _, _, hopened, h => by
    refine (node.produces hopened h.1).append ?_
    rintro _ rfl
    exact produces_all more hopened h.2.2

theorem Arms.produces : ∀ (others : Arms) {kind : BlockKind} {next last : Text}
    {arm : Expr → Statement} {final : Statement}, Before kind last next arm →
    Once kind last last final → ∀ {kinds : List BlockKind} {frames : List Frame} {frame : Frame},
    Opened kinds frames → frame.Is kind → frame.has last = false →
    others.Valid (Dialect.standard.scope options) ((kind :: kinds).any (·.isBreakable))
      ((kind :: kinds).any (·.isLoop)) →
    Produces options (frame :: frames) (others.parts next last) (Inside kind frames)
      (others.lines (Dialect.standard.scope options) next last)
  | .none, _, _, _, _, _, _, _, _, _, frame, _, hframe, _, _ => .nil ⟨frame, rfl, hframe⟩
  | .last body, _, _, _, _, _, _, hlast, _, _, _, hopened, hframe, hnotes, h => by
    refine (hlast.produces hframe hnotes).cons ?_
    rintro _ ⟨frame, rfl, hframe⟩
    exact (produces_all body (.cons hframe hopened) h).mono fun _ hframes => ⟨frame, hframes, hframe⟩
  | .next value body others, _, _, _, _, _, hnext, hlast, _, _, _, hopened, hframe, hnotes, h => by
    refine (hnext.produces h.1 hframe hnotes).cons ?_
    rintro _ rfl
    refine (produces_all body (.cons hframe hopened) h.2.1).append ?_
    rintro _ rfl
    exact others.produces hnext hlast hopened hframe hnotes h.2.2

theorem else_produces : ∀ (otherwise : Option (List Node)) {kind : BlockKind} {key name : Text}
    {statement : Statement}, Once kind key name statement →
    ∀ {kinds : List BlockKind} {frames : List Frame} {frame : Frame}, Opened kinds frames →
    frame.Is kind → frame.has key = false →
    ElseValid (Dialect.standard.scope options) ((kind :: kinds).any (·.isBreakable))
      ((kind :: kinds).any (·.isLoop)) otherwise →
    Produces options (frame :: frames) (elseParts name otherwise) (Inside kind frames)
      (elseLines (Dialect.standard.scope options) name otherwise)
  | none, _, _, _, _, _, _, _, frame, _, hframe, _, _ => .nil ⟨frame, rfl, hframe⟩
  | some body, _, _, _, _, honce, _, _, _, hopened, hframe, hnotes, h => by
    refine (honce.produces hframe hnotes).cons ?_
    rintro _ ⟨frame, rfl, hframe⟩
    exact (produces_all body (.cons hframe hopened) h).mono fun _ hframes => ⟨frame, hframes, hframe⟩

end

/--
A written template compiles, and what is gathered from its script is what the template is meant to
do.
-/
theorem parse_compile (options : Options) (nodes : List Node)
    (h : AllValid (Dialect.standard.scope options) false false nodes) (name : Text) :
    ∃ code, compile Dialect.standard options name (source nodes) = .ok code ∧
      parse code = some (steps (Dialect.standard.scope options) nodes) := by
  have hseparate : Segment.Separate (parts nodes ++ []) := separate_all nodes h trivial rfl
  rw [List.append_nil] at hseparate
  have hopened : Opened [] [] := .nil
  obtain ⟨segments, hscan, hfits⟩ := Segment.scan_parts hseparate
  obtain ⟨_, output, hfold, rfl, hholds⟩ :=
    produces_all nodes hopened h name segments {} [] hfits .empty
  refine ⟨output.script, ?_, ?_⟩
  · unfold compile source
    rw [hscan]
    simp only [hfold]
    rfl
  · have hread := (gathers_all (Dialect.standard.scope options) nodes).readBody_all (Nat.le_refl _)
    unfold parse
    rw [hholds.lines?, List.nil_append]
    simp [hread]

/-- A template with every kind of tag. -/
def everyTag : List Node :=
  let v : Tree := .target (.variable ⟨['v'], by decide⟩)
  let one : Tree := .integer ⟨['0', '1'], by decide⟩
  let text : Node := .text ⟨['\x7b', '\n', 'a'], by decide⟩
  [text,
    .foreach v (some ⟨['k'], by decide⟩) ⟨['v'], by decide⟩
      [.branch v [.breakLoop, text] (.next v [.continueLoop] (.last [.echo v]))] (some [text]),
    .forRange ⟨['i'], by decide⟩ one v one
      [.whileLoop v [text, .set (.variable ⟨['w'], by decide⟩) one]] (some []),
    .switch v [text] (.next one [.branch v [.breakLoop] .none] (.last [text]))]

theorem parse_compile_everyTag :
    AllValid (Dialect.standard.scope .empty) false false everyTag ∧
      ∃ code, compile Dialect.standard .empty "page" (source everyTag) = .ok code ∧
        parse code = some (steps (Dialect.standard.scope .empty) everyTag) := by
  have h : AllValid (Dialect.standard.scope .empty) false false everyTag := by
    simp [everyTag, AllValid, Node.Valid, Arms.Valid, ElseValid, Node.isText, Tree.Permitted,
      Target.Permitted]
  exact ⟨h, parse_compile .empty everyTag h "page"⟩

end Templates

end Stencil.Written
