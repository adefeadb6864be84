import Stencil.Proofs.Mirrored
import Stencil.Proofs.Sandbox

/-!
# Tags under other options

What tags and templates compile to under two sets of options. Where both compile, they give the same
statements, except that an inclusion may be turned into another one.
-/

namespace Stencil

open Grammar Reading Tag Template

/-! ## Handlers -/

def Statement.isInclusion : Statement → Bool
  | .inclusion .. => true
  | _ => false

/-- How the statements of the first scope come out under the second. -/
structure Scope.Turns (turn : Statement → Statement) (scope scope' : Scope) : Prop where
  inclusion : ∀ (name : Expr) (params : List Param),
    turn (.inclusion (name.isString && scope.options.has .embedIncludes) name params) =
      .inclusion (name.isString && scope'.options.has .embedIncludes) name params
  others : ∀ s : Statement, s.isInclusion = false → turn s = s

/-- The second statement is the first one turned, and what goes with it is the same. -/
def Turned {α : Type} (turn : Statement → Statement) (r r' : Statement × α) : Prop :=
  r' = (turn r.1, r.2)

section Handlers

variable {faults : Fault → Prop} {turn : Statement → Statement} {scope scope' : Scope}

/-- Both handlers read the same, and the statement is turned. -/
abbrev TurnsInline (faults : Fault → Prop) (turn : Statement → Statement) (scope scope' : Scope)
    (handler : InlineHandler) : Prop :=
  Mirrors faults (fun s s' => s' = turn s) (handler scope) (handler scope')

theorem Scope.Turns.pure (hturn : scope.Turns turn scope') {s : Statement}
    (h : s.isInclusion = false) : Mirrors faults (fun s s' => s' = turn s) (pure s) (pure s) :=
  .pure (hturn.others s h).symm

theorem turns_ofExpression (hscope : scope.Narrows faults scope') (hturn : scope.Turns turn scope')
    {make : Expr → Statement} (hmake : ∀ e, (make e).isInclusion = false) :
    TurnsInline faults turn scope scope' (fun scope => do return make (← expression scope)) :=
  (mirrors_expression hscope).seq fun e => hturn.pure (hmake e)

theorem turns_openForeach (hscope : scope.Narrows faults scope') (hturn : scope.Turns turn scope') :
    TurnsInline faults turn scope scope' openForeach := by
  unfold TurnsInline openForeach
  refine (mirrors_expression hscope).seq fun list => .step fun _ => .step fun first => ?_
  refine .step fun arrow => .ite (fun _ => .step fun value => ?_) fun _ => ?_
  · exact hturn.pure rfl
  · exact hturn.pure rfl

theorem turns_openFor (hscope : scope.Narrows faults scope') (hturn : scope.Turns turn scope') :
    TurnsInline faults turn scope scope' openFor := by
  have hstep {make : Expr → Statement} (hmake : ∀ e, (make e).isInclusion = false) :
      Mirrors faults (fun s s' => s' = turn s)
        (takeWord "step" >>= fun _ => expression scope >>= fun e => pure (make e))
        (takeWord "step" >>= fun _ => expression scope' >>= fun e => pure (make e)) :=
    .step fun _ => turns_ofExpression hscope hturn hmake
  unfold TurnsInline openFor
  refine .step fun name => .step fun _ => (mirrors_expression hscope).seq fun first => ?_
  refine .step fun _ => (mirrors_expression hscope).seq fun last => .step fun c => ?_
  refine .ite (fun _ => .step fun _ => ?_) fun _ => ?_
  · exact hstep fun _ => rfl
  · exact hstep fun _ => rfl

theorem turns_assign (hscope : scope.Narrows faults scope') (hturn : scope.Turns turn scope') :
    TurnsInline faults turn scope scope' assign := by
  unfold TurnsInline assign
  refine (mirrors_target hscope).seq fun place => .step fun op => ?_
  exact turns_ofExpression hscope hturn fun _ => rfl

theorem turns_inclusion (hscope : scope.Narrows faults scope') (hturn : scope.Turns turn scope') :
    TurnsInline faults turn scope scope' inclusion := by
  unfold TurnsInline inclusion
  refine (mirrors_expression hscope).seq fun name => ?_
  exact (mirrors_params hscope false).seq fun params => .pure (hturn.inclusion name params).symm

theorem turns_openers (hscope : scope.Narrows faults scope') (hturn : scope.Turns turn scope')
    {handler : InlineHandler} (h : handler ∈ openers) :
    TurnsInline faults turn scope scope' handler := by
  simp only [openers, List.mem_cons, List.not_mem_nil, or_false] at h
  rcases h with rfl | rfl | rfl | rfl | rfl | rfl
  · exact turns_openForeach hscope hturn
  · exact turns_openFor hscope hturn
  · exact turns_ofExpression hscope hturn fun _ => rfl
  · exact turns_ofExpression hscope hturn fun _ => rfl
  · exact turns_ofExpression hscope hturn fun _ => rfl
  · exact .step fun name => hturn.pure rfl

theorem turns_inline (hscope : scope.Narrows faults scope') (hturn : scope.Turns turn scope')
    {handler : InlineHandler} (h : handler ∈ [assign, inclusion, parent]) :
    TurnsInline faults turn scope scope' handler := by
  simp only [List.mem_cons, List.not_mem_nil, or_false] at h
  rcases h with rfl | rfl | rfl
  · exact turns_assign hscope hturn
  · exact turns_inclusion hscope hturn
  · exact turns_ofExpression hscope hturn fun _ => rfl

abbrev TurnsBlock (faults : Fault → Prop) (turn : Statement → Statement) (scope scope' : Scope)
    (handler : BlockHandler) (frame : Frame) : Prop :=
  Mirrors faults (Turned turn) (handler scope frame) (handler scope' frame)

variable {frame : Frame}

theorem turns_plain {handler : InlineHandler} (h : TurnsInline faults turn scope scope' handler) :
    TurnsBlock faults turn scope scope' (.plain handler) frame := by
  refine h.bind ?_
  rintro s _ rfl
  exact .pure rfl

theorem turns_before {key tag : Text} {handler : InlineHandler}
    (h : TurnsInline faults turn scope scope' handler) :
    TurnsBlock faults turn scope scope' (before key tag handler) frame := by
  have hplain : TurnsBlock faults turn scope scope' (.plain handler) frame := turns_plain h
  exact .ite (fun _ => .throw) fun _ => hplain

theorem turns_once (hturn : scope.Turns turn scope') {key tag : Text} {statement : Statement}
    (h : statement.isInclusion = false) :
    TurnsBlock faults turn scope scope' (once key tag statement) frame := by
  refine .ite (fun _ => .throw) fun _ => .pure ?_
  rw [Turned, hturn.others statement h]

theorem BlockHandler.BuiltIn.turns (hscope : scope.Narrows faults scope')
    (hturn : scope.Turns turn scope') {handler : BlockHandler} (h : handler.BuiltIn) :
    TurnsBlock faults turn scope scope' handler frame := by
  cases h with
  | opens hmem => exact turns_plain (turns_openers hscope hturn hmem)
  | close => exact turns_plain (hturn.pure rfl)
  | breakLoop => exact turns_plain (hturn.pure rfl)
  | continueLoop => exact turns_plain (hturn.pure rfl)
  | elseIf => exact turns_before (turns_ofExpression hscope hturn fun _ => rfl)
  | otherwise => exact turns_once hturn rfl
  | case => exact turns_before (turns_ofExpression hscope hturn fun _ => rfl)
  | default => exact turns_once hturn rfl
  | foreachElse => exact turns_once hturn rfl
  | forElse => exact turns_once hturn rfl
  | openCapture =>
    refine (mirrors_params hscope false).seq fun arguments => .pure ?_
    rw [Turned, hturn.others _ rfl]
  | closeCapture =>
    refine .pure ?_
    rw [Turned, hturn.others _ rfl]

end Handlers

/-! ## Tags -/

section Tags

variable {faults : Fault → Prop} {turn : Statement → Statement} {d : Dialect}
  {options options' : Options} {frames : List Frame} {line : Nat}

theorem turns_compileOpener {scope scope' : Scope} (hscope : scope.Narrows faults scope')
    (hturn : scope.Turns turn scope') {name : Text} {opener : BlockHandler}
    (hopener : opener.BuiltIn) :
    Mirrors faults (Turned turn) (compileOpener scope name line opener frames)
      (compileOpener scope' name line opener frames) := by
  unfold compileOpener
  refine (hopener.turns hscope hturn).bind ?_
  rintro ⟨s, frame⟩ _ rfl
  exact .pure rfl

theorem turns_compileTag {scope scope' : Scope} (hscope : scope.Narrows faults scope')
    (hturn : scope.Turns turn scope') {tag : Tag} (htag : tag.behaviour.BuiltIn) :
    Mirrors faults (Turned turn) (compileTag scope tag line frames)
      (compileTag scope' tag line frames) := by
  unfold compileTag
  cases hbehaviour : tag.behaviour with
  | inline handler =>
    rw [hbehaviour] at htag
    refine (turns_inline hscope hturn htag).bind ?_
    rintro s _ rfl
    exact .pure rfl
  | function symbol positional =>
    refine (mirrors_params hscope positional).seq fun arguments => .pure ?_
    rw [Turned, hturn.others _ rfl]
  | block block =>
    rw [hbehaviour] at htag
    exact turns_compileOpener hscope hturn htag.opener
  | blockFunction symbol opener closer =>
    rw [hbehaviour] at htag
    obtain ⟨-, rfl, -⟩ := htag
    exact turns_compileOpener hscope hturn .openCapture

variable (hscope : (d.scope options).Narrows faults (d.scope options'))
  (hturn : (d.scope options).Turns turn (d.scope options'))

include hscope hturn

theorem turns_compileChild {child : Text} {inner outer : List Frame} {owner : Frame}
    {handler : BlockHandler} (hhandler : handler.BuiltIn) :
    Mirrors faults (Turned turn) (compileChild d options child inner owner handler outer)
      (compileChild d options' child inner owner handler outer) := by
  have hrest : Mirrors faults (Turned turn)
      (advance >>= fun _ => handler (d.scope options) owner >>=
        fun r => pure (r.1, inner ++ r.2 :: outer))
      (advance >>= fun _ => handler (d.scope options') owner >>=
        fun r => pure (r.1, inner ++ r.2 :: outer)) := by
    refine .step fun _ => (hhandler.turns hscope hturn).bind ?_
    rintro ⟨s, frame⟩ _ rfl
    exact .pure rfl
  unfold compileChild
  cases inner with
  | nil => exact hrest
  | cons top inner => exact .ite (fun _ => hrest) fun _ => .throw

theorem turns_echo :
    Mirrors faults (Turned turn) (do return (.echo (← expression (d.scope options)), frames))
      (do return (.echo (← expression (d.scope options')), frames)) := by
  refine (mirrors_expression hscope).seq fun e => .pure ?_
  rw [Turned, hturn.others _ rfl]

theorem turns_compileNamed (hd : d.BuiltIn) (name : Text) :
    Mirrors faults (Turned turn) (compileNamed d options name line frames)
      (compileNamed d options' name line frames) := by
  unfold compileNamed
  dsimp only
  cases howner : findOwner? d name frames with
  | some found =>
    obtain ⟨inner, owner, handler, outer⟩ := found
    obtain ⟨-, hchild, -⟩ := findOwner?_eq_some howner
    exact turns_compileChild hscope hturn (hd.child hchild)
  | none =>
    cases hfind : d.find? name with
    | some tag =>
      have htag := hd.tags tag (List.mem_of_find?_eq_some hfind)
      exact .step fun _ => turns_compileTag hscope hturn htag
    | none => exact .step fun c => .ite (fun _ => turns_echo hscope hturn) fun _ => .throw

theorem turns_closeFrame (hd : d.BuiltIn) (frame : Frame) :
    Mirrors faults (fun s s' => s' = turn s) (closeFrame d options frame)
      (closeFrame d options' frame) := by
  unfold closeFrame
  cases hblock : d.block? frame.action with
  | none => exact .throw
  | some block =>
    refine ((hd.block hblock).closer.turns hscope hturn).bind ?_
    rintro ⟨s, frame⟩ _ rfl
    exact .pure rfl

theorem turns_compileClose (hd : d.BuiltIn) (name : Text) :
    Mirrors faults (Turned turn) (compileClose d options name frames)
      (compileClose d options' name frames) := by
  unfold compileClose
  cases frames with
  | nil =>
    cases d.find? name with
    | none => exact .throw
    | some tag => exact .ite (fun _ => .throw) fun _ => .throw
  | cons frame outer =>
    have hclose : Mirrors faults (Turned turn) (do return (← closeFrame d options frame, outer))
        (do return (← closeFrame d options' frame, outer)) := by
      refine (turns_closeFrame hscope hturn hd frame).bind ?_
      rintro s _ rfl
      exact .pure rfl
    cases d.find? name with
    | none => exact .ite (fun _ => hclose) fun _ => .throw
    | some tag => exact .ite (fun _ => .ite (fun _ => hclose) fun _ => .throw) fun _ => .throw

theorem turns_compileContent (hd : d.BuiltIn) :
    Mirrors faults (Turned turn) (compileContent d options line frames)
      (compileContent d options' line frames) := by
  unfold compileContent
  refine .step fun c => .ite (fun _ => ?_) fun _ => ?_
  · exact .step fun _ => .step fun name => turns_compileClose hscope hturn hd name
  · cases tagName? c with
    | some name => exact turns_compileNamed hscope hturn hd name
    | none => exact turns_echo hscope hturn

theorem turns_compileBody (hd : d.BuiltIn) (line : Nat) (frames : List Frame) :
    Mirrors faults (Turned turn) (compileBody d options line frames)
      (compileBody d options' line frames) := by
  unfold compileBody
  refine (turns_compileContent hscope hturn hd).bind ?_
  rintro ⟨s, frames'⟩ _ rfl
  refine .step fun c => .ite (fun _ => .pure rfl) fun _ => ?_
  exact .step fun _ => .pure rfl

end Tags

/-! ## Templates -/

/-- The same failure, related results, or in the second place a failure with one of `faults`. -/
inductive Parallel {α : Type} (faults : Fault → Prop) (name : Text) (R : α → α → Prop) :
    Except Failure α → Except Failure α → Prop
  | ok {a a' : α} (h : R a a') : Parallel faults name R (.ok a) (.ok a')
  | error {failure : Failure} : Parallel faults name R (.error failure) (.error failure)
  | refused {r : Except Failure α} {line : Nat} {fault : Fault} (h : faults fault) :
      Parallel faults name R r (.error (Failure.of name line fault))

/-- The relation is kept by whatever is added to both outputs, the second statement turned. -/
structure Template.Output.KeptBy (turn : Statement → Statement) (W : Output → Output → Prop) :
    Prop where
  text : ∀ o o' t, W o o' → W (o.addText t) (o'.addText t)
  statement : ∀ o o' line s, W o o' → W (o.addStatement line s) (o'.addStatement line (turn s))

section Templates

variable {faults : Fault → Prop} {turn : Statement → Statement} {d : Dialect}
  {options options' : Options} {W : Output → Output → Prop}

/-- The same blocks are open, and the outputs are related. -/
def Alongside (W : Output → Output → Prop) (p p' : Progress) : Prop :=
  p'.frames = p.frames ∧ W p.output p'.output

variable (hd : d.BuiltIn) (hscope : (d.scope options).Narrows faults (d.scope options'))
  (hturn : (d.scope options).Turns turn (d.scope options')) (hW : Output.KeptBy turn W)

include hd hscope hturn hW

theorem parallel_segment (name : Text) {p p' : Progress} (hp : Alongside W p p')
    (segment : Segment) :
    Parallel faults name (Alongside W) (compileSegment d options name p segment)
      (compileSegment d options' name p' segment) := by
  obtain ⟨_, output⟩ := p
  obtain ⟨frames, output'⟩ := p'
  obtain ⟨rfl, houtput⟩ := hp
  cases segment with
  | literal text => exact .ok ⟨rfl, hW.text _ _ text houtput⟩
  | tag line body =>
    unfold compileSegment
    dsimp only
    have hbody := turns_compileBody hscope hturn hd line frames (bodyCursor line body)
    generalize compileBody d options line frames (bodyCursor line body) = r at hbody ⊢
    generalize compileBody d options' line frames (bodyCursor line body) = r' at hbody ⊢
    cases hbody with
    | ok ha =>
      cases ha
      exact .ok ⟨rfl, hW.statement _ _ line _ houtput⟩
    | error => exact .error
    | refused hfault => exact .refused hfault

theorem parallel_segments (name : Text) {p p' : Progress} (hp : Alongside W p p')
    (segments : List Segment) :
    Parallel faults name (Alongside W) (segments.foldlM (compileSegment d options name) p)
      (segments.foldlM (compileSegment d options' name) p') := by
  induction segments generalizing p p' with
  | nil => exact .ok hp
  | cons segment more ih =>
    have hfirst := parallel_segment hd hscope hturn hW name hp segment
    rw [List.foldlM_cons, List.foldlM_cons]
    generalize compileSegment d options name p segment = r at hfirst ⊢
    generalize compileSegment d options' name p' segment = r' at hfirst ⊢
    cases hfirst with
    | ok hq => exact ih hq
    | error => exact .error
    | refused hfault => exact .refused hfault

/-- Both templates fail alike, or both compile, or the second one is refused. -/
theorem parallel_compile (name : Text) (hempty : W {} {}) (source : Text) :
    Parallel faults name
      (fun code code' => ∃ o o' : Output, W o o' ∧ code = o.script ∧ code' = o'.script)
      (compile d options name source) (compile d options' name source) := by
  have hstart : Alongside W {} {} := ⟨rfl, hempty⟩
  have hrun := parallel_segments hd hscope hturn hW name hstart (Segment.scan source).segments
  unfold compile
  dsimp only
  generalize (Segment.scan source).segments.foldlM (compileSegment d options name) {} = r at hrun ⊢
  generalize (Segment.scan source).segments.foldlM (compileSegment d options' name) {} = r' at hrun ⊢
  cases hrun with
  | @ok p p' hp =>
    obtain ⟨_, output⟩ := p
    obtain ⟨frames, output'⟩ := p'
    obtain ⟨rfl, houtput⟩ := hp
    cases (Segment.scan source).fault? with
    | some fault => exact .error
    | none =>
      cases frames with
      | cons frame frames => exact .error
      | nil => exact .ok ⟨output, output', houtput, rfl, rfl⟩
  | error => exact .error
  | refused hfault => exact .refused hfault

end Templates

end Stencil
