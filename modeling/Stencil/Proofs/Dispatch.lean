import Stencil.Proofs.Handled

/-!
# From handlers to templates

What holds of all that the handlers give holds of all that a tag gives, and what every segment keeps
is kept by a template.
-/

namespace Stencil

open Grammar Reading Template

variable {d : Dialect} {options : Options} {scope : Scope} {frames : List Frame} {line : Nat}
  {P : Statement × List Frame → Prop}

namespace Gives

theorem compileChild {child : Text} {inner outer : List Frame} {owner : Frame}
    {handler : BlockHandler}
    (h : inner = [] ∨ d.floats owner child = true →
      Gives (handler (d.scope options) owner) fun r => P (r.1, inner ++ r.2 :: outer)) :
    Gives (compileChild d options child inner owner handler outer) P := by
  unfold Template.compileChild
  cases inner with
  | nil => exact advance.seq fun _ => (h (.inl rfl)).bind fun _ hr => .pure hr
  | cons frame inner =>
    refine .orThrow fun hfloats => advance.seq fun _ => ?_
    exact (h (.inr hfloats)).bind fun _ hr => .pure hr

theorem compileOpener {name : Text} {opener : BlockHandler}
    (h : Gives (opener scope (.opened name line)) fun r => P (r.1, r.2 :: frames)) :
    Gives (compileOpener scope name line opener frames) P := by
  unfold Template.compileOpener
  exact h.bind fun _ hr => .pure hr

theorem closeFrame {frame : Frame} {Q : Statement → Prop}
    (h : ∀ block, d.block? frame.action = some block →
      Gives (block.closer (d.scope options) frame) fun r => Q r.1) :
    Gives (closeFrame d options frame) Q := by
  unfold Template.closeFrame
  cases hblock : d.block? frame.action with
  | none => exact .throw _
  | some block => exact (h block hblock).bind fun r hr => .pure hr

theorem compileClose {name : Text}
    (h : ∀ frame outer block, frames = frame :: outer → d.block? frame.action = some block →
      Gives (block.closer (d.scope options) frame) fun r => P (r.1, outer)) :
    Gives (compileClose d options name frames) P := by
  unfold Template.compileClose
  dsimp only
  split
  on_goal 1 => refine .orThrow fun _ => ?_
  all_goals
    cases frames with
    | nil => exact .throw _
    | cons frame outer =>
      refine .orThrow fun _ => ?_
      exact (closeFrame fun block hblock => h frame outer block rfl hblock).bind fun r hr => .pure hr

theorem compileNamed {name : Text}
    (hchild : ∀ inner owner handler outer, frames = inner ++ owner :: outer →
      d.child? owner name = some handler →
      Gives (Template.compileChild d options name inner owner handler outer) P)
    (htag : ∀ tag, d.find? name = some tag →
      Gives (compileTag (d.scope options) tag line frames) P)
    (hecho : Gives (do return (.echo (← expression (d.scope options)), frames)) P) :
    Gives (compileNamed d options name line frames) P := by
  unfold Template.compileNamed
  dsimp only
  cases howner : findOwner? d name frames with
  | some found =>
    obtain ⟨inner, owner, handler, outer⟩ := found
    obtain ⟨hframes, hhandler, -⟩ := findOwner?_eq_some howner
    exact hchild inner owner handler outer hframes hhandler
  | none =>
    cases hfind : d.find? name with
    | some tag => exact advance.seq fun _ => htag tag hfind
    | none =>
      refine get.seq fun c => ?_
      split
      · exact hecho
      · exact .throw _

theorem compileContent
    (hclose : ∀ name, Gives (Template.compileClose d options name frames) P)
    (hnamed : ∀ name, Gives (Template.compileNamed d options name line frames) P)
    (hecho : Gives (do return (.echo (← expression (d.scope options)), frames)) P) :
    Gives (compileContent d options line frames) P := by
  unfold Template.compileContent
  refine get.seq fun c => ?_
  split
  · exact advance.seq fun _ => takeAny.seq hclose
  · split
    · exact hnamed _
    · exact hecho

theorem compileBody (h : Gives (Template.compileContent d options line frames) P) :
    Gives (compileBody d options line frames) P := by
  unfold Template.compileBody
  refine h.bind fun r hr => get.seq fun c => ?_
  dsimp only
  split
  · exact .pure hr
  · exact (refuse (P := fun _ => True) _).seq fun _ => .pure hr

end Gives

/-! ## Templates -/

section

variable {name : Text} {p p' : Progress}

theorem exists_of_compileSegment {body : Text} (h : Gives (compileBody d options line p.frames) P)
    (hrun : compileSegment d options name p (.tag line body) = .ok p') :
    ∃ statement, P (statement, p'.frames) ∧ p'.output = p.output.addStatement line statement := by
  simp only [compileSegment] at hrun
  split at hrun
  · rename_i statement frames c hbody
    cases hrun
    have hlexed : (bodyCursor line body).Lexed := (Cursor.lexed_ofText body line).filter _
    exact ⟨statement, (h _ _ c hlexed hbody).1, rfl⟩
  · cases hrun

theorem exists_of_foldlM_cons {segment : Segment} {more : List Segment}
    (hrun : (segment :: more).foldlM (compileSegment d options name) p = .ok p') :
    ∃ next, compileSegment d options name p segment = .ok next ∧
      more.foldlM (compileSegment d options name) next = .ok p' := by
  rw [List.foldlM_cons] at hrun
  cases hfirst : compileSegment d options name p segment with
  | error failure =>
    rw [hfirst] at hrun
    cases hrun
  | ok next =>
    rw [hfirst] at hrun
    exact ⟨next, rfl, hrun⟩

theorem foldlM_preserves {I : Progress → Prop}
    (hstep : ∀ p segment p', I p → compileSegment d options name p segment = .ok p' → I p')
    (hp : I p) {segments : List Segment}
    (hrun : segments.foldlM (compileSegment d options name) p = .ok p') : I p' := by
  induction segments generalizing p with
  | nil =>
    cases hrun
    exact hp
  | cons segment more ih =>
    obtain ⟨next, hfirst, hmore⟩ := exists_of_foldlM_cons hrun
    exact ih (hstep p segment next hp hfirst) hmore

theorem compile_eq_ok_iff {source code : Text} :
    compile d options name source = .ok code ↔ (Segment.scan source).fault? = none ∧
      ∃ p : Progress, (Segment.scan source).segments.foldlM (compileSegment d options name) {} = .ok p ∧
        p.frames = [] ∧ p.output.script = code := by
  unfold compile
  cases hfold : (Segment.scan source).segments.foldlM (compileSegment d options name) {} with
  | error failure => simp [hfold, bind, Except.bind]
  | ok p =>
    obtain ⟨frames, output⟩ := p
    cases hfault : (Segment.scan source).fault? with
    | some fault => simp [hfold, hfault, bind, Except.bind, throw, throwThe, MonadExceptOf.throw]
    | none =>
      cases frames with
      | nil => simp [hfold, hfault, bind, Except.bind, pure, Except.pure]
      | cons frame frames =>
        simp [hfold, hfault, bind, Except.bind, throw, throwThe, MonadExceptOf.throw]

theorem compile_eq_ok {source code : Text}
    (h : compile d options name source = .ok code) :
    ∃ p : Progress, (Segment.scan source).segments.foldlM (compileSegment d options name) {} = .ok p ∧
      p.frames = [] ∧ p.output.script = code :=
  (compile_eq_ok_iff.mp h).2

end

end Stencil
