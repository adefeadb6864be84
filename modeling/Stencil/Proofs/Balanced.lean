import Stencil.Proofs.Dispatch

/-!
# Scripts of templates are nested

The open blocks of a template and those of the script written so far are the same, and the notes of
an open block tell whether its last section has started. Every tag that is accepted keeps it so; a
template that ends with no block open has a nested script.
-/

namespace Stencil

open Form (isAtom)
open Grammar Reading Script Tag Template

/-! ## Child tags -/

namespace BlockKind

/-- The note that the last section has started. -/
def key? : BlockKind → Option Text
  | .branch | .foreach | .forRange => some "else"
  | .switch => some "default"
  | _ => none

theorem key_ne_paramsKey {kind : BlockKind} {key : Text} (h : kind.key? = some key) :
    key ≠ paramsKey := by
  cases kind <;> cases h <;> decide

/-- What a handler of a child tag does. -/
inductive Handles (kind : BlockKind) (child : Text) : BlockHandler → Prop
  | leave (hkind : kind.isBreakable = true) : Handles kind child (.plain (.constant .breakLoop))
  | next (hkind : kind.isLoop = true) : Handles kind child (.plain (.constant .continueLoop))
  | arm {key tag word : Text} {handler : InlineHandler} (hdirect : kind.block.floats child = false)
      (hkey : kind.key? = some key) (hword : kind.arm? = some word)
      (hgives : ∀ scope : Scope, Gives (handler scope)
        (·.Tells scope (isAtom · = true) (fun t => ∃ f, Form.Spells t f) word)) :
      Handles kind child (before key tag handler)
  | last {key tag word : Text} {statement : Statement} (hdirect : kind.block.floats child = false)
      (hkey : kind.key? = some key) (hword : kind.last? = some word)
      (hstatement : statement.Says word) : Handles kind child (once key tag statement)

theorem handles_children (kind : BlockKind) :
    ∀ entry ∈ kind.block.children, kind.Handles entry.1 entry.2 := by
  cases kind with
  | foreach =>
    refine List.forall_mem_cons.mpr ⟨.next rfl, List.forall_mem_cons.mpr ⟨.leave rfl, ?_⟩⟩
    exact List.forall_mem_singleton.mpr (.last (by decide) rfl rfl ⟨trivial, rfl⟩)
  | forRange =>
    refine List.forall_mem_cons.mpr ⟨.next rfl, List.forall_mem_cons.mpr ⟨.leave rfl, ?_⟩⟩
    exact List.forall_mem_singleton.mpr (.last (by decide) rfl rfl ⟨trivial, rfl⟩)
  | whileLoop =>
    exact List.forall_mem_cons.mpr ⟨.next rfl, List.forall_mem_singleton.mpr (.leave rfl)⟩
  | branch =>
    refine List.forall_mem_cons.mpr ⟨.last (by decide) rfl rfl ⟨trivial, rfl⟩, ?_⟩
    refine List.forall_mem_singleton.mpr (.arm (by decide) rfl rfl fun scope => ?_)
    exact gives_ofExpression fun _ he => ⟨he, rfl⟩
  | switch =>
    refine List.forall_mem_cons.mpr ⟨.leave rfl, List.forall_mem_cons.mpr ⟨?_, ?_⟩⟩
    · exact .last (by decide) rfl rfl ⟨trivial, rfl⟩
    · refine List.forall_mem_singleton.mpr (.arm (by decide) rfl rfl fun scope => ?_)
      exact gives_ofExpression fun _ he => ⟨he, rfl⟩
  | region => exact List.forall_mem_nil _
  | capture => exact List.forall_mem_nil _

end BlockKind

/-! ## Open blocks and their notes -/

/-- The open block of a template, as it stands in the script. -/
structure Frame.Follows (top : BlockKind × Bool) (frame : Frame) : Prop where
  is : frame.Is top.1
  noted : ∀ key, top.1.key? = some key → frame.notes.has key = top.2
  params : ∀ t, frame.notes.lookup paramsKey = some t → ∃ f, Form.Spells t f

def Follows (stack : Stack) (frames : List Frame) : Prop :=
  List.Forall₂ Frame.Follows stack frames

/-- A statement that may come next, with the blocks that are open after it. -/
def Advances (stack : Stack) (r : Statement × List Frame) : Prop :=
  ∃ stack', Moves stack r.1.line.word stack' ∧ r.1.Clean ∧ Follows stack' r.2

variable {scope : Scope} {stack : Stack} {frames : List Frame}

theorem gives_compileOpener (hscope : scope.Clean) (h : Follows stack frames) (kind : BlockKind)
    (line : Nat) :
    Gives (compileOpener scope kind.name line kind.block.opener frames) (Advances stack) := by
  refine .compileOpener ((kind.gives_opener hscope line).mono fun r hr => ?_)
  obtain ⟨⟨hclean, hword⟩, his, hfresh, hparams⟩ := hr
  refine ⟨(kind, false) :: stack, ?_, hclean, .cons ⟨his, ?_, hparams⟩ h⟩
  · rw [hword]
    exact .opens kind
  · exact fun key hkey => hfresh key (BlockKind.key_ne_paramsKey hkey)

theorem Follows.advances_plain (h : Follows stack frames) {statement : Statement}
    (hplain : ∃ word ∈ plainWords, statement.Says word) : Advances stack (statement, frames) := by
  obtain ⟨word, hword, hclean, rfl⟩ := hplain
  exact ⟨stack, .plain hword, hclean, h⟩

theorem Follows.gives_inline (h : Follows stack frames) (hscope : scope.Clean)
    {handler : InlineHandler} (hgives : Gives (handler scope) fun s => ∃ word ∈ plainWords,
      s.Tells scope (isAtom · = true) (fun t => ∃ f, Form.Spells t f) word) :
    Gives (do return (← handler scope, frames)) (Advances stack) := by
  refine hgives.bind ?_
  rintro s ⟨word, hword, hs⟩
  exact .pure (h.advances_plain ⟨word, hword, hs.toSays hscope⟩)

theorem Follows.gives_echo (h : Follows stack frames) (hscope : scope.Clean) :
    Gives (do return (Statement.echo (← expression scope), frames)) (Advances stack) :=
  gives_expression.bind fun e he =>
    .pure (h.advances_plain ⟨"echo", by decide, e.clean_of_licensed hscope he, rfl⟩)

theorem gives_compileTag (hscope : scope.Clean) (h : Follows stack frames) {tag : Tag}
    (htag : tag ∈ Tag.standard) (line : Nat) :
    Gives (compileTag scope tag line frames) (Advances stack) := by
  have hopener := gives_compileOpener hscope h
  simp only [Tag.standard, List.mem_cons, List.not_mem_nil, or_false] at htag
  rcases htag with rfl | rfl | rfl | rfl | rfl | rfl | rfl | rfl | rfl | rfl | rfl
  · exact hopener .foreach line
  · exact hopener .forRange line
  · exact hopener .whileLoop line
  · exact hopener .branch line
  · exact hopener .switch line
  · exact hopener .region line
  · exact h.gives_inline hscope gives_assign
  · exact h.gives_inline hscope gives_inclusion
  · exact h.gives_inline hscope gives_parent
  · exact hopener .capture line
  · refine (gives_params false).bind fun ps hps => .pure (h.advances_plain ?_)
    exact ⟨"echo", by decide, ⟨by decide, fun p hp => (hps p hp).clean hscope⟩, rfl⟩

theorem gives_compileClose (h : Follows stack frames) (options : Options) (name : Text) :
    Gives (compileClose Dialect.standard options name frames) (Advances stack) := by
  refine .compileClose fun frame outer block hframes hblock => ?_
  subst hframes
  cases h with
  | @cons top _ stack _ hframe hrest =>
    cases hframe.is.block?_eq.symm.trans hblock
    refine (top.1.gives_closer hframe.params).mono fun r hr => ⟨stack, ?_, hr.1, hrest⟩
    rw [hr.2]
    exact .closes

theorem Follows.split {inner outer : List Frame} {owner : Frame}
    (h : Follows stack (inner ++ owner :: outer)) :
    ∃ below top above, stack = below ++ top :: above ∧ Follows below inner ∧
      Frame.Follows top owner ∧ Follows above outer := by
  induction inner generalizing stack with
  | nil =>
    cases h with
    | cons howner houter => exact ⟨[], _, _, rfl, .nil, howner, houter⟩
  | cons frame inner ih =>
    cases h with
    | cons hframe hrest =>
      obtain ⟨below, top, above, rfl, hbelow, howner, habove⟩ := ih hrest
      exact ⟨_ :: below, top, above, rfl, .cons hframe hbelow, howner, habove⟩

theorem Frame.Follows.ends {kind : BlockKind} {ended : Bool} {frame : Frame} {key : Text}
    (h : Frame.Follows (kind, ended) frame) (hkey : kind.key? = some key) :
    Frame.Follows (kind, true) (frame.put key []) := by
  refine ⟨h.is.put key [], ?_, ?_⟩
  · intro key' hkey'
    cases hkey.symm.trans hkey'
    simp [Frame.put, Notes.has, Notes.put]
  · intro t ht
    have hne : (paramsKey == key) = false :=
      beq_false_of_ne (BlockKind.key_ne_paramsKey hkey).symm
    simp only [Frame.put, Notes.put, List.lookup_cons, hne] at ht
    exact h.params t ht

/-- A child tag is handled where it stands directly in its owner, or may stand deeper. -/
theorem gives_child {options : Options} {child : Text} {inner outer : List Frame}
    {owner : Frame} {handler : BlockHandler} (h : Follows stack (inner ++ owner :: outer))
    (hchild : Dialect.standard.child? owner child = some handler) :
    Gives (compileChild Dialect.standard options child inner owner handler outer)
      (Advances stack) := by
  obtain ⟨below, ⟨kind, ended⟩, above, rfl, hbelow, howner, habove⟩ := h.split
  rw [howner.is.child?_eq] at hchild
  have hhandles := kind.handles_children _ (Block.mem_children hchild)
  refine .compileChild fun hplace => ?_
  rw [howner.is.floats_eq] at hplace
  -- A tag that does not float stands directly in its owner, so nothing lies below.
  have hdirectly : kind.block.floats child = false → below = [] ∧ inner = [] := by
    intro hdirect
    rcases hplace with rfl | hfloats
    · exact ⟨List.forall₂_nil_right_iff.mp hbelow, rfl⟩
    · exact absurd hfloats (by simp [hdirect])
  have hended : ∀ key, kind.key? = some key → ¬ owner.has key = true → ended = false :=
    fun key hkey hnone => (howner.noted key hkey).symm.trans (Bool.eq_false_of_not_eq_true hnone)
  dsimp only at hhandles
  cases hhandles with
  | leave hkind =>
    refine Gives.bind (P := (· = .breakLoop)) (.pure rfl) fun s hs => .pure ?_
    subst hs
    exact ⟨_, .leave (by simp [Stack.kinds, hkind]), trivial, h⟩
  | next hkind =>
    refine Gives.bind (P := (· = .continueLoop)) (.pure rfl) fun s hs => .pure ?_
    subst hs
    exact ⟨_, .next (by simp [Stack.kinds, hkind]), trivial, h⟩
  | arm hdirect hkey hword hgives =>
    obtain ⟨rfl, rfl⟩ := hdirectly hdirect
    refine .guard fun hnone => (hgives _).bind fun s hs => .pure ?_
    cases hended _ hkey hnone
    refine ⟨_, ?_, (hs.toSays (Scope.clean_standard options)).1, h⟩
    rw [hs.2]
    exact .arm hword
  | last hdirect hkey hword hstatement =>
    obtain ⟨rfl, rfl⟩ := hdirectly hdirect
    refine .guard fun hnone => .pure ?_
    cases hended _ hkey hnone
    refine ⟨(kind, true) :: above, ?_, hstatement.1, .cons (howner.ends hkey) habove⟩
    rw [hstatement.2]
    exact .last hword

/-! ## Tags as a whole -/

theorem gives_compileNamed (h : Follows stack frames) (options : Options) (name : Text)
    (line : Nat) :
    Gives (compileNamed Dialect.standard options name line frames) (Advances stack) := by
  have hscope := Scope.clean_standard options
  refine .compileNamed ?_ ?_ (h.gives_echo hscope)
  · rintro inner owner handler outer rfl hchild
    exact gives_child h hchild
  · intro tag htag
    exact gives_compileTag hscope h (List.mem_of_find?_eq_some htag) line

theorem gives_compileBody (h : Follows stack frames) (options : Options) (line : Nat) :
    Gives (compileBody Dialect.standard options line frames) (Advances stack) := by
  refine .compileBody (.compileContent ?_ ?_ ?_)
  · exact gives_compileClose h options
  · exact fun name => gives_compileNamed h options name line
  · exact h.gives_echo (Scope.clean_standard options)

theorem advances_of_compileBody {options : Options} {line : Nat} {body : Text} {c : Cursor}
    {r : Statement × List Frame} (h : Follows stack frames)
    (hrun : compileBody Dialect.standard options line frames (bodyCursor line body) = .ok r c) :
    Advances stack r :=
  have hlexed : (bodyCursor line body).Lexed := (Cursor.lexed_ofText body line).filter _
  (gives_compileBody h options line _ _ c hlexed hrun).1

/-! ## Templates -/

/-- The script so far follows the open blocks of the template. -/
structure Nested (stack : Stack) (lines : List Line) (p : Progress) : Prop where
  frames : Follows stack p.frames
  output : p.output.Holds lines
  words : Unfinished stack (lines.map Line.word)

theorem nested_empty : Nested [] [] {} := ⟨.nil, .empty, .top .nil⟩

theorem Nested.segment {lines : List Line} {p p' : Progress} {options : Options} {name : Text}
    {segment : Segment} (h : Nested stack lines p)
    (hsegment : compileSegment Dialect.standard options name p segment = .ok p') :
    ∃ stack' line, Nested stack' (lines ++ [line]) p' := by
  cases segment with
  | literal text =>
    cases hsegment
    have hword : "text".toList ∈ plainWords := by decide
    refine ⟨stack, (Statement.text text).line, h.frames, h.output.addText text, ?_⟩
    rw [List.map_append]
    exact h.words.moves (.plain hword)
  | tag line body =>
    obtain ⟨statement, hadvances, houtput⟩ :=
      exists_of_compileSegment (gives_compileBody h.frames options line) hsegment
    obtain ⟨stack', hmoves, hclean, hframes⟩ := hadvances
    refine ⟨stack', statement.line, hframes, ?_, ?_⟩
    · rw [houtput]
      exact h.output.addStatement hclean line
    · rw [List.map_append]
      exact h.words.moves hmoves

theorem Nested.segments {lines : List Line} {p p' : Progress} {options : Options} {name : Text}
    {segments : List Segment} (h : Nested stack lines p)
    (hsegments : segments.foldlM (compileSegment Dialect.standard options name) p = .ok p') :
    ∃ stack' lines', Nested stack' lines' p' := by
  refine foldlM_preserves (I := fun p => ∃ stack lines, Nested stack lines p) ?_
    ⟨stack, lines, h⟩ hsegments
  rintro p segment p' ⟨stack, lines, h⟩ hsegment
  obtain ⟨stack', line, h'⟩ := h.segment hsegment
  exact ⟨stack', _, h'⟩

/--
A script that comes from a template is one statement a line, with markers between them, and the
statements are well nested.
-/
theorem compile_wellNested {options : Options} {name source code : Text}
    (h : compile Dialect.standard options name source = .ok code) :
    ∃ lines, Script.lines? code = some lines ∧ WellNested (lines.map Line.word) ∧
      ∀ l ∈ code.lines, isCode l = true ∨ ∃ n, l = Output.marker n := by
  obtain ⟨p, hfold, hframes, rfl⟩ := compile_eq_ok h
  obtain ⟨stack, lines, hp⟩ := nested_empty.segments hfold
  refine ⟨lines, hp.output.lines?, ?_, ?_⟩
  · have hempty : Follows stack [] := hframes ▸ hp.frames
    cases hempty
    cases hp.words with
    | top hbody => exact hbody
  · rw [hp.output.lines_eq]
    exact hp.output.markers

/-- A loop with a branch and a capture in it, and a way out of all of them. -/
def deepBreak : Text :=
  ("\x7bforeach $a as $b\x7d\x7bif $b\x7d\x7bcapture\x7d\x7bbreak\x7d\x7b/capture\x7d" ++
    "\x7belse\x7dx\x7b/if\x7d\x7bforeachelse\x7dy\n\x7b/foreach\x7d").toList

theorem compile_wellNested_deepBreak :
    ∃ code lines, compile Dialect.standard ⟨0⟩ ['t'] deepBreak = .ok code ∧
      Script.lines? code = some lines ∧ WellNested (lines.map Line.word) ∧
      ∀ l ∈ code.lines, isCode l = true ∨ ∃ n, l = Output.marker n := by
  have hdone : (compile Dialect.standard ⟨0⟩ ['t'] deepBreak).isOk = true := by decide +kernel
  cases hcompile : compile Dialect.standard ⟨0⟩ ['t'] deepBreak with
  | error failure =>
    rw [hcompile] at hdone
    cases hdone
  | ok code =>
    obtain ⟨lines, hnested⟩ := compile_wellNested hcompile
    exact ⟨code, lines, rfl, hnested⟩

end Stencil
