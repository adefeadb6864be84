import Stencil.Proofs.Openers

/-!
# Child tags and their owners

A child tag goes to the innermost open block that has it, or nowhere. It changes what that block
remembers and nothing else, so tags of other blocks are read as if it were not there.
-/

namespace Stencil

open Template Reading Grammar

variable {d : Dialect} {options : Options} {scope : Scope} {line : Nat} {c : Cursor}
  {child name : Text} {frames inner outer : List Frame} {owner top : Frame}
  {handler : BlockHandler}

/-! ## Finding the owner -/

theorem findOwner?_eq_none_iff :
    findOwner? d child frames = none ↔ ∀ frame ∈ frames, d.child? frame child = none := by
  induction frames with
  | nil => simp [findOwner?]
  | cons frame frames ih =>
    rw [List.forall_mem_cons]
    cases hchild : d.child? frame child with
    | some handler => simp [findOwner?_cons_of_some hchild]
    | none => simp [findOwner?_cons_of_none hchild, ih]

theorem findOwner?_of_innermost (hinner : ∀ frame ∈ inner, d.child? frame child = none)
    (howner : d.child? owner child = some handler) :
    findOwner? d child (inner ++ owner :: outer) = some (inner, owner, handler, outer) := by
  induction inner with
  | nil => exact findOwner?_cons_of_some howner
  | cons frame inner ih =>
    obtain ⟨hframe, hinner⟩ := List.forall_mem_cons.mp hinner
    rw [List.cons_append, findOwner?_cons_of_none hframe, ih hinner]
    rfl

theorem closing?_of_tagName? (h : tagName? c = some name) : closing? c = none := by
  obtain ⟨t, ahead, hahead, hkind, -⟩ := tagName?_eq_some h
  rw [closing?, sees_mark, hahead, nextKind_cons, hkind]
  simp

/-! ## Giving the tag to its owner -/

/-- What a tag does after its content: nothing may be left over. -/
def finish (result : Statement × List Frame) : Reading (Statement × List Frame) := do
  unless (← get).atEnd do refuse []
  return result

theorem finish_apply (result : Statement × List Frame) (c : Cursor) : finish result c =
    if c.atEnd then .ok result c else .error (.unexpected (c.unexpected [])) c := by
  rw [finish, get_bind]
  split <;> rfl

theorem compileContent_child (hname : tagName? c = some child)
    (hfound : findOwner? d child frames = some (inner, owner, handler, outer)) :
    compileContent d options line frames c =
      compileChild d options child inner owner handler outer c := by
  rw [compileContent_of_not_closing (closing?_of_tagName? hname), hname]
  simp only [compileNamed, hfound]

theorem compileChild_handled (h : inner = [] ∨ d.floats owner child = true) :
    compileChild d options child inner owner handler outer = do
      advance
      let (statement, owner) ← handler (d.scope options) owner
      return (statement, inner ++ owner :: outer) := by
  unfold compileChild
  cases inner with
  | nil => rfl
  | cons top inner =>
    have hfloats : d.floats owner child = true := h.resolve_left (List.cons_ne_nil _ _)
    simp [hfloats]

theorem compileChild_misplaced (h : d.floats owner child = false) :
    compileChild d options child (top :: inner) owner handler outer =
      throw (misplaced child owner top) := by
  unfold compileChild
  simp only [List.head?_cons, h]
  rfl

/-! ## Tags of other blocks -/

/-- The tag is read the same way whatever the block `owner` remembers, and leaves that as it is. -/
def Blind (owner : Frame) (depth : Nat) (read : Notes → Reading (Statement × List Frame))
    (c : Cursor) : Prop :=
  (∃ statement inner outer c', outer.length = depth ∧
    ∀ notes, read notes c = .ok (statement, inner ++ { owner with notes } :: outer) c') ∨
  ∃ fault c', ∀ notes, read notes c = .error fault c'

/-- The tag is for the block `owner`, with the blocks `inner` open inside it: it closes the block or
is a child tag that none of `inner` has. -/
def Addresses (d : Dialect) (c : Cursor) (inner : List Frame) (owner : Frame) : Prop :=
  (inner = [] ∧ closing? c = some owner.action) ∨
  ∃ child, tagName? c = some child ∧ (∀ frame ∈ inner, d.child? frame child = none) ∧
    (d.child? owner child).isSome = true

namespace Blind

variable {depth : Nat} {α : Type} {read : Notes → Reading (Statement × List Frame)}

theorem pure (statement : Statement) (inner : List Frame) (h : outer.length = depth) :
    Blind owner depth
      (fun notes => pure (statement, inner ++ { owner with notes } :: outer)) c :=
  .inl ⟨statement, inner, outer, c, h, fun _ => rfl⟩

theorem throw (fault : Fault) : Blind owner depth (fun _ => throw fault) c :=
  .inr ⟨fault, c, fun _ => rfl⟩

theorem bind {m : Reading α} {f : Notes → α → Reading (Statement × List Frame)}
    (h : ∀ a c', Blind owner depth (fun notes => f notes a) c') :
    Blind owner depth (fun notes => m >>= f notes) c := by
  simp only [Blind, Bind.bind, EStateM.bind]
  cases m c with
  | ok a c' => exact h a c'
  | error fault c' => exact .inr ⟨fault, c', fun _ => rfl⟩

theorem finish (h : Blind owner depth read c) :
    Blind owner depth (fun notes => read notes >>= Stencil.finish) c := by
  rcases h with ⟨statement, inner, outer, c', hdepth, hrun⟩ | ⟨fault, c', hrun⟩
  · simp only [Blind, bind_of_ok (hrun _), finish_apply]
    split
    · exact .inl ⟨statement, inner, outer, c', hdepth, fun _ => rfl⟩
    · exact .inr ⟨_, c', fun _ => rfl⟩
  · refine .inr ⟨fault, c', fun notes => ?_⟩
    exact bind_eq_error_iff.mpr (.inl (hrun notes))

theorem compileTag (tag : Tag) :
    Blind owner outer.length
      (fun notes => compileTag scope tag line (inner ++ { owner with notes } :: outer)) c := by
  have hopener (opener : BlockHandler) : Blind owner outer.length (fun notes =>
      compileOpener scope tag.name line opener (inner ++ { owner with notes } :: outer)) c :=
    bind fun r _ => pure r.1 (r.2 :: inner) rfl
  unfold Template.compileTag
  cases tag.behaviour with
  | inline handler => exact bind fun statement _ => pure statement inner rfl
  | function symbol positional => exact bind fun ps _ => pure (.echoCall symbol ps) inner rfl
  | block block => exact hopener block.opener
  | blockFunction symbol opener closer => exact hopener opener

theorem compileChild_outer {around : List Frame} {host : Frame} :
    Blind owner (outer ++ host :: around).length (fun notes =>
      compileChild d options child (inner ++ { owner with notes } :: outer) host handler around) c := by
  have hrun : Blind owner (outer ++ host :: around).length (fun notes => do
      advance
      let (statement, host) ← handler (d.scope options) host
      Pure.pure (statement, (inner ++ { owner with notes } :: outer) ++ host :: around)) c := by
    refine bind fun _ _ => bind fun r c' => ?_
    simp only [List.append_assoc, List.cons_append]
    exact pure r.1 inner (by simp)
  cases hfloats : d.floats host child with
  | true => simpa only [compileChild_handled (.inr hfloats)] using hrun
  | false =>
    cases inner with
    | nil =>
      simp only [List.nil_append, compileChild_misplaced hfloats]
      exact .inr ⟨misplaced child host owner, c, fun _ => rfl⟩
    | cons top inner =>
      simp only [List.cons_append, compileChild_misplaced hfloats]
      exact .throw _

theorem compileChild_inner {inside : List Frame} {host : Frame} :
    Blind owner outer.length (fun notes =>
      compileChild d options child inside host handler (inner ++ { owner with notes } :: outer)) c := by
  by_cases h : inside = [] ∨ d.floats host child = true
  · simp only [compileChild_handled h]
    refine bind fun _ _ => bind fun r _ => ?_
    simpa using pure r.1 (inside ++ r.2 :: inner) rfl
  · obtain ⟨hinside, hfloats⟩ := not_or.mp h
    obtain ⟨top, rest, rfl⟩ := List.exists_cons_of_ne_nil hinside
    simp only [compileChild_misplaced (Bool.eq_false_iff.mpr hfloats)]
    exact .throw _

theorem compileNamed (h : (∀ frame ∈ inner, d.child? frame name = none) →
      d.child? owner name = none) :
    Blind owner outer.length (fun notes =>
      compileNamed d options name line (inner ++ { owner with notes } :: outer)) c := by
  unfold Template.compileNamed
  cases hinner : findOwner? d name inner with
  | some found =>
    obtain ⟨inside, host, handler, around⟩ := found
    obtain ⟨rfl, hhost, hinside⟩ := findOwner?_eq_some hinner
    simp only [List.append_assoc, List.cons_append, findOwner?_of_innermost hinside hhost]
    exact compileChild_inner
  | none =>
    rw [findOwner?_eq_none_iff] at hinner
    have howner := h hinner
    have hpassed (notes : Notes) (more : List Frame)
        (hmore : ∀ frame ∈ more, d.child? frame name = none) :
        ∀ frame ∈ inner ++ { owner with notes } :: more, d.child? frame name = none := by
      rw [List.forall_mem_append, List.forall_mem_cons]
      exact ⟨hinner, howner, hmore⟩
    cases houter : findOwner? d name outer with
    | some found =>
      obtain ⟨between, host, handler, around⟩ := found
      obtain ⟨rfl, hhost, hbetween⟩ := findOwner?_eq_some houter
      have hfound (notes : Notes) : findOwner? d name
          (inner ++ { owner with notes } :: between ++ host :: around) = _ :=
        findOwner?_of_innermost (hpassed notes between hbetween) hhost
      simp only [List.append_assoc, List.cons_append] at hfound
      simp only [hfound]
      exact compileChild_outer
    | none =>
      rw [findOwner?_eq_none_iff] at houter
      have hnone (notes : Notes) := findOwner?_eq_none_iff.mpr (hpassed notes outer houter)
      simp only [hnone]
      cases d.find? name with
      | some tag => exact bind fun _ _ => compileTag tag
      | none =>
        refine bind fun here c' => ?_
        split
        · exact bind fun e _ => pure (.echo e) inner rfl
        · exact .throw _

theorem compileClose (h : inner = [] → owner.action ≠ name) :
    Blind owner outer.length (fun notes =>
      compileClose d options name (inner ++ { owner with notes } :: outer)) c := by
  unfold Template.compileClose
  cases inner with
  | nil =>
    simp only [List.nil_append, if_neg (h rfl)]
    split
    · split
      · exact .inr ⟨_, c, fun _ => rfl⟩
      · exact .inr ⟨_, c, fun _ => rfl⟩
    · exact .inr ⟨_, c, fun _ => rfl⟩
  | cons frame inner =>
    have hclose : Blind owner outer.length (fun notes => do
        unless frame.action = name do
          MonadExcept.throw (.mismatchedClose name (some (frame.opening.name, frame.opening.line)))
        Pure.pure (← closeFrame d options frame, inner ++ { owner with notes } :: outer)) c := by
      dsimp only
      split
      · exact bind fun statement _ => pure statement inner rfl
      · exact .inr ⟨_, c, fun _ => rfl⟩
    dsimp only [List.cons_append]
    split
    · split
      · exact hclose
      · exact .inr ⟨_, c, fun _ => rfl⟩
    · exact hclose

theorem compileContent (h : ¬ Addresses d c inner owner) :
    Blind owner outer.length (fun notes =>
      compileContent d options line (inner ++ { owner with notes } :: outer)) c := by
  obtain ⟨hclose, hchild⟩ := not_or.mp h
  cases hclosing : closing? c with
  | some name =>
    have hblind : Blind owner outer.length (fun notes => Template.compileClose d options name
        (inner ++ { owner with notes } :: outer)) c.advance.advance := by
      refine compileClose ?_
      rintro rfl rfl
      exact hclose ⟨rfl, hclosing⟩
    simpa only [Blind, compileContent_closing hclosing] using hblind
  | none =>
    simp only [Blind, compileContent_of_not_closing hclosing]
    cases hname : tagName? c with
    | some name =>
      refine compileNamed fun hinner => ?_
      rw [← Option.not_isSome_iff_eq_none]
      exact fun howner => hchild ⟨name, hname, hinner, howner⟩
    | none => exact bind fun e _ => pure (.echo e) inner rfl

theorem compileBody (h : ¬ Addresses d c inner owner) :
    Blind owner outer.length (fun notes =>
      compileBody d options line (inner ++ { owner with notes } :: outer)) c :=
  (compileContent h).finish

end Blind

/-! ## Runs -/

/-- The stacks are the same, or they differ only in what the block `owner` remembers, which is open
in both and has `depth` blocks around it. -/
def AgreeBut (owner : Frame) (depth : Nat) (stack stack' : List Frame) : Prop :=
  stack = stack' ∨ ∃ inner outer notes notes', outer.length = depth ∧
    stack = inner ++ { owner with notes } :: outer ∧
    stack' = inner ++ { owner with notes := notes' } :: outer

theorem yields_compileClose_top :
    Yields (compileClose d options name (owner :: outer)) (·.2 = outer) := by
  unfold compileClose
  dsimp only
  split
  on_goal 1 => refine .orThrow fun _ => ?_
  all_goals exact .orThrow fun _ => .bind fun _ => .pure rfl

theorem yields_compileChild_owner {P : Frame → Prop}
    (h : Yields (handler (d.scope options) owner) (P ·.2)) :
    Yields (compileChild d options child inner owner handler outer)
      (∃ kept, P kept ∧ ·.2 = inner ++ kept :: outer) := by
  unfold compileChild
  dsimp only
  split
  on_goal 1 => refine .orThrow fun _ => ?_
  all_goals exact .bind fun _ => h.chain fun r hr => .pure ⟨r.2, hr, rfl⟩

/-- A child tag changes its owner as the handler does, and no other frame. -/
theorem frames_of_child {P : Frame → Prop} (h : Yields (handler (d.scope options) owner) (P ·.2))
    {statement : Statement} {frames' : List Frame} {c' : Cursor} (hname : tagName? c = some child)
    (hinner : ∀ frame ∈ inner, d.child? frame child = none)
    (howner : d.child? owner child = some handler)
    (hrun : compileBody d options line (inner ++ owner :: outer) c =
      .ok (statement, frames') c') :
    ∃ kept, P kept ∧ frames' = inner ++ kept :: outer := by
  obtain ⟨_, hcontent⟩ := content_of_compileBody hrun
  rw [compileContent_child hname (findOwner?_of_innermost hinner howner)] at hcontent
  exact yields_compileChild_owner h _ _ _ hcontent

theorem BlockHandler.Faithful.yields_notes (h : handler.Faithful) (scope : Scope) (owner : Frame) :
    Yields (handler scope owner) fun r => r.2 = { owner with notes := r.2.notes } := by
  rintro c ⟨statement, opening, action, notes⟩ c' hrun
  obtain ⟨rfl, rfl⟩ := h scope owner _ _ _ hrun
  rfl

theorem notes_of_child (hd : d.Faithful) {statement : Statement} {frames' : List Frame}
    {c' : Cursor}
    (hrun : compileBody d options line (inner ++ owner :: outer) c = .ok (statement, frames') c')
    (hname : tagName? c = some child) (hinner : ∀ frame ∈ inner, d.child? frame child = none)
    (howner : d.child? owner child = some handler) :
    ∃ notes, frames' = inner ++ { owner with notes } :: outer := by
  obtain ⟨kept, hkept, rfl⟩ :=
    frames_of_child (P := fun kept => kept = { owner with notes := kept.notes })
      ((hd.child howner).yields_notes _ _) hname hinner howner hrun
  exact ⟨kept.notes, by rw [← hkept]⟩

theorem frames_of_close {statement : Statement} {frames' : List Frame} {c' : Cursor}
    (hclosing : closing? c = some name)
    (hrun : compileBody d options line (owner :: outer) c = .ok (statement, frames') c') :
    frames' = outer := by
  obtain ⟨_, hcontent⟩ := content_of_compileBody hrun
  rw [compileContent_closing hclosing] at hcontent
  exact yields_compileClose_top _ _ _ hcontent

namespace AgreeBut

variable {depth : Nat} {stack stack' after after' : List Frame} {statement statement' : Statement}
  {c₁ c₂ : Cursor} {template : Text} {p p' q q' : Progress}

theorem compileBody (hd : d.Faithful) (h : AgreeBut owner depth stack stack')
    (hrun : compileBody d options line stack c = .ok (statement, after) c₁)
    (hrun' : Template.compileBody d options line stack' c = .ok (statement', after') c₂) :
    AgreeBut owner depth after after' := by
  rcases h with rfl | ⟨inner, outer, notes, notes', rfl, rfl, rfl⟩
  · rw [hrun] at hrun'
    cases hrun'
    exact .inl rfl
  by_cases haddresses : Addresses d c inner owner
  · rcases haddresses with ⟨rfl, hclosing⟩ | ⟨child, hname, hinner, howner⟩
    · -- The block is closed in both.
      rw [frames_of_close hclosing hrun, frames_of_close hclosing hrun']
      exact .inl rfl
    · -- Both runs give the tag to the block, which may remember different things after it.
      obtain ⟨handler, howner⟩ := Option.isSome_iff_exists.mp howner
      obtain ⟨kept, rfl⟩ := notes_of_child hd hrun hname hinner howner
      obtain ⟨kept', rfl⟩ := notes_of_child hd hrun' hname hinner howner
      exact .inr ⟨inner, outer, kept, kept', rfl, rfl, rfl⟩
  · have hblind : Blind owner outer.length (fun notes =>
        Template.compileBody d options line (inner ++ { owner with notes } :: outer)) c :=
      .compileBody haddresses
    rcases hblind with ⟨_, inner', outer', _, hdepth, hok⟩ | ⟨_, _, herror⟩
    · cases (hok notes).symm.trans hrun
      cases (hok notes').symm.trans hrun'
      exact .inr ⟨inner', outer', notes, notes', hdepth, rfl, rfl⟩
    · cases (herror notes).symm.trans hrun

theorem compileSegment (hd : d.Faithful) {segment : Segment}
    (h : AgreeBut owner depth p.frames p'.frames)
    (hrun : compileSegment d options template p segment = .ok q)
    (hrun' : Template.compileSegment d options template p' segment = .ok q') :
    AgreeBut owner depth q.frames q'.frames := by
  cases segment with
  | literal text =>
    cases hrun
    cases hrun'
    exact h
  | tag line body =>
    simp only [Template.compileSegment] at hrun hrun'
    split at hrun
    · rename_i hbody
      split at hrun'
      · rename_i hbody'
        cases hrun
        cases hrun'
        exact h.compileBody hd hbody hbody'
      · cases hrun'
    · cases hrun

theorem segments (hd : d.Faithful) {segments : List Segment}
    (h : AgreeBut owner depth p.frames p'.frames)
    (hrun : segments.foldlM (Template.compileSegment d options template) p = .ok q)
    (hrun' : segments.foldlM (Template.compileSegment d options template) p' = .ok q') :
    AgreeBut owner depth q.frames q'.frames := by
  induction segments generalizing p p' with
  | nil =>
    cases hrun
    cases hrun'
    exact h
  | cons segment more ih =>
    obtain ⟨next, hfirst, hmore⟩ := exists_of_foldlM_cons hrun
    obtain ⟨next', hfirst', hmore'⟩ := exists_of_foldlM_cons hrun'
    exact ih (h.compileSegment hd hfirst hfirst') hmore hmore'

end AgreeBut

theorem findOwner?_eq_some_iff :
    findOwner? d child frames = some (inner, owner, handler, outer) ↔
      frames = inner ++ owner :: outer ∧ (∀ frame ∈ inner, d.child? frame child = none) ∧
        d.child? owner child = some handler := by
  constructor
  · intro h
    obtain ⟨hframes, howner, hinner⟩ := findOwner?_eq_some h
    exact ⟨hframes, hinner, howner⟩
  · rintro ⟨rfl, hinner, howner⟩
    exact findOwner?_of_innermost hinner howner

/--
A child tag is for the innermost open block that has it. That block takes the tag if it is the
innermost block of all or lets the tag float; otherwise the tag is misplaced, whatever the blocks
further out have. The tag changes its owner and no other block; where handlers keep the name, the
line and the tag of a block, it changes what the owner remembers and nothing else. So where the rest
of a template is read with and without that change, the open blocks are the same but for what the
owner remembers, and a tag that is not for the owner is read without regard to it.
-/
theorem child_binds_innermost (d : Dialect) (options : Options) (child : Text)
    (frames : List Frame) :
    (findOwner? d child frames = none ↔ ∀ frame ∈ frames, d.child? frame child = none) ∧
    ∀ inner owner handler outer,
      (findOwner? d child frames = some (inner, owner, handler, outer) ↔
        frames = inner ++ owner :: outer ∧ (∀ frame ∈ inner, d.child? frame child = none) ∧
          d.child? owner child = some handler) ∧
      (findOwner? d child frames = some (inner, owner, handler, outer) →
        (∀ line c, tagName? c = some child →
          (inner = [] ∨ d.floats owner child = true →
            compileContent d options line frames c = (do
              advance
              let (statement, owner) ← handler (d.scope options) owner
              return (statement, inner ++ owner :: outer)) c) ∧
          (∀ top ∈ inner.head?, d.floats owner child = false →
            compileBody d options line frames c = .error (.misplaced child owner.opening.name
              owner.opening.line top.opening.name) c) ∧
          ∀ statement frames' c',
            compileBody d options line frames c = .ok (statement, frames') c' →
            ∃ kept, frames' = inner ++ kept :: outer ∧
              (d.Faithful → kept = { owner with notes := kept.notes })) ∧
        (d.Faithful →
          ∀ notes (template : Text) (later : List Segment) (p p' q q' : Progress),
            p.frames = frames → p'.frames = inner ++ { owner with notes } :: outer →
            later.foldlM (compileSegment d options template) p = .ok q →
            later.foldlM (compileSegment d options template) p' = .ok q' →
            q.frames = q'.frames ∨
              ∃ inner outer' kept kept', outer'.length = outer.length ∧
                q.frames = inner ++ { owner with notes := kept } :: outer' ∧
                q'.frames = inner ++ { owner with notes := kept' } :: outer' ∧
                ∀ line c, ¬ Addresses d c inner owner → Blind owner outer.length (fun notes =>
                  compileBody d options line (inner ++ { owner with notes } :: outer')) c)) := by
  refine ⟨findOwner?_eq_none_iff, fun inner owner handler outer =>
    ⟨findOwner?_eq_some_iff, fun hfound => ?_⟩⟩
  obtain ⟨rfl, hinner, howner⟩ := findOwner?_eq_some_iff.mp hfound
  refine ⟨fun line c hname => ⟨fun htakes => ?_, fun top htop hfloats => ?_,
    fun _ _ _ hrun => ?_⟩, fun hd => ?_⟩
  · rw [compileContent_child hname hfound, compileChild_handled htakes]
  · obtain ⟨rest, rfl⟩ := List.head?_eq_some_iff.mp htop
    refine bind_eq_error_iff.mpr (.inl ?_)
    rw [compileContent_child hname hfound, compileChild_misplaced hfloats]
    rfl
  · have hkeeps : Yields (handler (d.scope options) owner) fun r =>
        d.Faithful → r.2 = { owner with notes := r.2.notes } :=
      fun c r c' hrun hd => (hd.child howner).yields_notes _ _ c r c' hrun
    obtain ⟨kept, hkept, rfl⟩ :=
      frames_of_child (P := fun kept => d.Faithful → kept = { owner with notes := kept.notes })
        hkeeps hname hinner howner hrun
    exact ⟨kept, rfl, hkept⟩
  · intro notes template later p p' q q' hp hp' hrun hrun'
    have hagree : AgreeBut owner outer.length p.frames p'.frames :=
      .inr ⟨inner, outer, owner.notes, notes, rfl, hp, hp'⟩
    rcases hagree.segments hd hrun hrun' with heq | ⟨inner', outer', kept, kept', hdepth, hq, hq'⟩
    · exact .inl heq
    · refine .inr ⟨inner', outer', kept, kept', hdepth, hq, hq', fun line c hother => ?_⟩
      rw [← hdepth]
      exact .compileBody hother

/-! A block that has a child tag directly, in a block that lets the same tag float. -/

namespace Menu

def item : BlockHandler := .plain (.constant .breakLoop)

def empty : Block := { opener := item, closer := item }

/-- The standard dialect with three blocks more. -/
def dialect : Dialect :=
  ((Dialect.standard.register
    { name := "page", behaviour := .block (empty.declareFloating "item" item) }).register
    { name := "menu", behaviour := .block (empty.declare "item" item) }).register
    { name := "note", behaviour := .block empty }

def page : Frame := .opened "page" 1

def menu : Frame := .opened "menu" 2

def note : Frame := .opened "note" 3

def loop : Frame := .opened "foreach" 1

def branch (notes : Notes) : Frame := { Frame.opened "if" 2 with notes }

/-- The rest of a template: a child tag of the loop, and a block that is opened in the branch. -/
def later : List Segment := [.tag 4 "break", .literal "x", .tag 5 "capture"]

/-- A branch that remembers `notes`, in a loop. -/
def stack (notes : Notes) : List Frame := [branch notes, loop]

def run (notes : Notes) : Except Failure Progress :=
  later.foldlM (compileSegment Dialect.standard ⟨0⟩ ['t']) { frames := stack notes }

def elseSeen : Notes := [("else".toList, [])]

theorem exists_run (notes : Notes) (h : (run notes).isOk = true) : ∃ q, run notes = .ok q := by
  cases hrun : run notes with
  | ok q => exact ⟨q, rfl⟩
  | error failure =>
    rw [hrun] at h
    cases h

end Menu

open Menu in
theorem child_binds_innermost_menu :
    compileBody dialect ⟨0⟩ 4 [note, menu, page] (bodyCursor 4 "item") =
      .error (.misplaced "item" "menu" 2 "note") (bodyCursor 4 "item") ∧
    Dialect.standard.Faithful ∧ ∃ q q', run [] = .ok q ∧ run elseSeen = .ok q' ∧
      (q.frames = q'.frames ∨ ∃ inner outer kept kept',
        q.frames = inner ++ branch kept :: outer ∧ q'.frames = inner ++ branch kept' :: outer) := by
  refine ⟨?_, Dialect.builtIn_standard.faithful, ?_⟩
  · have hmenu := (child_binds_innermost dialect ⟨0⟩ "item" [note, menu, page]).2
      [note] menu item [page]
    have htag := (hmenu.2 rfl).1 4 (bodyCursor 4 "item") (by decide +kernel)
    exact htag.2.1 note rfl (by decide +kernel)
  · obtain ⟨q, hrun⟩ := exists_run [] (by decide +kernel)
    obtain ⟨q', hrun'⟩ := exists_run elseSeen (by decide +kernel)
    refine ⟨q, q', hrun, hrun', ?_⟩
    have hbranch := (child_binds_innermost Dialect.standard ⟨0⟩ "else" (stack [])).2
      [] (branch []) (Tag.once "else" "else" .otherwise) [loop]
    rcases (hbranch.2 rfl).2 Dialect.builtIn_standard.faithful elseSeen ['t'] later _ _ q q' rfl rfl hrun
      hrun' with heq | ⟨inner, outer, kept, kept', -, hq, hq', -⟩
    · exact .inl heq
    · exact .inr ⟨inner, outer, kept, kept', hq, hq'⟩

end Stencil
