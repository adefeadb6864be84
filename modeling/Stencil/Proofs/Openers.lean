import Stencil.Proofs.Balanced
import Stencil.Proofs.Positions
import Stencil.Proofs.Sandbox

/-!
# Open blocks and the tags that opened them

Each tag opens a block, closes one by name, or leaves the open blocks as they are, unless a handler
gives an open block another name, line or tag. The blocks that are open at some point of a template
are those whose opening tag has no closing tag yet.
-/

namespace Stencil

open Template Reading Grammar

/-! ## Effects -/

/-- What a tag does to the open blocks. -/
inductive Effect where
  | opens (opening : Opening)
  | closes (name : Text)
  | stays
deriving DecidableEq, Repr

namespace Effect

/-- Every block that is opened is closed again, by its name and before the blocks around it. -/
inductive Balanced : List Effect → Prop
  | nil : Balanced []
  | stays {w : List Effect} : Balanced w → Balanced (w ++ [.stays])
  | block {w inside : List Effect} {o : Opening} : Balanced w → Balanced inside →
    Balanced (w ++ .opens o :: (inside ++ [.closes o.name]))

/-- The openings that nothing closes, outermost first. All else is balanced. -/
inductive Leaves : List Effect → List Opening → Prop
  | balanced {w : List Effect} : Balanced w → Leaves w []
  | opening {w inside : List Effect} {opens : List Opening} {o : Opening} : Leaves w opens →
    Balanced inside → Leaves (w ++ .opens o :: inside) (opens ++ [o])

/-- The openings left after one more effect, innermost first; none if it closes the wrong block. -/
def apply (opens : List Opening) : Effect → Option (List Opening)
  | .opens o => some (o :: opens)
  | .closes name =>
    match opens with
    | o :: outer => if o.name = name then some outer else none
    | [] => none
  | .stays => some opens

variable {w w' : List Effect} {opens opens' : List Opening} {o : Opening} {e : Effect}

theorem Leaves.last (h : Leaves w (opens ++ [o])) :
    ∃ before inside, w = before ++ .opens o :: inside ∧ Leaves before opens ∧ Balanced inside := by
  generalize hall : opens ++ [o] = all at h
  cases h with
  | balanced _ => simp at hall
  | opening hbefore hinside =>
    obtain ⟨rfl, heq⟩ := List.append_inj' hall rfl
    cases heq
    exact ⟨_, _, rfl, hbefore, hinside⟩

theorem Leaves.of_none (h : Leaves w []) : Balanced w := by
  generalize hall : ([] : List Opening) = all at h
  cases h with
  | balanced hw => exact hw
  | opening _ _ => simp at hall

theorem Leaves.append (h : Leaves w opens) (extend : ∀ w, Balanced w → Balanced (w ++ w')) :
    Leaves (w ++ w') opens := by
  cases h with
  | balanced hw => exact .balanced (extend _ hw)
  | opening hbefore hinside =>
    rw [List.append_assoc, List.cons_append]
    exact .opening hbefore (extend _ hinside)

theorem Leaves.apply (h : Leaves w opens.reverse) (he : e.apply opens = some opens') :
    Leaves (w ++ [e]) opens'.reverse := by
  cases e with
  | opens o =>
    cases he
    rw [List.reverse_cons]
    exact .opening h .nil
  | closes name =>
    cases opens with
    | nil => cases he
    | cons o outer =>
      simp only [Effect.apply, Option.ite_none_right_eq_some, Option.some.injEq] at he
      obtain ⟨rfl, rfl⟩ := he
      rw [List.reverse_cons] at h
      -- The block that is closed joins the balanced part in front of its opening.
      obtain ⟨before, inside, rfl, hbefore, hinside⟩ := h.last
      have happend := hbefore.append fun w hw => hw.block hinside (o := o)
      simpa using happend
  | stays =>
    cases he
    exact h.append fun w hw => hw.stays

theorem Balanced.foldlM_apply (h : Balanced w) (opens : List Opening) :
    w.foldlM apply opens = some opens := by
  induction h generalizing opens with
  | nil => rfl
  | stays _ ih => simp [List.foldlM_append, ih, Effect.apply]
  | block _ _ ih ihinside => simp [List.foldlM_append, ih, ihinside, Effect.apply]

theorem Leaves.foldlM_apply (h : Leaves w opens) :
    w.foldlM Effect.apply [] = some opens.reverse := by
  induction h with
  | balanced hw => exact hw.foldlM_apply []
  | opening _ hinside ih => simp [List.foldlM_append, ih, hinside.foldlM_apply, Effect.apply]

theorem Leaves.unique (h : Leaves w opens) (h' : Leaves w opens') : opens = opens' := by
  have heq := h.foldlM_apply.symm.trans h'.foldlM_apply
  simpa using heq

end Effect

/-! ## The effect of a tag -/

/-- The name that a closing tag gives. -/
def closing? (c : Cursor) : Option Text :=
  if c.sees (mark "/") && c.seesNext [.kind .name] then c.next?.map Token.text else none

/-- An open block has `child` as a child tag. -/
def Dialect.hasChild (d : Dialect) (opens : List Opening) (child : Text) : Bool :=
  opens.any fun o => (d.find? o.name).any (·.owns child)

def Dialect.hasBlock (d : Dialect) (name : Text) : Bool := (d.find? name).any (·.kind.isBlock)

/--
What a tag on `line` does. A child tag of an open block opens nothing, even if the dialect has a
block of that name.
-/
def tagEffect (d : Dialect) (opens : List Opening) (line : Nat) (c : Cursor) : Effect :=
  match closing? c, tagName? c with
  | some name, _ => .closes name
  | none, some name =>
    if !d.hasChild opens name && d.hasBlock name then .opens { name, line } else .stays
  | none, none => .stays

def segmentEffect (d : Dialect) (opens : List Opening) : Segment → Effect
  | .literal _ => .stays
  | .tag line body => tagEffect d opens line (bodyCursor line body)

/-- The effects of some segments, one after the other, where the blocks `opens` are open. -/
def effectsFrom (d : Dialect) (opens : List Opening) : List Segment → List Effect
  | [] => []
  | segment :: more =>
    let effect := segmentEffect d opens segment
    effect :: effectsFrom d ((effect.apply opens).getD opens) more

def effects (d : Dialect) (segments : List Segment) : List Effect := effectsFrom d [] segments

/-! ## What a tag does to the frames -/

theorem Tag.isBlock_eq (t : Tag) : t.kind.isBlock = t.block?.isSome := by
  unfold Tag.kind Tag.block?
  cases t.behaviour <;> rfl

theorem Block.child?_isSome (b : Block) (child : Text) :
    (b.child? child).isSome = decide (child ∈ b.children.map Prod.fst) := by
  rw [Bool.eq_iff_iff, decide_eq_true_iff, Option.isSome_iff_ne_none, Block.child?, ne_eq,
    List.lookup_eq_none_iff]
  simp

theorem Tag.owns_eq (t : Tag) (child : Text) :
    t.owns child = (t.block?.bind (·.child? child)).isSome := by
  unfold Tag.owns Tag.children Tag.block?
  cases t.behaviour with
  | block b => exact (b.child?_isSome child).symm
  | _ => rfl

theorem Dialect.child?_isSome (d : Dialect) (frame : Frame) (child : Text) :
    (d.child? frame child).isSome = (d.find? frame.action).any (·.owns child) := by
  rw [Dialect.child?, Dialect.block?]
  cases d.find? frame.action with
  | none => rfl
  | some tag => exact (tag.owns_eq child).symm

/-- Whatever the reader comes to, it has the property. -/
def Yields {α : Type} (read : Reading α) (P : α → Prop) : Prop :=
  ∀ c a c', read c = .ok a c' → P a

namespace Yields

variable {α β : Type} {P : α → Prop}

theorem pure {a : α} (h : P a) : Yields (pure a) P := by
  rintro c _ _ ⟨⟩
  exact h

theorem throw (fault : Fault) : Yields (throw fault) P := by
  rintro c a c' ⟨⟩

theorem bind {m : Reading β} {f : β → Reading α} (h : ∀ b, Yields (f b) P) :
    Yields (m >>= f) P := by
  intro c a c' hrun
  obtain ⟨b, c'', -, hf⟩ := bind_eq_ok hrun
  exact h b c'' a c' hf

theorem chain {m : Reading β} {f : β → Reading α} {Q : β → Prop} (h : Yields m Q)
    (hf : ∀ b, Q b → Yields (f b) P) : Yields (m >>= f) P := by
  intro c a c' hrun
  obtain ⟨b, c'', hm, hb⟩ := bind_eq_ok hrun
  exact hf b (h c b c'' hm) c'' a c' hb

theorem orThrow {read : Reading α} {p : Prop} [Decidable p] {fault : Fault}
    {f : PUnit → Reading α} (h : p → Yields read P) :
    Yields (if p then read else MonadExcept.throw fault >>= f) P := by
  split
  · rename_i hp
    exact h hp
  · rintro c a c' ⟨⟩

end Yields

/-! ## Handlers that keep the block -/

/-- The handler leaves the name, the line and the tag of the block as they are. -/
def BlockHandler.Faithful (handler : BlockHandler) : Prop :=
  ∀ scope frame, Yields (handler scope frame) fun r =>
    r.2.opening = frame.opening ∧ r.2.action = frame.action

/-- A closing handler may do as it likes: the block is gone after it. -/
structure Block.Faithful (b : Block) : Prop where
  opener : b.opener.Faithful
  children : ∀ entry ∈ b.children, entry.2.Faithful

def Dialect.Faithful (d : Dialect) : Prop := ∀ tag ∈ d.tags, ∀ block ∈ tag.block?, block.Faithful

/-- No closing handler says by itself that the closing tag is the wrong one. -/
def Dialect.Quiet (d : Dialect) : Prop :=
  ∀ tag ∈ d.tags, ∀ block ∈ tag.block?, ∀ scope frame c name opening? c',
    block.closer scope frame c ≠ .error (.mismatchedClose name opening?) c'

theorem Dialect.Faithful.child {d : Dialect} (h : d.Faithful) {frame : Frame} {child : Text}
    {handler : BlockHandler} (hchild : d.child? frame child = some handler) :
    handler.Faithful := by
  obtain ⟨block, hblock, hhandler⟩ := Option.bind_eq_some_iff.mp hchild
  obtain ⟨tag, htag, hblock⟩ := Dialect.exists_of_block? hblock
  exact (h tag htag block hblock).children _ (Block.mem_children hhandler)

/-- The block has the tag that opened it. -/
def Frame.Proper (frame : Frame) : Prop := frame.action = frame.opening.name

/-- The frames after a tag: the openings are those that its effect leaves. -/
def Reaches (frames : List Frame) (effect : Effect) (frames' : List Frame) : Prop :=
  effect.apply (frames.map Frame.opening) = some (frames'.map Frame.opening) ∧
    ∀ frame ∈ frames', frame.Proper

section Frames

variable {d : Dialect} {scope : Scope} {frames : List Frame}

theorem reaches_stays (h : ∀ frame ∈ frames, frame.Proper) : Reaches frames .stays frames :=
  ⟨rfl, h⟩

theorem yields_compileChild {options : Options} {child : Text} {inner outer : List Frame}
    {owner : Frame} {handler : BlockHandler} (hhandler : handler.Faithful)
    (h : ∀ frame ∈ inner ++ owner :: outer, frame.Proper) :
    Yields (compileChild d options child inner owner handler outer)
      fun r => Reaches (inner ++ owner :: outer) .stays r.2 := by
  obtain ⟨hinner, howner, houter⟩ := List.forall_mem_append.mp h |>.imp_right List.forall_mem_cons.mp
  have hhandled : Yields
      (handler (d.scope options) owner >>= fun r => pure (r.1, inner ++ r.2 :: outer))
      fun r => Reaches (inner ++ owner :: outer) .stays r.2 := by
    refine (hhandler _ owner).chain fun r hkept => ?_
    obtain ⟨hopening, haction⟩ := hkept
    refine .pure ⟨?_, ?_⟩
    · simp [Effect.apply, hopening]
    · refine List.forall_mem_append.mpr ⟨hinner, List.forall_mem_cons.mpr ⟨?_, houter⟩⟩
      rw [Frame.Proper, haction, hopening]
      exact howner
  unfold compileChild
  dsimp only
  split
  · exact .orThrow fun _ => .bind fun _ => hhandled
  · exact .bind fun _ => hhandled

theorem yields_compileOpener {name : Text} {line : Nat} {opener : BlockHandler}
    (hopener : opener.Faithful) (h : ∀ frame ∈ frames, frame.Proper) :
    Yields (compileOpener scope name line opener frames)
      fun r => Reaches frames (.opens { name, line }) r.2 := by
  unfold compileOpener
  refine (hopener _ _).chain fun r hkept => ?_
  obtain ⟨hopening, haction⟩ := hkept
  refine .pure ⟨?_, ?_⟩
  · simp [Effect.apply, hopening, Frame.opened]
  · refine List.forall_mem_cons.mpr ⟨?_, h⟩
    rw [Frame.Proper, haction, hopening]
    rfl

theorem Tag.name_of_find {name : Text} {tag : Tag} (h : d.find? name = some tag) :
    tag.name = name := by
  simpa using List.find?_some h

theorem yields_compileTag (hd : d.Faithful) {name : Text} {tag : Tag} (line : Nat)
    (h : ∀ frame ∈ frames, frame.Proper) (htag : d.find? name = some tag) :
    Yields (compileTag scope tag line frames) fun r =>
      Reaches frames (if d.hasBlock name then .opens { name, line } else .stays) r.2 := by
  have hname := Tag.name_of_find htag
  have hblock : d.hasBlock name = tag.block?.isSome := by
    rw [Dialect.hasBlock, htag, Option.any_some, Tag.isBlock_eq]
  have hfaithful := hd tag (List.mem_of_find?_eq_some htag)
  unfold compileTag
  unfold Tag.block? at hblock hfaithful
  rw [hblock]
  cases hbehaviour : tag.behaviour with
  | inline handler => exact .bind fun _ => .pure (reaches_stays h)
  | function symbol positional => exact .bind fun _ => .pure (reaches_stays h)
  | block block =>
    rw [hbehaviour] at hfaithful
    rw [hname]
    exact yields_compileOpener (hfaithful block rfl).opener h
  | blockFunction symbol opener closer =>
    rw [hbehaviour] at hfaithful
    rw [hname]
    exact yields_compileOpener (hfaithful _ rfl).opener h

theorem isSome_findOwner? (h : ∀ frame ∈ frames, frame.Proper) (child : Text) :
    (findOwner? d child frames).isSome = d.hasChild (frames.map Frame.opening) child := by
  induction frames with
  | nil => rfl
  | cons frame frames ih =>
    have ih := ih fun other hother => h other (List.mem_cons_of_mem _ hother)
    have hproper : frame.action = frame.opening.name := h frame List.mem_cons_self
    rw [Dialect.hasChild, List.map_cons, List.any_cons, ← hproper, ← d.child?_isSome]
    cases hchild : d.child? frame child with
    | some handler =>
      rw [findOwner?_cons_of_some hchild]
      rfl
    | none =>
      rw [findOwner?_cons_of_none hchild, Option.isSome_map, ih]
      rfl

theorem yields_compileNamed (hd : d.Faithful) (options : Options) (name : Text) (line : Nat)
    (h : ∀ frame ∈ frames, frame.Proper) :
    Yields (compileNamed d options name line frames) fun r =>
      Reaches frames (if !d.hasChild (frames.map Frame.opening) name && d.hasBlock name
        then .opens { name, line } else .stays) r.2 := by
  rw [← isSome_findOwner? h]
  unfold compileNamed
  dsimp only
  cases howner : findOwner? d name frames with
  | some found =>
    obtain ⟨inner, owner, handler, outer⟩ := found
    obtain ⟨rfl, hchild, -⟩ := findOwner?_eq_some howner
    exact yields_compileChild (hd.child hchild) h
  | none =>
    cases htag : d.find? name with
    | some tag => exact .bind fun _ => yields_compileTag hd line h htag
    | none =>
      have hnone : d.hasBlock name = false := by rw [Dialect.hasBlock, htag]; rfl
      rw [hnone]
      refine .bind fun c => ?_
      split
      · exact .bind fun _ => .pure (reaches_stays h)
      · exact .throw _

theorem yields_compileClose (options : Options) (name : Text)
    (h : ∀ frame ∈ frames, frame.Proper) :
    Yields (compileClose d options name frames) fun r => Reaches frames (.closes name) r.2 := by
  unfold compileClose
  dsimp only
  split
  on_goal 1 => refine .orThrow fun _ => ?_
  all_goals
    cases frames with
    | nil => exact .throw _
    | cons frame outer =>
      obtain ⟨hproper, houter⟩ := List.forall_mem_cons.mp h
      refine .orThrow fun hname => .bind fun r => .pure ⟨?_, houter⟩
      simp [Effect.apply, ← hproper.symm.trans hname]

end Frames

/-! ## Whole tags -/

section Tags

variable {d : Dialect} {options : Options} {line : Nat} {frames frames' : List Frame}
  {c c' : Cursor} {name : Text} {statement : Statement}

theorem tagName?_eq_some (h : tagName? c = some name) :
    ∃ t ahead, c.ahead = t :: ahead ∧ t.kind = .name ∧ t.text = name := by
  unfold tagName? at h
  obtain ⟨t, ht, rfl⟩ := Option.map_eq_some_iff.mp h
  obtain ⟨hcurrent, hkind⟩ := Option.filter_eq_some_iff.mp ht
  rw [Bool.and_eq_true, decide_eq_true_eq] at hkind
  obtain ⟨ahead, hahead⟩ := List.head?_eq_some_iff.mp hcurrent
  exact ⟨t, ahead, hahead, hkind.1, rfl⟩

theorem compileContent_closing (h : closing? c = some name) :
    compileContent d options line frames c =
      compileClose d options name frames c.advance.advance := by
  unfold closing? at h
  split at h
  · rename_i hsees
    rw [compileContent, get_bind, if_pos hsees]
    rcases c with ⟨behind, _ | ⟨slash, _ | ⟨word, ahead⟩⟩, endLine⟩
    · cases h
    · cases h
    · cases h
      rfl
  · cases h

theorem compileContent_of_not_closing (h : closing? c = none) :
    compileContent d options line frames c = (match tagName? c with
      | some name => compileNamed d options name line frames
      | none => do return (.echo (← expression (d.scope options)), frames)) c := by
  have hsees : ¬ (c.sees (mark "/") && c.seesNext [.kind .name]) = true := by
    intro hsees
    rw [closing?, if_pos hsees, Option.map_eq_none_iff] at h
    rw [Bool.and_eq_true, Cursor.seesNext, h] at hsees
    cases hsees.2
  rw [compileContent, get_bind]
  exact congrFun (if_neg hsees) c

theorem reaches_of_compileContent (hd : d.Faithful) (h : ∀ frame ∈ frames, frame.Proper)
    (hrun : compileContent d options line frames c = .ok (statement, frames') c') :
    Reaches frames (tagEffect d (frames.map Frame.opening) line c) frames' := by
  unfold tagEffect
  cases hclosing : closing? c with
  | some name =>
    rw [compileContent_closing hclosing] at hrun
    exact yields_compileClose options name h _ _ _ hrun
  | none =>
    rw [compileContent_of_not_closing hclosing] at hrun
    cases hname : tagName? c with
    | some name =>
      rw [hname] at hrun
      exact yields_compileNamed hd options name line h _ _ _ hrun
    | none =>
      rw [hname] at hrun
      obtain ⟨_, _, -, hpure⟩ := bind_eq_ok hrun
      cases hpure
      exact reaches_stays h

theorem content_of_compileBody
    (hrun : compileBody d options line frames c = .ok (statement, frames') c') :
    ∃ c'', compileContent d options line frames c = .ok (statement, frames') c'' := by
  obtain ⟨⟨statement', reached⟩, c'', hcontent, hrest⟩ := bind_eq_ok hrun
  rw [get_bind] at hrest
  dsimp only at hrest
  split at hrest
  · cases hrest
    exact ⟨_, hcontent⟩
  · obtain ⟨_, _, hrefuse, -⟩ := bind_eq_ok hrest
    cases hrefuse

theorem reaches_of_compileBody (hd : d.Faithful) (h : ∀ frame ∈ frames, frame.Proper)
    (hrun : compileBody d options line frames c = .ok (statement, frames') c') :
    Reaches frames (tagEffect d (frames.map Frame.opening) line c) frames' := by
  obtain ⟨_, hcontent⟩ := content_of_compileBody hrun
  exact reaches_of_compileContent hd h hcontent

end Tags

/-! ## Templates -/

/-- The open blocks of a pass, outermost first. -/
def Template.Progress.openings (p : Progress) : List Opening := (p.frames.map Frame.opening).reverse

/-- The open blocks are what the tags so far leave open. -/
structure Tracks (done : List Effect) (p : Progress) : Prop where
  leaves : Effect.Leaves done p.openings
  proper : ∀ frame ∈ p.frames, frame.Proper

section Runs

variable {d : Dialect} {options : Options} {name : Text} {done : List Effect} {p p' : Progress}

theorem tracks_empty : Tracks [] {} := ⟨.balanced .nil, by simp⟩

theorem Tracks.segment (hd : d.Faithful) {segment : Segment} (h : Tracks done p)
    (hrun : compileSegment d options name p segment = .ok p') :
    Reaches p.frames (segmentEffect d (p.frames.map Frame.opening) segment) p'.frames := by
  cases segment with
  | literal text =>
    cases hrun
    exact reaches_stays h.proper
  | tag line body =>
    simp only [compileSegment] at hrun
    split at hrun
    · rename_i hbody
      cases hrun
      exact reaches_of_compileBody hd h.proper hbody
    · cases hrun

theorem Tracks.segments (hd : d.Faithful) {segments : List Segment} (h : Tracks done p)
    (hrun : segments.foldlM (compileSegment d options name) p = .ok p') :
    Tracks (done ++ effectsFrom d (p.frames.map Frame.opening) segments) p' := by
  -- Effects depend on the blocks that are open, so those of the pass are kept equal to them.
  induction segments generalizing done p with
  | nil =>
    cases hrun
    rw [effectsFrom, List.append_nil]
    exact h
  | cons segment more ih =>
    obtain ⟨next, hfirst, hrest⟩ := exists_of_foldlM_cons hrun
    obtain ⟨happly, hproper⟩ := h.segment hd hfirst
    have hmore := ih ⟨h.leaves.apply happly, hproper⟩ hrest
    rw [effectsFrom, happly]
    simpa using hmore

theorem tracks_of_run (hd : d.Faithful) {segments : List Segment}
    (hrun : segments.foldlM (compileSegment d options name) {} = .ok p) :
    Tracks (effects d segments) p :=
  tracks_empty.segments hd hrun

end Runs

/-! ## Closing tags -/

/-- The fault of a closing tag where it does not fit the open blocks. -/
def mismatch (name : Text) (opens : List Opening) : Fault :=
  .mismatchedClose name (opens.getLast?.map fun o => (o.name, o.line))

section Closing

variable {d : Dialect} {options : Options} {name : Text} {p : Progress} {c : Cursor} {line : Nat}
  {body : Text}

theorem getLast?_openings (p : Progress) :
    p.openings.getLast? = p.frames.head?.map Frame.opening := by
  rw [Progress.openings, List.getLast?_reverse, List.head?_map]

theorem compileClose_mismatch (hproper : ∀ frame ∈ p.frames, frame.Proper)
    (hblock : ∀ tag, d.find? name = some tag → tag.kind.isBlock = true)
    (htop : ∀ o ∈ p.openings.getLast?, o.name ≠ name) :
    compileClose d options name p.frames = throw (mismatch name p.openings) := by
  rw [getLast?_openings] at htop
  rw [mismatch, getLast?_openings]
  unfold compileClose
  cases hframes : p.frames with
  | nil =>
    dsimp only
    split
    on_goal 1 => rename_i tag htag; rw [if_pos (hblock tag htag)]
    all_goals rfl
  | cons frame outer =>
    have hne : frame.action ≠ name := by
      rw [hproper frame (by rw [hframes]; exact List.mem_cons_self)]
      exact htop _ (by rw [hframes]; rfl)
    dsimp only
    split
    on_goal 1 => rename_i tag htag; rw [if_pos (hblock tag htag)]
    all_goals
      rw [if_neg hne]
      rfl

theorem bind_eq_error_iff {α β : Type} {m : Reading α} {f : α → Reading β} {c c' : Cursor}
    {fault : Fault} : (m >>= f) c = .error fault c' ↔
      m c = .error fault c' ∨ ∃ a c'', m c = .ok a c'' ∧ f a c'' = .error fault c' := by
  simp only [Bind.bind, EStateM.bind]
  cases m c <;> simp

theorem closeFrame_ne_mismatch (hd : d.Quiet) (frame : Frame) (opening? : Option (Text × Nat))
    (c c' : Cursor) :
    closeFrame d options frame c ≠ .error (.mismatchedClose name opening?) c' := by
  intro hrun
  unfold closeFrame at hrun
  cases hblock : d.block? frame.action with
  | none =>
    rw [hblock] at hrun
    cases hrun
  | some block =>
    obtain ⟨tag, htag, hblock'⟩ := Dialect.exists_of_block? hblock
    rw [hblock] at hrun
    rcases bind_eq_error_iff.mp hrun with hrun | ⟨r, c'', -, hrun⟩
    · exact hd tag htag block hblock' _ _ _ _ _ _ hrun
    · cases hrun

theorem compileClose_ne_mismatch (hd : d.Quiet) {frame : Frame} (outer : List Frame)
    (hname : frame.action = name) (opening? : Option (Text × Nat)) (c c' : Cursor) :
    compileClose d options name (frame :: outer) c ≠
      .error (.mismatchedClose name opening?) c' := by
  intro hrun
  unfold compileClose at hrun
  dsimp only at hrun
  rw [if_pos hname] at hrun
  have hclose (hrun : (do return (← closeFrame d options frame, outer)) c =
      .error (.mismatchedClose name opening?) c') : False := by
    rcases bind_eq_error_iff.mp hrun with hrun | ⟨r, c'', -, hrun⟩
    · exact closeFrame_ne_mismatch hd frame opening? c c' hrun
    · cases hrun
  cases htag : d.find? name with
  | none =>
    rw [htag] at hrun
    exact hclose hrun
  | some tag =>
    rw [htag] at hrun
    dsimp only at hrun
    split at hrun
    · exact hclose hrun
    · cases hrun

theorem compileBody_eq_error_iff {fault : Fault} (h : ∀ report, fault ≠ .unexpected report)
    {c' : Cursor} : compileBody d options line p.frames c = .error fault c' ↔
      compileContent d options line p.frames c = .error fault c' := by
  rw [compileBody, bind_eq_error_iff, or_iff_left]
  rintro ⟨result, c'', -, hrest⟩
  rw [get_bind] at hrest
  dsimp only at hrest
  split at hrest
  · cases hrest
  · cases hrest
    exact h _ rfl

theorem compileBody_closing (hd : d.Quiet) (hproper : ∀ frame ∈ p.frames, frame.Proper)
    (hclosing : closing? c = some name)
    (hblock : ∀ tag, d.find? name = some tag → tag.kind.isBlock = true) :
    (∃ c', compileBody d options line p.frames c = .error (mismatch name p.openings) c') ↔
      ∀ o ∈ p.openings.getLast?, o.name ≠ name := by
  have hnot : ∀ report, mismatch name p.openings ≠ .unexpected report := by simp [mismatch]
  simp only [compileBody_eq_error_iff hnot, compileContent_closing hclosing]
  constructor
  · rintro ⟨c', hrun⟩ o ho rfl
    cases hframes : p.frames with
    | nil => simp [getLast?_openings, hframes] at ho
    | cons frame outer =>
      obtain rfl : frame.opening = o := by simpa [getLast?_openings, hframes] using ho
      rw [hframes] at hproper hrun
      exact compileClose_ne_mismatch hd outer (hproper frame List.mem_cons_self) _ _ _ hrun
  · intro htop
    rw [compileClose_mismatch hproper hblock htop]
    exact ⟨_, rfl⟩

theorem compileSegment_eq_error_iff {template : Text} {fault : Fault} (hline : fault.line? = none) :
    compileSegment d options template p (.tag line body) = .error { template, line, fault } ↔
      ∃ c, compileBody d options line p.frames (bodyCursor line body) = .error fault c := by
  unfold compileSegment
  dsimp only
  cases hbody : compileBody d options line p.frames (bodyCursor line body) with
  | ok result c => simp
  | error other c =>
    constructor
    · intro h
      obtain rfl : other = fault := congrArg Failure.fault (Except.error.inj h)
      exact ⟨c, rfl⟩
    · rintro ⟨c', ⟨⟩⟩
      simp [Failure.of, hline]

theorem compileSegment_mismatch {template : Text} (hproper : ∀ frame ∈ p.frames, frame.Proper)
    (hclosing : closing? (bodyCursor line body) = some name)
    (hblock : ∀ tag, d.find? name = some tag → tag.kind.isBlock = true)
    (htop : ∀ o ∈ p.openings.getLast?, o.name ≠ name) :
    compileSegment d options template p (.tag line body) =
      .error { template, line, fault := mismatch name p.openings } := by
  refine (compileSegment_eq_error_iff rfl).mpr ?_
  have hnot : ∀ report, mismatch name p.openings ≠ .unexpected report := by simp [mismatch]
  simp only [compileBody_eq_error_iff hnot, compileContent_closing hclosing]
  rw [compileClose_mismatch hproper hblock htop]
  exact ⟨_, rfl⟩

end Closing

/-! ## The pass as a whole -/

section Whole

variable {d : Dialect} {options : Options} {name source : Text} {p : Progress}

theorem compile_of_fold_error {failure : Failure}
    (h : (Segment.scan source).segments.foldlM (compileSegment d options name) {} = .error failure) :
    compile d options name source = .error failure := by
  rw [compile, h]
  rfl

theorem compile_of_failure {before after : List Segment} {segment : Segment} {failure : Failure}
    (hsegments : (Segment.scan source).segments = before ++ segment :: after)
    (hbefore : before.foldlM (compileSegment d options name) {} = .ok p)
    (hfails : compileSegment d options name p segment = .error failure) :
    compile d options name source = .error failure := by
  refine compile_of_fold_error ?_
  rw [hsegments, List.foldlM_append, hbefore]
  change (segment :: after).foldlM (compileSegment d options name) p = _
  rw [List.foldlM_cons, hfails]
  rfl

theorem compile_of_open {frame : Frame} {outer : List Frame}
    (hfold : (Segment.scan source).segments.foldlM (compileSegment d options name) {} = .ok p)
    (hscan : (Segment.scan source).fault? = none) (hframes : p.frames = frame :: outer) :
    compile d options name source = .error (unclosed name frame) := by
  simp only [compile, hfold, hscan, bind, Except.bind, hframes]
  rfl

end Whole

/--
As long as no handler gives an open block another name, line or tag, the open blocks of a pass are
the openings that nothing has closed yet, each on the line of its brace. So a script comes only from
a template whose blocks are balanced; the innermost opening that is left at the end is reported; and
a closing tag is taken for a wrong one exactly if it does not name the innermost block, provided
that no closing handler says so by itself.
-/
theorem open_blocks_unmatched {d : Dialect} (hd : d.Faithful) (options : Options)
    (name source : Text) :
    (∀ before line body after p,
      (Segment.scan source).segments = before ++ .tag line body :: after →
      before.foldlM (compileSegment d options name) {} = .ok p →
      Effect.Leaves (effects d before) p.openings ∧
      (∃ front back, source = front ++ '\x7b' :: (body ++ '\x7d' :: back) ∧
        line = 1 + Text.newlines front ∧
        (Segment.scanFrom (line + Text.newlines body) {} back).segments = after) ∧
      ∀ word, closing? (bodyCursor line body) = some word →
        (∀ tag, d.find? word = some tag → tag.kind.isBlock = true) →
        (d.Quiet → (compileSegment d options name p (.tag line body) =
            .error { template := name, line, fault := mismatch word p.openings } ↔
          ∀ o ∈ p.openings.getLast?, o.name ≠ word)) ∧
        ((∀ o ∈ p.openings.getLast?, o.name ≠ word) → compile d options name source =
          .error { template := name, line, fault := mismatch word p.openings })) ∧
    (∀ code, compile d options name source = .ok code →
      Effect.Balanced (effects d (Segment.scan source).segments)) ∧
    (∀ p opens o,
      (Segment.scan source).segments.foldlM (compileSegment d options name) {} = .ok p →
      (Segment.scan source).fault? = none →
      Effect.Leaves (effects d (Segment.scan source).segments) (opens ++ [o]) →
      compile d options name source =
        .error { template := name, line := o.line, fault := .unclosed o.name o.line }) := by
  refine ⟨fun before line body after p hsegments hbefore => ?_, fun code hcompile => ?_,
    fun p opens o hfold hscan hleaves => ?_⟩
  · obtain ⟨hleaves, hproper⟩ := tracks_of_run hd hbefore
    refine ⟨hleaves, Segment.scanFrom_tag hsegments, fun word hclosing hblock => ⟨?_, ?_⟩⟩
    · exact fun hquiet => (compileSegment_eq_error_iff rfl).trans
        (compileBody_closing hquiet hproper hclosing hblock)
    · exact fun htop => compile_of_failure hsegments hbefore
        (compileSegment_mismatch hproper hclosing hblock htop)
  · obtain ⟨p, hfold, hframes, -⟩ := compile_eq_ok hcompile
    have hleaves := (tracks_of_run hd hfold).leaves
    rw [Progress.openings, hframes] at hleaves
    exact hleaves.of_none
  · have heq := hleaves.unique (tracks_of_run hd hfold).leaves
    cases hframes : p.frames with
    | nil => simp [Progress.openings, hframes] at heq
    | cons frame outer =>
      rw [Progress.openings, hframes, List.map_cons, List.reverse_cons] at heq
      obtain ⟨-, hlast⟩ := List.append_inj' heq rfl
      cases hlast
      exact compile_of_open hfold hscan hframes

/-! ## Dialects without handlers of their own -/

theorem BlockHandler.BuiltIn.faithful {handler : BlockHandler} (h : handler.BuiltIn) :
    handler.Faithful := by
  intro scope frame
  have hplain (inline : InlineHandler) : Yields (BlockHandler.plain inline scope frame) fun r =>
      r.2.opening = frame.opening ∧ r.2.action = frame.action := .bind fun _ => .pure ⟨rfl, rfl⟩
  have hbefore (key tag : Text) (inline : InlineHandler) :
      Yields (Tag.before key tag inline scope frame) fun r =>
        r.2.opening = frame.opening ∧ r.2.action = frame.action := by
    unfold Tag.before
    dsimp only
    split
    · exact .throw _
    · exact .bind fun _ => .pure ⟨rfl, rfl⟩
  have honce (key tag : Text) (statement : Statement) :
      Yields (Tag.once key tag statement scope frame) fun r =>
        r.2.opening = frame.opening ∧ r.2.action = frame.action := by
    unfold Tag.once
    dsimp only
    split
    · exact .throw _
    · exact .pure ⟨rfl, rfl⟩
  cases h with
  | opens | close | breakLoop | continueLoop => exact hplain _
  | elseIf | case => exact hbefore _ _ _
  | otherwise | default | foreachElse | forElse => exact honce _ _ _
  | openCapture => exact .bind fun _ => .pure ⟨rfl, rfl⟩
  | closeCapture => exact .pure ⟨rfl, rfl⟩

theorem Dialect.BuiltIn.faithful {d : Dialect} (hd : d.BuiltIn) : d.Faithful := by
  intro tag htag block hblock
  have hbuiltIn := hd.ofTag htag hblock
  exact ⟨hbuiltIn.opener.faithful, fun entry hentry => (hbuiltIn.children entry hentry).faithful⟩

theorem Dialect.quiet_standard : Dialect.standard.Quiet := by
  intro tag htag block hblock scope frame c name opening? c' hrun
  simp only [Dialect.standard, Tag.standard, List.mem_cons, List.not_mem_nil, or_false] at htag
  rcases htag with rfl | rfl | rfl | rfl | rfl | rfl | rfl | rfl | rfl | rfl | rfl <;>
    cases hblock <;> cases hrun

/-! Two blocks that cross. -/

namespace Crossing

def source : Text := "\x7bif $x\x7d\n\x7bcapture\x7d\n\x7b/if\x7d"

def before : List Segment :=
  [.tag 1 "if $x", .literal ['\n'], .tag 2 "capture", .literal ['\n']]

def openings : List Opening := [⟨"if", 1⟩, ⟨"capture", 2⟩]

theorem leaves_before : Effect.Leaves (effects Dialect.standard before) openings := by
  have heffects : effects Dialect.standard before =
      [.opens ⟨"if", 1⟩, .stays, .opens ⟨"capture", 2⟩, .stays] := by decide +kernel
  have hstays : Effect.Balanced [.stays] := .stays .nil
  rw [heffects]
  exact .opening (.opening (.balanced .nil) hstays) hstays

end Crossing

open Crossing in
theorem open_blocks_unmatched_crossing :
    Dialect.standard.Faithful ∧ Dialect.standard.Quiet ∧
    (∃ p, before.foldlM (compileSegment Dialect.standard ⟨0⟩ ['t']) {} = .ok p ∧
      p.openings = openings ∧
      compileSegment Dialect.standard ⟨0⟩ ['t'] p (.tag 3 "/if") =
        .error { template := ['t'], line := 3, fault := mismatch "if" openings }) ∧
    compile Dialect.standard ⟨0⟩ ['t'] source =
      .error { template := ['t'], line := 3, fault := mismatch "if" openings } := by
  have hsegments : (Segment.scan source).segments = before ++ [.tag 3 "/if"] := by decide +kernel
  have hclosing : closing? (bodyCursor 3 "/if") = some "if" := by decide +kernel
  have hblock : ∀ tag, Dialect.standard.find? "if" = some tag → tag.kind.isBlock = true := by
    rintro _ ⟨⟩
    rfl
  have hdone : (before.foldlM (compileSegment Dialect.standard ⟨0⟩ ['t']) {}).isOk = true := by
    decide +kernel
  cases hbefore : before.foldlM (compileSegment Dialect.standard ⟨0⟩ ['t']) {} with
  | error failure =>
    rw [hbefore] at hdone
    cases hdone
  | ok p =>
    obtain ⟨hleaves, -, hclose⟩ :=
      (open_blocks_unmatched Dialect.builtIn_standard.faithful ⟨0⟩ ['t'] source).1
        before 3 "/if" [] p hsegments hbefore
    have hopenings : p.openings = openings := hleaves.unique leaves_before
    obtain ⟨hwrong, hfails⟩ := hclose "if" hclosing hblock
    have hwrong := hwrong Dialect.quiet_standard
    rw [hopenings] at hwrong hfails
    exact ⟨Dialect.builtIn_standard.faithful, Dialect.quiet_standard,
      ⟨p, rfl, hopenings, hwrong.mpr (by decide)⟩, hfails (by decide)⟩

end Stencil
