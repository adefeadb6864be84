import Stencil.Proofs.Onward
import Stencil.Proofs.Owners
import Stencil.Proofs.Passages
import Stencil.Proofs.Sandbox
import Stencil.Proofs.Spliced
import Stencil.Proofs.Tags

/-!
# Where a template fails

A failure names the line of the token that was not expected, of the opening brace of a block that
is still open, or else of the opening brace of the tag or comment that is at fault.
-/

namespace Stencil

open Grammar Reading Segment Tag Template

theorem Fault.At.unexpected_or {c : Cursor} {fault : Fault} (h : fault.At c) :
    (∃ report, fault = .unexpected report ∧ report.found = c.current?.map Token.text ∧
      report.line = c.line) ∨ fault.line? = none := by
  cases fault with
  | unexpected report => exact .inl ⟨report, rfl, h⟩
  | _ => exact .inr h

/-! ## Handlers -/

/-- What came of a handler that started at `c`: it went on from there, or used up all tokens. -/
def Ends {α : Type} (c : Cursor) : EStateM.Result Fault Cursor α → Prop
  | .ok _ c' => c.Onward c' ∨ c'.atEnd = true
  | .error fault c' => c.Onward c' ∧ fault.At c'

def Settles {α : Type} (read : Reading α) : Prop := ∀ c, Ends c (read c)

theorem Forward.settles {α : Type} {read : Reading α} (h : Forward read) : Settles read := by
  intro c
  cases hread : read c with
  | ok a c' => exact .inl (h.ok hread)
  | error fault c' => exact h.error hread

theorem Forward.bind_settles {α β : Type} {read : Reading α} {f : α → Reading β} (h : Forward read)
    (hf : ∀ a, Settles (f a)) : Settles (read >>= f) := by
  intro c
  cases hread : read c with
  | ok a c' =>
    rw [bind_of_ok hread]
    have hpassed := h.ok hread
    have hends := hf a c'
    cases hrest : f a c' with
    | ok b c'' =>
      rw [hrest] at hends
      exact hends.imp hpassed.trans id
    | error fault c'' =>
      rw [hrest] at hends
      exact ⟨hpassed.trans hends.1, hends.2⟩
  | error fault c' =>
    rw [bind_eq_error_iff.mpr (.inl hread)]
    exact h.error hread

theorem Settles.bind_pure {α β : Type} {read : Reading α} (h : Settles read) (f : α → β) :
    Settles (read >>= fun a => pure (f a)) := by
  intro c
  have hends := h c
  cases hread : read c with
  | ok a c' =>
    rw [hread] at hends
    rw [bind_of_ok hread]
    exact hends
  | error fault c' =>
    rw [hread] at hends
    rw [bind_eq_error_iff.mpr (.inl hread)]
    exact hends

theorem Settles.orThrow {α : Type} {read : Reading α} {p : Prop} [Decidable p] {fault : Fault}
    {f : PUnit → Reading α} (hfault : fault.line? = none) (h : Settles read) :
    Settles (if p then read else MonadExcept.throw fault >>= f) := by
  split
  · exact h
  · exact fun c => ⟨.refl c, fault.at_of_line? hfault c⟩

theorem ahead_splice_of_atEnd {c : Cursor} (h : c.atEnd = true) (text : Text) :
    (c.splice c.length text).ahead =
      tokenize (c.endLine + Text.newlines (text.takeWhile isBlank)) (text.dropWhile isBlank) := by
  have hposition : c.position = c.length := by
    simp [Cursor.position, Cursor.length, List.isEmpty_iff.mp h]
  have hnone : c.tokens[c.length]? = none := by
    rw [List.getElem?_eq_none_iff, Cursor.length_tokens]
  have hline : c.lineAt c.length = c.endLine := by
    rw [Cursor.lineAt, hnone]
    rfl
  rw [Cursor.splice, Cursor.textFrom_eq_nil hnone, List.nil_append, hline, Cursor.recut, hposition]
  exact List.drop_left' (c.length_kept c.length _)

section Handlers

variable {scope : Scope}

/-- The words of the step that a loop gets when it gives none. -/
def defaultWords : List Word := [⟨.name, "step", [' ']⟩, ⟨.integer, ['1'], []⟩]

theorem apart_defaultWords : Word.Apart defaultWords :=
  Word.Flows.apart (.cons (.name (by decide)) (.one (.integer (by decide)) (by decide) []))
    (by simp)

/-- The rest of a loop that gives a step. -/
def readStep (scope : Scope) (make : Expr → Statement) : Reading Statement := do
  takeWord "step"
  return make (← expression scope)

theorem passes_defaultWords (scope : Scope) (make : Expr → Statement) (n : Nat) :
    Passes (readStep scope make) n defaultWords (· = none) (make (.number ['1'])) :=
  (Passes.takeWord _ _).step
    (Written.Tree.passes_last (t := .integer ⟨['1'], by decide⟩) trivial).bind_pure

theorem readStep_splice {c : Cursor} (h : c.atEnd = true) (scope : Scope)
    (make : Expr → Statement) :
    ∃ c', readStep scope make (c.splice c.length defaultStep) = .ok (make (.number ['1'])) c' ∧
      c'.atEnd = true := by
  have hahead : (c.splice c.length defaultStep).ahead =
      tokenize (c.endLine + Text.newlines [' ']) (Word.join defaultWords) :=
    ahead_splice_of_atEnd h _
  generalize c.splice c.length defaultStep = spliced at hahead
  obtain ⟨behind, ahead, endLine⟩ := spliced
  cases hahead
  have hread := passes_defaultWords scope make _ behind _ [] endLine
    (words_tokenize apart_defaultWords (c.endLine + Text.newlines [' '])) rfl (Nat.le_refl _)
  rw [List.append_nil] at hread
  exact ⟨_, hread, rfl⟩

theorem settles_openFor : Settles (openFor scope) := by
  unfold openFor
  refine forward_loopVariable.bind_settles fun name => (Forward.discard _).bind_settles fun _ => ?_
  refine (forward_expression scope).bind_settles fun first =>
    (Forward.takeWord _).bind_settles fun _ => ?_
  refine (forward_expression scope).bind_settles fun last => ?_
  intro c
  rw [get_bind]
  dsimp only
  split
  · rename_i hend
    obtain ⟨c', hstep, hend'⟩ := readStep_splice hend scope (.forRange name first last)
    change Ends c (readStep scope (.forRange name first last) (c.splice c.length defaultStep))
    rw [hstep]
    exact .inr hend'
  · have hstep : Forward (readStep scope (.forRange name first last)) :=
      (Forward.takeWord _).bind fun _ => (forward_expression scope).bind fun _ => .pure _
    exact hstep.settles c

theorem forward_blockName : Forward blockName := by
  have hname (name : Text) : Forward (do
      if name.isEmpty then refuse [.kind .name]
      return name) := by
    split
    · exact (Forward.refuse _).bind fun _ => .pure _
    · exact .pure _
  unfold blockName
  refine Forward.get.bind fun c => ?_
  split
  · exact Forward.advance.bind fun _ => (Forward.pure _).bind hname
  · exact (Forward.collect _).map.bind hname

theorem forward_openForeach : Forward (openForeach scope) := by
  unfold openForeach
  refine (forward_expression scope).bind fun list => (Forward.takeWord _).bind fun _ => ?_
  refine forward_loopVariable.bind fun first => (Forward.skip _).bind fun arrow => ?_
  split
  · exact forward_loopVariable.bind fun _ => .pure _
  · exact .pure _

theorem settles_opener {handler : InlineHandler} (h : handler ∈ openers) :
    Settles (handler scope) := by
  have hexpression (make : Expr → Statement) :
      Settles (do return make (← expression scope)) :=
    (forward_expression scope).settles.bind_pure make
  simp only [openers, List.mem_cons, List.not_mem_nil, or_false] at h
  rcases h with rfl | rfl | rfl | rfl | rfl | rfl
  · exact forward_openForeach.settles
  · exact settles_openFor
  · exact hexpression _
  · exact hexpression _
  · exact hexpression _
  · exact forward_blockName.settles.bind_pure _

theorem forward_inline {handler : InlineHandler} (h : handler ∈ [assign, inclusion, parent]) :
    Forward (handler scope) := by
  simp only [List.mem_cons, List.not_mem_nil, or_false] at h
  rcases h with rfl | rfl | rfl
  · unfold assign
    refine (forward_target scope).bind fun place => (Forward.take _).bind fun op => ?_
    exact (forward_expression scope).bind fun _ => .pure _
  · unfold inclusion
    exact (forward_expression scope).bind fun name => (forward_params false).bind fun _ => .pure _
  · exact (forward_expression scope).bind fun _ => .pure _

theorem BlockHandler.BuiltIn.settles {handler : BlockHandler} (h : handler.BuiltIn)
    (frame : Frame) : Settles (handler scope frame) := by
  have honce (key tag : Text) (statement : Statement) :
      Settles (once key tag statement scope frame) :=
    (Forward.guard rfl (.pure _)).settles
  have hbefore (key tag : Text) (make : Expr → Statement) :
      Settles (before key tag (fun scope => do return make (← expression scope)) scope frame) :=
    (Forward.guard rfl (((forward_expression scope).bind fun _ => .pure _).bind
      fun _ => .pure _)).settles
  cases h with
  | opens hmem => exact (settles_opener hmem).bind_pure _
  | close => exact (Forward.pure _).settles
  | breakLoop => exact (Forward.pure _).settles
  | continueLoop => exact (Forward.pure _).settles
  | elseIf => exact hbefore _ _ _
  | otherwise => exact honce _ _ _
  | case => exact hbefore _ _ _
  | default => exact honce _ _ _
  | foreachElse => exact honce _ _ _
  | forElse => exact honce _ _ _
  | openCapture => exact (forward_params false).settles.bind_pure _
  | closeCapture _ => exact (Forward.pure _).settles

end Handlers

/-! ## Tags -/

section Tags

variable {d : Dialect} {options : Options} {scope : Scope} {line : Nat} {frames : List Frame}

theorem settles_compileTag {tag : Tag} (h : tag.behaviour.BuiltIn) :
    Settles (compileTag scope tag line frames) := by
  unfold compileTag
  cases hbehaviour : tag.behaviour with
  | inline handler =>
    rw [hbehaviour] at h
    exact (forward_inline h).settles.bind_pure _
  | function symbol positional => exact (forward_params positional).settles.bind_pure _
  | block block =>
    rw [hbehaviour] at h
    exact (h.opener.settles _).bind_pure _
  | blockFunction symbol opener closer =>
    rw [hbehaviour] at h
    obtain ⟨-, rfl, -⟩ := h
    exact (BlockHandler.BuiltIn.openCapture.settles (.opened tag.name line)).bind_pure _

theorem settles_compileChild {child : Text} {inner outer : List Frame} {owner : Frame}
    {handler : BlockHandler} (h : handler.BuiltIn) :
    Settles (compileChild d options child inner owner handler outer) := by
  have hrest : Settles (do
      advance
      let result ← handler (d.scope options) owner
      return (result.1, inner ++ result.2 :: outer)) :=
    Forward.advance.bind_settles fun _ => (h.settles _).bind_pure _
  unfold compileChild
  dsimp only
  split
  · exact .orThrow rfl hrest
  · exact hrest

theorem line?_unknown (d : Dialect) (name : Text) : (unknown d name).line? = none := by
  unfold unknown
  split <;> rfl

theorem settles_echo : Settles (do return (Statement.echo (← expression scope), frames)) :=
  (forward_expression scope).settles.bind_pure _

theorem settles_compileNamed (hd : d.BuiltIn) (name : Text) :
    Settles (compileNamed d options name line frames) := by
  unfold compileNamed
  dsimp only
  cases howner : findOwner? d name frames with
  | some found =>
    obtain ⟨inner, owner, handler, outer⟩ := found
    obtain ⟨-, hhandler, -⟩ := findOwner?_eq_some howner
    exact settles_compileChild (hd.child hhandler)
  | none =>
    cases hfind : d.find? name with
    | some tag =>
      exact Forward.advance.bind_settles fun _ =>
        settles_compileTag (hd.tags tag (List.mem_of_find?_eq_some hfind))
    | none =>
      refine Forward.get.bind_settles fun c => ?_
      split
      · exact settles_echo
      · exact (Forward.throw (line?_unknown d name)).settles

theorem settles_closeFrame (hd : d.BuiltIn) (frame : Frame) :
    Settles (closeFrame d options frame) := by
  unfold closeFrame
  cases hblock : d.block? frame.action with
  | none => exact (Forward.throw rfl).settles
  | some block => exact ((hd.block hblock).closer.settles frame).bind_pure _

theorem settles_compileClose (hd : d.BuiltIn) (name : Text) :
    Settles (compileClose d options name frames) := by
  unfold compileClose
  dsimp only
  split
  on_goal 1 => refine .orThrow rfl ?_
  all_goals
    cases frames with
    | nil => exact (Forward.throw rfl).settles
    | cons frame outer =>
      exact .orThrow rfl ((settles_closeFrame hd frame).bind_pure _)

theorem settles_compileContent (hd : d.BuiltIn) :
    Settles (compileContent d options line frames) := by
  unfold compileContent
  refine Forward.get.bind_settles fun c => ?_
  split
  · exact Forward.advance.bind_settles fun _ =>
      Forward.takeAny.bind_settles fun name => settles_compileClose hd name
  · split
    · exact settles_compileNamed hd _
    · exact settles_echo

/-- A tag fails among its own tokens, and a report of an unexpected one is about that one. -/
theorem onward_of_compileBody (hd : d.BuiltIn) {c c' : Cursor} {fault : Fault}
    (hrun : compileBody d options line frames c = .error fault c') :
    c.Onward c' ∧ fault.At c' := by
  have hends : Ends c (compileContent d options line frames c) := settles_compileContent hd c
  rcases bind_eq_error_iff.mp hrun with hcontent | ⟨result, c'', hcontent, hfinish⟩
  · rw [hcontent] at hends
    exact hends
  · rw [hcontent] at hends
    change finish result c'' = _ at hfinish
    rw [finish_apply] at hfinish
    split at hfinish
    · cases hfinish
    · rename_i hend
      cases hfinish
      exact ⟨hends.resolve_right hend, rfl, rfl⟩

end Tags

/-! ## Places in the source -/

/--
The tag with `body` stands in the source behind `front`. The segments `before` it and `after` it are
those of the text on its two sides.
-/
structure TagAt (source front body back : Text) (before after : List Segment) : Prop where
  source_eq : source = front ++ '\x7b' :: (body ++ '\x7d' :: back)
  segments_eq : (scan source).segments = before ++ .tag (1 + Text.newlines front) body :: after
  after_eq : (scanFrom (1 + Text.newlines front + Text.newlines body) {} back).segments = after

theorem exists_tagAt {source body : Text} {line : Nat} {before after : List Segment}
    (h : (scan source).segments = before ++ .tag line body :: after) :
    ∃ front back, TagAt source front body back before after ∧ line = 1 + Text.newlines front := by
  obtain ⟨front, back, hsource, rfl, hafter⟩ := scanFrom_tag h
  exact ⟨front, back, ⟨hsource, h, hafter⟩, rfl⟩

/-- In a template with few enough lines, each tag has the tokens that it has with lines in words. -/
theorem TagAt.bodyCursor_eq {source front body back : Text} {before after : List Segment}
    (h : TagAt source front body back before after) (hfits : 1 + source.newlines < 2 ^ 32)
    (overflow : Overflow) :
    (Cursor.ofText? overflow body (.ofNat 32 (1 + front.newlines))).map
        (Cursor.filter · (·.kind ≠ .comment)) =
      some (bodyCursor (1 + front.newlines) body) := by
  have hbody : 1 + front.newlines + body.newlines < 2 ^ 32 := by
    rw [h.source_eq, Text.newlines_append, Text.newlines_cons (by decide),
      Text.newlines_append] at hfits
    omega
  have hline : (BitVec.ofNat 32 (1 + front.newlines)).toNat = 1 + front.newlines :=
    Overflow.toNat_ofNat_of_lt (by omega)
  rw [← hline] at hbody
  rw [Cursor.ofText?, tokenize?_of_lt hbody, hline]
  rfl

/-- All before the tag with `body` behind `front` compiles, and the tag itself fails. -/
def FailsAt (d : Dialect) (options : Options) (name source front body : Text) (failure : Failure) :
    Prop :=
  ∃ back before after p, TagAt source front body back before after ∧
    before.foldlM (compileSegment d options name) {} = .ok p ∧
    compileSegment d options name p (.tag (1 + Text.newlines front) body) = .error failure

/-- The token stands in the inside of a tag behind `lead`. -/
def TokenAt (line : Nat) (body lead : Text) (token : Token) : Prop :=
  token.kind ≠ .comment ∧ ∃ passed behind, tokenize line body = passed ++ token :: behind ∧
    body = lead ++ Token.join (token :: behind)

/-- The tag behind `front` opens the block `tag`, and nothing closes the block. -/
def LeftOpen (d : Dialect) (source front tag : Text) : Prop :=
  ∃ body back before after inside, TagAt source front body back before after ∧
    tagName? (bodyCursor (1 + Text.newlines front) body) = some tag ∧
    effects d (scan source).segments =
      effects d before ++ .opens { name := tag, line := 1 + Text.newlines front } :: inside ∧
    Effect.Balanced inside

/-- All before the brace behind `front` can be read, and the brace starts something without end. -/
structure BreaksOff (source front rest : Text) (fault : Fault) : Prop where
  source_eq : source = front ++ '\x7b' :: rest
  front_read : (scan front).fault? = none
  piece_eq : piece (1 + Text.newlines front) rest = .error fault

/-! ## Tokens -/

theorem tokenAt_of_onward {line : Nat} {body found : Text} {c : Cursor}
    (h : (bodyCursor line body).Onward c) (hfound : c.current?.map Token.text = some found) :
    ∃ lead token, TokenAt line body lead token ∧ token.text = found ∧
      c.line = line + Text.newlines lead := by
  obtain ⟨token, hcurrent, rfl⟩ := Option.map_eq_some_iff.mp hfound
  obtain ⟨more, hmore⟩ := List.head?_eq_some_iff.mp hcurrent
  obtain ⟨passed, hahead, -, -⟩ := h
  have hmem : token ∈ (tokenize line body).filter (·.kind ≠ .comment) := by
    change token ∈ (bodyCursor line body).ahead
    rw [hahead, hmore]
    simp
  obtain ⟨hmem, hkind⟩ := List.mem_filter.mp hmem
  obtain ⟨before, behind, htokens⟩ := List.append_of_mem hmem
  obtain ⟨lead, x, rest, -, hjoin, hbody, htoken⟩ := atFront_of_tokenize htokens
  refine ⟨lead, token, ⟨by simpa using hkind, before, behind, htokens, ?_⟩, rfl, ?_⟩
  · rw [hjoin, hbody]
  · rw [Cursor.line, hcurrent, htoken]
    rfl

/-! ## Scans that break off -/

theorem piece_eq_error {line : Nat} {t : Text} {fault : Fault} (h : piece line t = .error fault) :
    (∃ what, fault = .unterminated what) ∨
      fault = .unclosed rawTag line ∧ ∃ body rest, t = body ++ '\x7d' :: rest ∧
        body.trimEnd = rawTag := by
  unfold piece at h
  split at h
  · cases h
  split at h
  · cases h
  split at h
  · unfold comment at h
    split at h
    · cases h
    · cases h
      exact .inl ⟨_, rfl⟩
  · unfold tagOrRaw at h
    split at h
    · rename_i body rest hend
      split at h
      · rename_i hraw
        unfold raw at h
        split at h
        · cases h
        · cases h
          exact .inr ⟨rfl, body, rest, (tagEnd?_append hend).symm, hraw⟩
      · cases h
    · cases h
      exact .inl ⟨_, rfl⟩

theorem Segment.Piece.Valid.of_append {found : Piece} {front rest : Text}
    (h : found.Valid (front ++ '\x7b' :: rest)) : found.Valid front := by
  cases found with
  | brace =>
    cases front with
    | nil =>
      have hblank : isBlank '\x7b' = true := h
      exact absurd hblank (by decide)
    | cons c front => exact h
  | comment inside => exact h
  | raw body inside => exact h
  | tag body => exact h

theorem fault?_scanBehind (line : Nat) (pending : Pile) (rest : Text) (found : Piece) :
    ∃ pending', (scanBehind line pending rest found).fault? =
      (scanFrom (line + found.newlines) pending' rest).fault? := by
  cases found <;> exact ⟨_, rfl⟩

theorem exists_of_scanFrom_fault {line faultLine : Nat} {pending : Pile} {t : Text} {fault : Fault}
    (h : (scanFrom line pending t).fault? = some (faultLine, fault)) :
    ∃ front rest, t = front ++ '\x7b' :: rest ∧ faultLine = line + Text.newlines front ∧
      piece faultLine rest = .error fault ∧
      ∀ line' pending', (scanFrom line' pending' front).fault? = none := by
  induction hn : t.length using Nat.strongRecOn generalizing t line pending with
  | ind n ih =>
  subst hn
  cases hcut : Text.cut? openTag t with
  | none =>
    rw [scanFrom_none hcut] at h
    cases h
  | some cut =>
    obtain ⟨plain, behind⟩ := cut
    have ht : t = plain ++ '\x7b' :: behind := by
      rw [← Text.cut?_append hcut]
      simp [openTag]
    have hbrace := notMem_of_not_infix (Text.not_infix_of_cut? (by decide) hcut)
    have hplain : Text.cut? openTag plain = none := Script.cut?_eq_none hbrace
    cases hpiece : piece (line + Text.newlines plain) behind with
    | error fault' =>
      rw [scanFrom_fault hcut hpiece] at h
      cases h
      refine ⟨plain, behind, ht, rfl, hpiece, fun line' pending' => ?_⟩
      rw [scanFrom_none hplain]
    | ok found =>
      obtain ⟨found, rest⟩ := found
      have hlength : rest.length < t.length :=
        (length_le_of_piece hpiece).trans_lt (length_lt_of_cut hcut)
      rw [scanFrom_piece hcut hpiece] at h
      obtain ⟨pending', hbehind⟩ :=
        fault?_scanBehind (line + Text.newlines plain) (pending.add plain) rest found
      rw [hbehind] at h
      obtain ⟨front, broken, rfl, hline, hbroken, hfront⟩ := ih _ hlength h rfl
      have hsource := piece_source hpiece
      have hvalid := (valid_of_piece hpiece).of_append
      refine ⟨plain ++ '\x7b' :: (found.source ++ front), broken, ?_, ?_, hbroken, ?_⟩
      · rw [ht, hsource]
        simp
      · rw [hline, Text.newlines_append, Text.newlines_cons (by decide), Text.newlines_append, newlines_source]
        omega
      · intro line' before
        have hcut' := cut?_openTag_append_of_none hplain (found.source ++ front)
        rw [scanFrom_piece hcut' (hvalid.piece_eq _)]
        obtain ⟨_, hbehind'⟩ :=
          fault?_scanBehind (line' + Text.newlines plain) (before.add plain) front found
        rw [hbehind']
        exact hfront _ _

/-! ## Blocks that stay open -/

section Open

variable {d : Dialect} {opens : List Opening}

theorem exists_of_effectsFrom {segments : List Segment} {done inside : List Effect}
    {effect : Effect} (h : effectsFrom d opens segments = done ++ effect :: inside) :
    ∃ before segment after opens', segments = before ++ segment :: after ∧
      effectsFrom d opens before = done ∧ segmentEffect d opens' segment = effect := by
  induction segments generalizing opens done with
  | nil => simp [effectsFrom] at h
  | cons segment segments ih =>
    cases done with
    | nil =>
      obtain ⟨heffect, -⟩ := List.cons.inj h
      exact ⟨[], segment, segments, opens, rfl, rfl, heffect⟩
    | cons first done =>
      obtain ⟨hfirst, hrest⟩ := List.cons.inj h
      obtain ⟨before, opener, after, opens', rfl, hdone, heffect⟩ := ih hrest
      refine ⟨segment :: before, opener, after, opens', rfl, ?_, heffect⟩
      rw [effectsFrom, hdone, hfirst]

theorem exists_of_segmentEffect {segment : Segment} {o : Opening}
    (h : segmentEffect d opens segment = .opens o) :
    ∃ body, segment = .tag o.line body ∧ tagName? (bodyCursor o.line body) = some o.name := by
  cases segment with
  | literal text => cases h
  | tag line body =>
    simp only [segmentEffect, tagEffect] at h
    split at h
    · cases h
    · rename_i name _ hname
      split at h
      · cases h
        exact ⟨body, rfl, hname⟩
      · cases h
    · cases h

theorem leftOpen_of_effects {source : Text} {o : Opening} {done inside : List Effect}
    (h : effects d (scan source).segments = done ++ .opens o :: inside)
    (hinside : Effect.Balanced inside) :
    ∃ front, LeftOpen d source front o.name ∧ o.line = 1 + Text.newlines front := by
  obtain ⟨before, segment, after, opens', hsegments, rfl, heffect⟩ := exists_of_effectsFrom h
  obtain ⟨body, rfl, hname⟩ := exists_of_segmentEffect heffect
  obtain ⟨front, back, hat, hline⟩ := exists_tagAt hsegments
  obtain ⟨name, line⟩ := o
  cases hline
  exact ⟨front, ⟨body, back, before, after, inside, hat, hname, h, hinside⟩, rfl⟩

end Open

/-! ## Failures -/

section Failures

variable {d : Dialect} {options : Options} {name source : Text} {failure : Failure}

theorem exists_failing_segment {segments : List Segment} {p : Progress}
    (h : segments.foldlM (compileSegment d options name) p = .error failure) :
    ∃ before segment after p', segments = before ++ segment :: after ∧
      before.foldlM (compileSegment d options name) p = .ok p' ∧
      compileSegment d options name p' segment = .error failure := by
  induction segments generalizing p with
  | nil => cases h
  | cons segment segments ih =>
    rw [List.foldlM_cons] at h
    cases hfirst : compileSegment d options name p segment with
    | error other =>
      rw [hfirst] at h
      cases h
      exact ⟨[], segment, segments, p, rfl, rfl, hfirst⟩
    | ok next =>
      rw [hfirst] at h
      obtain ⟨before, culprit, after, p', rfl, hbefore, hfails⟩ := ih h
      refine ⟨segment :: before, culprit, after, p', rfl, ?_, hfails⟩
      rw [List.foldlM_cons, hfirst]
      exact hbefore

/-- The three ways to fail: in a tag, in the scan, and by an open block at the end. -/
theorem compile_eq_error (h : compile d options name source = .error failure) :
    (∃ front body, FailsAt d options name source front body failure) ∨
    (∃ line fault, (scan source).fault? = some (line, fault) ∧
      failure = Failure.of name line fault) ∨
    ∃ p frame outer, (scan source).segments.foldlM (compileSegment d options name) {} = .ok p ∧
      p.frames = frame :: outer ∧ failure = unclosed name frame := by
  cases hfold : (scan source).segments.foldlM (compileSegment d options name) {} with
  | error other =>
    cases (compile_of_fold_error hfold).symm.trans h
    obtain ⟨before, segment, after, p, hsegments, hbefore, hfails⟩ := exists_failing_segment hfold
    cases segment with
    | literal text => cases hfails
    | tag line body =>
      obtain ⟨front, back, hat, rfl⟩ := exists_tagAt hsegments
      exact .inl ⟨front, body, back, before, after, p, hat, hbefore, hfails⟩
  | ok p =>
    right
    simp only [compile, hfold, bind, Except.bind] at h
    cases hfault : (scan source).fault? with
    | some found =>
      obtain ⟨line, fault⟩ := found
      rw [hfault] at h
      cases h
      exact .inl ⟨line, fault, rfl, rfl⟩
    | none =>
      rw [hfault] at h
      cases hframes : p.frames with
      | nil => simp [hframes, pure, Except.pure] at h
      | cons frame outer =>
        simp only [hframes, List.head?_cons] at h
        cases h
        exact .inr ⟨p, frame, outer, rfl, hframes, rfl⟩

/-- A tag that fails stands on its own line, unless the report is about one of its tokens. -/
theorem FailsAt.line_eq (hd : d.BuiltIn) {front body : Text}
    (h : FailsAt d options name source front body failure) :
    (∃ report, failure.fault = .unexpected report ∧ ∀ found, report.found = some found →
      ∃ lead token, TokenAt (1 + Text.newlines front) body lead token ∧ token.text = found ∧
        failure.line = 1 + Text.newlines (front ++ '\x7b' :: lead)) ∨
    failure.fault.line? = none ∧ failure.line = 1 + Text.newlines front := by
  obtain ⟨back, before, after, p, -, -, hfails⟩ := h
  simp only [compileSegment] at hfails
  split at hfails
  · cases hfails
  · rename_i fault c hbody
    cases hfails
    obtain ⟨honward, hat⟩ := onward_of_compileBody hd hbody
    rcases hat.unexpected_or with ⟨report, rfl, hfound, hline⟩ | hnone
    · refine .inl ⟨report, rfl, fun found hsome => ?_⟩
      obtain ⟨lead, token, htoken, htext, hlead⟩ := tokenAt_of_onward honward (hfound ▸ hsome)
      refine ⟨lead, token, htoken, htext, ?_⟩
      rw [Text.newlines_append, Text.newlines_cons (by decide), ← Nat.add_assoc, ← hlead, ← hline]
      rfl
    · refine .inr ⟨hnone, ?_⟩
      simp [Failure.of, hnone]

theorem breaksOff_of_fault {line : Nat} {fault : Fault}
    (h : (scan source).fault? = some (line, fault)) :
    ∃ front rest, BreaksOff source front rest fault ∧ line = 1 + Text.newlines front ∧
      ((∃ what, fault = .unterminated what) ∨
        fault = .unclosed rawTag line ∧ ∃ body more, rest = body ++ '\x7d' :: more ∧
          body.trimEnd = rawTag) := by
  obtain ⟨front, rest, hsource, rfl, hpiece, hfront⟩ := exists_of_scanFrom_fault h
  exact ⟨front, rest, ⟨hsource, hfront 1 {}, hpiece⟩, rfl, piece_eq_error hpiece⟩

theorem leftOpen_of_frame (hd : d.Faithful) {p : Progress} {frame : Frame} {outer : List Frame}
    (hfold : (scan source).segments.foldlM (compileSegment d options name) {} = .ok p)
    (hframes : p.frames = frame :: outer) :
    ∃ front, LeftOpen d source front frame.opening.name ∧
      frame.opening.line = 1 + Text.newlines front := by
  have hleaves := (tracks_of_run hd hfold).leaves
  rw [Progress.openings, hframes, List.map_cons, List.reverse_cons] at hleaves
  obtain ⟨done, inside, heffects, -, hinside⟩ := hleaves.last
  exact leftOpen_of_effects heffects hinside

end Failures

/--
A failure points at a line of the source. An unexpected token is one of the tag that fails, and the
line is that of the token. The line of a block left open is that of the brace of the tag that opens
it, and of a raw region that of its own. Any other fault is on the line of the brace of the tag or
comment that is at fault.
-/
theorem failure_on_its_line {options : Options} {name source : Text} {failure : Failure}
    (h : compile Dialect.standard options name source = .error failure) :
    (∀ report found, failure.fault = .unexpected report → report.found = some found →
      ∃ front body lead token, FailsAt Dialect.standard options name source front body failure ∧
        TokenAt (1 + Text.newlines front) body lead token ∧ token.text = found ∧
        failure.line = 1 + Text.newlines (front ++ '\x7b' :: lead)) ∧
    (∀ tag line, failure.fault = .unclosed tag line → failure.line = line ∧
      ∃ front, line = 1 + Text.newlines front ∧
        (LeftOpen Dialect.standard source front tag ∨
          tag = rawTag ∧ ∃ body rest, body.trimEnd = rawTag ∧
            BreaksOff source front (body ++ '\x7d' :: rest) failure.fault)) ∧
    ((∀ report, failure.fault ≠ .unexpected report) →
      (∀ tag line, failure.fault ≠ .unclosed tag line) →
      ∃ front, failure.line = 1 + Text.newlines front ∧
        ((∃ body, FailsAt Dialect.standard options name source front body failure) ∨
          ∃ rest, BreaksOff source front rest failure.fault)) := by
  rcases compile_eq_error h with ⟨front, body, hfails⟩ | ⟨line, fault, hfault, rfl⟩ |
    ⟨p, frame, outer, hfold, hframes, rfl⟩
  · rcases hfails.line_eq Dialect.builtIn_standard with ⟨report, hfault, hfound⟩ | ⟨hnone, hline⟩
    · refine ⟨fun report' found hreport hsome => ?_, fun tag line hunclosed => ?_,
        fun hnot => absurd hfault (hnot report)⟩
      · cases hfault.symm.trans hreport
        obtain ⟨lead, token, htoken⟩ := hfound found hsome
        exact ⟨front, body, lead, token, hfails, htoken⟩
      · cases hfault.symm.trans hunclosed
    · refine ⟨fun report found hreport => ?_, fun tag line hunclosed => ?_,
        fun _ _ => ⟨front, hline, .inl ⟨body, hfails⟩⟩⟩
      · rw [hreport] at hnone
        cases hnone
      · rw [hunclosed] at hnone
        cases hnone
  · obtain ⟨front, rest, hbreaks, rfl, hkind⟩ := breaksOff_of_fault hfault
    rcases hkind with ⟨what, rfl⟩ | ⟨rfl, body, more, rfl, hraw⟩
    · exact ⟨nofun, nofun, fun _ _ => ⟨front, rfl, .inr ⟨rest, hbreaks⟩⟩⟩
    · refine ⟨nofun, fun tag line hunclosed => ?_, fun _ hnot => absurd rfl (hnot _ _)⟩
      cases hunclosed
      exact ⟨rfl, front, rfl, .inr ⟨rfl, body, more, hraw, hbreaks⟩⟩
  · obtain ⟨front, hopen, hline⟩ := leftOpen_of_frame Dialect.builtIn_standard.faithful hfold hframes
    refine ⟨nofun, fun tag line hunclosed => ?_, fun _ hnot => absurd rfl (hnot _ _)⟩
    cases hunclosed
    exact ⟨rfl, front, hline, .inl hopen⟩

/-! Lines that comments, raw regions, strings and tags run over. -/

namespace LongTags

/-- A tag on line 6 with a token too many on line 9. -/
def token : Text :=
  "\n\x7b*\x7b\n*\x7d\x7bignore\n\x7d\x7b\n\x7b/ignore\x7d\x7bif $a\x7d\n\x7b'b\n' + /*\n*/ $c\n $d\x7d"

/-- A loop on line 2 that is not closed, with a block in it that is. -/
def loop : Text := "\x7b$a\n\x7d\x7bwhile $x\x7d\n\x7bif $y\x7d\n\x7b/if\x7d"

/-- A tag on line 4 that belongs to no block. -/
def orphan : Text := "\x7b$a\n\x7d\n\x7bfor $i = 1 to\n 2\x7d\x7belse\x7d"

end LongTags

theorem failure_on_its_line_longTags :
    (∃ failure front body lead token,
      compile Dialect.standard ⟨0⟩ ['t'] LongTags.token = .error failure ∧
      FailsAt Dialect.standard ⟨0⟩ ['t'] LongTags.token front body failure ∧
      TokenAt (1 + Text.newlines front) body lead token ∧ token.text = "$d" ∧
      9 = 1 + Text.newlines (front ++ '\x7b' :: lead)) ∧
    (compile Dialect.standard ⟨0⟩ ['t'] LongTags.loop = .error ⟨['t'], 2, .unclosed "while" 2⟩ ∧
      ∃ front, 2 = 1 + Text.newlines front ∧
        LeftOpen Dialect.standard LongTags.loop front "while") ∧
    ∃ failure front, compile Dialect.standard ⟨0⟩ ['t'] LongTags.orphan = .error failure ∧
      failure.fault = .orphan "else" ["if"] ∧ 4 = 1 + Text.newlines front ∧
      ∃ body, FailsAt Dialect.standard ⟨0⟩ ['t'] LongTags.orphan front body failure := by
  have htoken : compile Dialect.standard ⟨0⟩ ['t'] LongTags.token = .error ⟨['t'], 9,
      .unexpected ⟨some "$d".toList, 9, none, "'b↵' + $c↵ $d"⟩⟩ := by decide +kernel
  have hloop : compile Dialect.standard ⟨0⟩ ['t'] LongTags.loop =
      .error ⟨['t'], 2, .unclosed "while" 2⟩ := by decide +kernel
  have horphan : compile Dialect.standard ⟨0⟩ ['t'] LongTags.orphan =
      .error ⟨['t'], 4, .orphan "else" ["if"]⟩ := by decide +kernel
  refine ⟨?_, ⟨hloop, ?_⟩, ?_⟩
  · obtain ⟨front, body, lead, token, hfails, hplace⟩ :=
      (failure_on_its_line htoken).1 _ _ rfl rfl
    exact ⟨_, front, body, lead, token, htoken, hfails, hplace⟩
  · obtain ⟨-, front, hline, hopen | ⟨hraw, -⟩⟩ := (failure_on_its_line hloop).2.1 _ _ rfl
    · exact ⟨front, hline, hopen⟩
    · exact absurd hraw (by decide)
  · obtain ⟨front, hline, ⟨body, hfails⟩ | ⟨rest, hbreaks⟩⟩ :=
      (failure_on_its_line horphan).2.2 (by simp) (by simp)
    · exact ⟨_, front, horphan, rfl, hline, body, hfails⟩
    · rcases piece_eq_error hbreaks.piece_eq with ⟨_, ⟨⟩⟩ | ⟨⟨⟩, -⟩

end Stencil
