import Stencil.Proofs.Blocks
import Stencil.Proofs.Page
import Stencil.Proofs.Reread

/-!
# Compiling written tags

What a tag compiles to when its words are known, and what it does to the open blocks.
-/

namespace Stencil

open Grammar Reading Template

/-! ## The inside of a tag -/

theorem Word.Apart.kind_ne_comment {words : List Word} (h : Word.Apart words) :
    ∀ w ∈ words, w.kind ≠ .comment := by
  induction h with
  | nil => simp
  | @cons w _ h _ _ _ ih =>
    intro x hx
    rcases List.mem_cons.mp hx with rfl | hx
    · intro hk
      rw [hk] at h
      cases h
    · exact ih x hx
  | slash _ _ ih =>
    intro x hx
    rcases List.mem_cons.mp hx with rfl | hx
    · simp
    · exact ih x hx

theorem bodyCursor_join {words : List Word} (h : Word.Apart words) (line : Nat) :
    ∃ tokens endLine, bodyCursor line (Word.join words) = ⟨[], tokens, endLine⟩ ∧
      tokens.map Token.word = words := by
  have hwords := words_tokenize h line
  have hfilter : (tokenize line (Word.join words)).filter (·.kind ≠ .comment) =
      tokenize line (Word.join words) := by
    refine List.filter_eq_self.mpr fun t ht => ?_
    have hmem : t.word ∈ words := by
      rw [← hwords]
      exact List.mem_map_of_mem ht
    exact decide_eq_true (h.kind_ne_comment t.word hmem)
  refine ⟨tokenize line (Word.join words), (Cursor.ofText (Word.join words) line).endLine, ?_, hwords⟩
  unfold bodyCursor Cursor.filter
  have htokens : (Cursor.ofText (Word.join words) line).tokens = tokenize line (Word.join words) := rfl
  rw [htokens, hfilter]
  rfl

section Content

variable {d : Dialect} {options : Options} {line n : Nat} {name space : Text} {words : List Word}
  {ends : Option Kind → Prop} {frames inner outer : List Frame} {frame owner : Frame}
  {statement : Statement} {result : Statement × List Frame}

theorem compileSegment_tag {frames' : List Frame} (hapart : Word.Apart words)
    (h : ∀ n, Passes (compileContent d options line frames) n words (· = none) (statement, frames'))
    (template : Text) (output : Output) :
    compileSegment d options template ⟨frames, output⟩ (.tag line (Word.join words)) =
      .ok ⟨frames', output.addStatement line statement⟩ := by
  obtain ⟨tokens, endLine, hcursor, hwords⟩ := bodyCursor_join hapart line
  have hread := h tokens.length [] tokens [] endLine hwords rfl (by simp)
  rw [List.append_nil] at hread
  have hbody : compileBody d options line frames ⟨[], tokens, endLine⟩ =
      .ok (statement, frames') ⟨tokens.reverse ++ [], [], endLine⟩ := by
    rw [compileBody, bind_of_ok hread]
    rfl
  rw [compileSegment, hcursor, hbody]

theorem passes_content_of_name (hname : name ∉ Token.constants)
    (h : Passes (compileNamed d options name line frames) n (⟨.name, name, space⟩ :: words) ends
      result) :
    Passes (compileContent d options line frames) n (⟨.name, name, space⟩ :: words) ends result := by
  refine h.of_head fun behind t ahead endLine ht => ?_
  have hkind : t.kind = .name := congrArg Word.kind ht
  have htext : t.text = name := congrArg Word.text ht
  have htag : tagName? ⟨behind, t :: ahead, endLine⟩ = some name := by
    simp [tagName?, Cursor.current?, Option.filter, Token.isConstant, hkind, htext, hname]
  rw [compileContent, get_bind]
  simp [sees_mark, hkind, htag]

theorem passes_named_of_tag {tag : Tag} (hfree : findOwner? d name frames = none)
    (htag : d.find? name = some tag) {w : Word}
    (h : Passes (compileTag (d.scope options) tag line frames) (n - 1) words ends result) :
    Passes (compileNamed d options name line frames) n (w :: words) ends result := by
  unfold compileNamed
  rw [hfree, htag]
  exact Passes.advance.step h

theorem passes_named_of_child {handler : BlockHandler} {kept : Frame} {w : Word}
    (hfound : findOwner? d name frames = some (inner, owner, handler, outer))
    (hplace : inner = [] ∨ d.floats owner name = true)
    (h : Passes (handler (d.scope options) owner) (n - 1) words ends (statement, kept)) :
    Passes (compileNamed d options name line frames) n (w :: words) ends
      (statement, inner ++ kept :: outer) := by
  have hrest : Passes
      (advance >>= fun _ => handler (d.scope options) owner >>=
        fun r => pure (r.1, inner ++ r.2 :: outer))
      n (w :: words) ends (statement, inner ++ kept :: outer) :=
    Passes.advance.step h.bind_pure
  unfold compileNamed
  rw [hfound]
  dsimp only
  unfold compileChild
  rcases hplace with rfl | hfloats
  · exact hrest
  · cases inner with
    | nil => exact hrest
    | cons top inner =>
      simp only [List.head?_cons, hfloats]
      exact hrest

theorem passes_opener {block : Block} {handler : InlineHandler} {scope : Scope}
    (hopener : block.opener = .plain handler)
    (h : Passes (handler scope) n words ends statement) :
    Passes (compileTag scope ⟨name, .block block⟩ line frames) n words ends
      (statement, .opened name line :: frames) := by
  have hplain : Passes (block.opener scope (.opened name line)) n words ends
      (statement, .opened name line) := by
    rw [hopener]
    exact h.bind_pure
  exact hplain.bind_pure

theorem passes_close {block : Block} (htag : d.find? name = some ⟨name, .block block⟩)
    (hname : frame.action = name) (hcloser : block.closer = .plain (.constant statement)) :
    Passes (compileContent d options line (frame :: outer)) n
      [.symbol ['/'] [], ⟨.name, name, space⟩] ends (statement, outer) := by
  intro behind tokens rest endLine hwords _ _
  obtain ⟨slash, tokens, rfl, hslash, htokens⟩ := List.map_eq_cons_iff.mp hwords
  obtain ⟨word, tokens, rfl, hword, htail⟩ := List.map_eq_cons_iff.mp htokens
  obtain rfl := List.map_eq_nil_iff.mp htail
  have hkind : slash.kind = .symbol ['/'] := congrArg Word.kind hslash
  have hnext : word.kind = .name := congrArg Word.kind hword
  have htext : word.text = name := congrArg Word.text hword
  have hblock : d.block? name = some block := by
    rw [Dialect.block?, htag]
    rfl
  have hclose : compileClose d options name (frame :: outer) = pure (statement, outer) := by
    unfold compileClose closeFrame
    simp only [htag, Tag.kind, TagKind.isBlock, hname, hblock, hcloser]
    rfl
  have htake : takeAny ⟨slash :: behind, word :: rest, endLine⟩ =
      .ok name ⟨word :: slash :: behind, rest, endLine⟩ := by
    rw [← htext]
    rfl
  have hclosing : (Cursor.sees ⟨behind, [slash, word] ++ rest, endLine⟩ (mark "/") &&
      Cursor.seesNext ⟨behind, [slash, word] ++ rest, endLine⟩ [.kind .name]) = true := by
    simp [sees_mark, hkind, Cursor.seesNext, Cursor.next?, Token.fits, Want.accepts, hnext]
  rw [compileContent, get_bind, if_pos hclosing]
  dsimp only [List.cons_append, List.nil_append]
  rw [bind_of_ok (advance_cons slash), bind_of_ok htake, hclose]
  rfl

theorem passes_named_of_call {w paren : Word} (hfree : findOwner? d name frames = none)
    (htag : d.find? name = none) (hparen : paren.kind = .symbol ['('])
    (h : Passes (expression (d.scope options) >>= fun e => pure (.echo e, frames)) n
      (w :: paren :: words) ends result) :
    Passes (compileNamed d options name line frames) n (w :: paren :: words) ends result := by
  intro behind tokens rest endLine hwords hk hn
  rw [← h behind tokens rest endLine hwords hk hn]
  obtain ⟨first, tokens, rfl, -, htokens⟩ := List.map_eq_cons_iff.mp hwords
  obtain ⟨second, tokens, rfl, hsecond, -⟩ := List.map_eq_cons_iff.mp htokens
  have hkind : second.kind = .symbol ['('] := by
    rw [← hparen, ← hsecond]
    rfl
  have hnext : Cursor.seesNext ⟨behind, first :: second :: tokens ++ rest, endLine⟩
      (mark "(") = true := by
    simp [Cursor.seesNext, Cursor.next?, mark, Token.fits, Want.symbol, Want.accepts, hkind]
  unfold compileNamed
  rw [hfree, htag]
  dsimp only
  rw [get_bind, if_pos hnext]

theorem passes_content_of_expression {w : Word} (hslash : w.kind ≠ .symbol ['/'])
    (hname : w.kind = .name → w.text ∈ Token.constants)
    (h : Passes (expression (d.scope options) >>= fun e => pure (.echo e, frames)) n (w :: words)
      ends result) :
    Passes (compileContent d options line frames) n (w :: words) ends result := by
  refine h.of_head fun behind t ahead endLine ht => ?_
  subst ht
  have htag : tagName? ⟨behind, t :: ahead, endLine⟩ = none := by
    have hconstant : t.kind = .name → t.kind = .name ∧ t.text ∈ Token.constants :=
      fun hk => ⟨hk, hname hk⟩
    simpa [tagName?, Cursor.current?, Option.filter, Token.isConstant] using hconstant
  have hclosing : (Cursor.sees ⟨behind, t :: ahead, endLine⟩ (mark "/") &&
      Cursor.seesNext ⟨behind, t :: ahead, endLine⟩ [.kind .name]) = false := by
    have hkind : t.kind ≠ .symbol ['/'] := hslash
    simp [sees_mark, hkind]
  rw [compileContent, get_bind, if_neg (by rw [hclosing]; decide), htag]

end Content

/-! ## Blocks of the standard dialect -/

namespace BlockKind

theorem find?_name {kind : BlockKind} (h : kind ≠ .capture) :
    Dialect.standard.find? kind.name = some ⟨kind.name, .block kind.block⟩ := by
  cases kind with
  | capture => exact absurd rfl h
  | _ => rfl

theorem closer_eq {kind : BlockKind} (h : kind ≠ .capture) :
    kind.block.closer = .plain (.constant .close) := by
  cases kind with
  | capture => exact absurd rfl h
  | _ => rfl

theorem name_notMem (kind : BlockKind) : kind.name ∉ Token.constants ∧ kind.name ∉ childNames := by
  cases kind <;> decide

end BlockKind

section Blocks

variable {options : Options} {line n : Nat} {space : Text} {words : List Word}
  {ends : Option Kind → Prop} {frames : List Frame} {frame : Frame} {kinds : List BlockKind}
  {kind : BlockKind} {statement : Statement}

theorem passes_open (hkind : kind ≠ .capture) {handler : InlineHandler}
    (hopener : kind.block.opener = .plain handler) (hopened : Opened kinds frames)
    (h : Passes (handler (Dialect.standard.scope options)) (n - 1) words ends statement) :
    Passes (compileContent Dialect.standard options line frames) n
      (⟨.name, kind.name, space⟩ :: words) ends
      (statement, .opened kind.name line :: frames) := by
  apply passes_content_of_name kind.name_notMem.1
  apply passes_named_of_tag (findOwner?_eq_none hopened kind.name_notMem.2) (kind.find?_name hkind)
  exact passes_opener hopener h

theorem passes_end (hkind : kind ≠ .capture) (hframe : frame.Is kind) :
    Passes (compileContent Dialect.standard options line (frame :: frames)) n
      [.symbol ['/'] [], ⟨.name, kind.name, space⟩] ends (.close, frames) :=
  passes_close (kind.find?_name hkind) hframe.action_eq (kind.closer_eq hkind)

theorem passes_child {name : Text} (hname : name ∉ Token.constants) {handler : BlockHandler}
    (hframe : frame.Is kind) (hchild : kind.block.child? name = some handler) {kept : Frame}
    (h : Passes (handler (Dialect.standard.scope options) frame) (n - 1) words ends
      (statement, kept)) :
    Passes (compileContent Dialect.standard options line (frame :: frames)) n
      (⟨.name, name, space⟩ :: words) ends (statement, kept :: frames) := by
  apply passes_content_of_name hname
  rw [← hframe.child?_eq] at hchild
  exact passes_named_of_child (findOwner?_cons_of_some hchild) (.inl rfl) h

theorem passes_floating {name : Text} {has : BlockKind → Bool} (hname : name ∉ Token.constants)
    (hfloating : BlockKind.Floating name statement has) (hopened : Opened kinds frames)
    (hhas : kinds.any has = true) :
    Passes (compileContent Dialect.standard options line frames) n [⟨.name, name, space⟩] ends
      (statement, frames) := by
  obtain ⟨inner, owner, outer, hfound, hfloats⟩ := exists_owner hfloating hopened hhas
  obtain ⟨rfl, -, -⟩ := findOwner?_eq_some hfound
  apply passes_content_of_name hname
  exact passes_named_of_child hfound (.inr hfloats) Passes.pure

end Blocks

/-! ## Handlers -/

theorem Passes.takeWord {n : Nat} {ends : Option Kind → Prop} (word space : Text) :
    Passes (takeWord word) n [⟨.name, word, space⟩] ends () := by
  refine of_token fun t ht behind ahead endLine => ?_
  have hkind : t.kind = .name := congrArg Word.kind ht
  have htext : t.text = word := congrArg Word.text ht
  simp [Reading.takeWord, Cursor.current?, hkind, htext, Cursor.advance]

theorem Passes.takeAssign {n : Nat} {ends : Option Kind → Prop} :
    Passes (Reading.take [.role [.assign]]) n [.spaced ['=']] ends ['='] := by
  refine of_token fun t ht behind ahead endLine => ?_
  have hkind : t.kind = .symbol ['='] := congrArg Word.kind ht
  have htext : t.text = ['='] := congrArg Word.text ht
  have hneed : need [.role [.assign]] ⟨behind, t :: ahead, endLine⟩ =
      .ok t ⟨behind, t :: ahead, endLine⟩ := by
    have hfits : t.fits [.role [.assign]] = true := by
      rw [Token.fits, List.any_cons, List.any_nil, Want.accepts, Token.roles, hkind]
      decide
    simp [need, Cursor.current?, hfits]
  rw [Reading.take, bind_of_ok hneed, bind_of_ok (advance_cons t), htext]
  rfl

namespace Written

variable {scope : Scope} {n : Nat}

theorem passes_assign {place : Target} {value : Tree} (hplace : place.Permitted scope)
    (hvalue : value.Permitted scope) :
    Passes (Tag.assign scope) n (place.words [' '] ++ .spaced ['='] :: value.words []) (· = none)
      (.set (place.expr scope) (value.expr scope)) := by
  unfold Tag.assign
  refine (Target.passes hplace [' ']).bind (fun _ _ => ?_) (Passes.takeAssign.step ?_)
  · show EndsTarget (some (.symbol ['=']))
    decide
  · exact (Tree.passes_last hvalue).bind_pure

theorem passes_foreach {list : Tree} (h : list.Permitted scope) (key : Option KeyName)
    (value : Identifier) :
    Passes (Tag.openForeach scope) n
      (list.words [' '] ++ ⟨.name, "as", [' ']⟩ :: loopWords key value) (· = none)
      (.foreach (list.expr scope) (key.map (·.val)) value.val) := by
  unfold Tag.openForeach
  refine (Tree.passes h [' ']).bind (fun _ _ => ?_) ((Passes.takeWord _ _).step ?_)
  · show EndsExpression false [' '] (some .name)
    decide
  cases key with
  | none =>
    refine (passes_loopVariable value []).step (Passes.skip_else (fun k hk => ?_) Passes.pure)
    simp [hk]
  | some key =>
    refine (passes_loopVariable ⟨key.val, key.property.1⟩ [' ']).step (Passes.skip_then rfl ?_)
    exact (passes_loopVariable value []).bind_pure

theorem passes_for (name : Identifier) {first last step : Tree} (hfirst : first.Permitted scope)
    (hlast : last.Permitted scope) (hstep : step.Permitted scope) :
    Passes (Tag.openFor scope) n (rangeWords name first last step) (· = none)
      (.forRange name.val (first.expr scope) (last.expr scope) (step.expr scope)) := by
  have hword : EndsExpression false [' '] (some .name) := by decide
  unfold Tag.openFor rangeWords
  refine (passes_loopVariable name [' ']).step ((Passes.discard_take rfl).step ?_)
  refine (Tree.passes hfirst [' ']).bind (fun _ _ => hword) ((Passes.takeWord _ _).step ?_)
  refine (Tree.passes hlast [' ']).bind (fun _ _ => hword) ?_
  -- A step follows, so none is added.
  refine Passes.of_head ((Passes.takeWord _ _).step ?_) fun _ _ _ _ _ => rfl
  exact (Tree.passes_last hstep).bind_pure

/-! ## Tags that print -/

/-- A word that comes first is a constant or the name of a call. -/
def Plain (scope : Scope) (words : List Word) : Prop :=
  ∃ w rest, words = w :: rest ∧ (w.kind = .name → w.text ∈ Token.constants ∨
    (scope.library.permits scope.options w.text = true ∧ w.text ∉ Token.constants ∧
      headKind rest none = some (.symbol ['('])))

theorem Plain.append {words : List Word} (h : Plain scope words) (more : List Word) :
    Plain scope (words ++ more) := by
  obtain ⟨w, rest, rfl, hname⟩ := h
  refine ⟨w, rest ++ more, rfl, fun hk => (hname hk).imp_right ?_⟩
  rintro ⟨hpermits, hconstant, hparen⟩
  refine ⟨hpermits, hconstant, ?_⟩
  cases rest with
  | nil => simp at hparen
  | cons _ _ => exact hparen

theorem Plain.enclosed {words : Text → List Word} (h : ∀ after, Plain scope (words after))
    (needed : Bool) (after : Text) : Plain scope (enclosed needed words after) := by
  cases needed with
  | true => exact ⟨_, _, rfl, by simp⟩
  | false => exact h after

theorem Target.plain (place : Target) (after : Text) : Plain scope (place.words after) := by
  have hhead := place.headKind_words after none
  cases hw : place.words after with
  | nil => simp [hw] at hhead
  | cons w rest =>
    obtain hk : w.kind = .variable := by simpa [hw] using hhead
    exact ⟨w, rest, rfl, by simp [hk]⟩

theorem Tree.plain : ∀ (t : Tree), t.Permitted scope → ∀ after, Plain scope (t.words after)
  | .integer _, _, _ | .float _, _, _ | .string _, _, _ | .countFirst .., _, _ | .list _, _, _
  | .unary .., _, _ => ⟨_, _, rfl, by simp⟩
  | .constant word, _, _ => ⟨_, _, rfl, fun _ => .inl word.property⟩
  | .target place, _, after => place.plain after
  | .countAfter _ place, _, _ => (place.plain [' ']).append _
  | .call name _, h, _ => ⟨_, _, rfl, fun _ => .inr ⟨h.1, name.property.2, rfl⟩⟩
  | .binary _ first _, h, _ | .choice first _ _, h, _ | .fallback first _, h, _ =>
    (Plain.enclosed (first.plain h.1) _ [' ']).append _
  | .modified value _ _, h, _ => (Plain.enclosed (value.plain h.2.1) _ [' ']).append _

theorem not_tag_of_permits {options : Options} {name : Text}
    (h : Library.standard.permits options name = true) :
    name ∉ BlockKind.childNames ∧ Dialect.standard.find? name = none := by
  have hall : ∀ name ∈ Library.standard.allowed ++ Library.standard.host,
      name ∉ BlockKind.childNames ∧ (Dialect.standard.find? name).isNone = true := by decide
  have hmem : name ∈ Library.standard.allowed ++ Library.standard.host := by
    rw [Library.permits, Bool.or_eq_true, Bool.and_eq_true] at h
    rcases h with h | ⟨-, h⟩
    · exact List.mem_append_left _ (of_decide_eq_true h)
    · exact List.mem_append_right _ (of_decide_eq_true h)
  obtain ⟨hchild, htag⟩ := hall name hmem
  exact ⟨hchild, Option.isNone_iff_eq_none.mp htag⟩

theorem Tree.passes_echo {options : Options} {line : Nat} {frames : List Frame}
    {kinds : List BlockKind} {t : Tree} (h : t.Permitted (Dialect.standard.scope options))
    (hopened : Opened kinds frames) :
    Passes (compileContent Dialect.standard options line frames) n (t.words []) (· = none)
      (.echo (t.expr (Dialect.standard.scope options)), frames) := by
  have hpasses : Passes
      (expression (Dialect.standard.scope options) >>= fun e => pure (Statement.echo e, frames)) n
      (t.words []) (· = none) (.echo (t.expr (Dialect.standard.scope options)), frames) :=
    (Tree.passes_last h).bind_pure
  have hstart := t.startsExpression [] none
  obtain ⟨w, rest, hwords, hname⟩ := t.plain h []
  rw [hwords] at hpasses hstart ⊢
  by_cases hcall : w.kind = .name ∧ w.text ∉ Token.constants
  · obtain ⟨kind, text, space⟩ := w
    obtain ⟨rfl, hconstant⟩ := hcall
    obtain ⟨hpermits, -, hparen⟩ := (hname rfl).resolve_left hconstant
    obtain ⟨hchild, htag⟩ := not_tag_of_permits hpermits
    apply passes_content_of_name hconstant
    cases rest with
    | nil => simp at hparen
    | cons paren rest =>
      exact passes_named_of_call (findOwner?_eq_none hopened hchild) htag (by simpa using hparen)
        hpasses
  · refine passes_content_of_expression ?_ (fun hk => ?_) hpasses
    · intro hk
      exact hstart.ne (s := ['/']) (by decide) (by rw [headKind_cons, hk])
    · by_contra hmem
      exact hcall ⟨hk, hmem⟩

end Written

end Stencil
