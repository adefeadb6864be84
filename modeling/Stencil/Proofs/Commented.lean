import Stencil.Proofs.Inserted
import Stencil.Proofs.Located
import Stencil.Proofs.Seams

/-!
# Comments in tags that print

The comments of a tag are left out, and with a comment goes the white space behind it. Put between
two tokens of a tag that prints, a comment leaves the script as it is, if the end of the tag stays
where it is and no modifier loses the white space in front of the colon of a choice.
-/

namespace Stencil

open Grammar Reading Template

/-! ## Cursors on both texts -/

/-- The tokens of a tag that count. -/
def visible (tokens : List Token) : List Token := tokens.filter (·.kind ≠ .comment)

theorem visible_append (tokens more : List Token) :
    visible (tokens ++ more) = visible tokens ++ visible more := List.filter_append _ _

theorem visible_cons_comment {t : Token} (h : t.kind = .comment) (more : List Token) :
    visible (t :: more) = visible more := by
  simp [visible, h]

theorem visible_cons {t : Token} (h : t.kind ≠ .comment) (more : List Token) :
    visible (t :: more) = t :: visible more := by
  simp [visible, h]

theorem word_visible {tokens tokens' : List Token}
    (h : tokens'.map Token.word = tokens.map Token.word) :
    (visible tokens').map Token.word = (visible tokens).map Token.word := by
  have hfilter (ts : List Token) : (visible ts).map Token.word =
      (ts.map Token.word).filter (·.kind ≠ .comment) := by
    rw [visible, List.filter_map]
    rfl
  rw [hfilter, hfilter, h]

namespace Seam

variable {s : Seam}

theorem alignedFrom_of_words {ts us : List Token} (h : us.map Token.word = ts.map Token.word) :
    s.AlignedFrom ts us := by
  induction ts generalizing us with
  | nil =>
    obtain rfl := List.map_eq_nil_iff.mp h
    exact .nil
  | cons t ts ih =>
    obtain ⟨u, us, rfl, hword, hmore⟩ := List.map_eq_cons_iff.mp h
    refine .cons ⟨congrArg Word.kind hword, congrArg Word.text hword⟩ (.inl ?_) (ih hmore)
    rw [show u.space = t.space from congrArg Word.space hword]

theorem AlignedFrom.append_left {ts us : List Token} (h : s.AlignedFrom ts us)
    (before : List Token) : s.AlignedFrom (before ++ ts) (before ++ us) := by
  induction before with
  | nil => exact h
  | cons t before ih => exact .cons ⟨rfl, rfl⟩ (.inl rfl) ih

theorem alignedFrom_commented {before after after' : List Token} {last comment : Token}
    {blanks : Text} (hcomment : comment.kind = .comment)
    (hafter : after'.map Token.word = after.map Token.word)
    (hspace : last.kind ≠ .comment →
      s.Keeps (visible after).length (!last.space.isEmpty) (!blanks.isEmpty)) :
    s.AlignedFrom (visible (before ++ last :: after))
      (visible (before ++ { last with space := blanks } :: comment :: after')) := by
  rw [visible_append, visible_append]
  refine .append_left ?_ _
  have hrest : s.AlignedFrom (visible after) (visible (comment :: after')) := by
    rw [visible_cons_comment hcomment]
    exact alignedFrom_of_words (word_visible hafter)
  by_cases hlast : last.kind = .comment
  · rw [visible_cons_comment hlast, visible_cons_comment (t := { last with space := blanks }) hlast]
    exact hrest
  · rw [visible_cons hlast, visible_cons (t := { last with space := blanks }) hlast]
    exact .cons ⟨rfl, rfl⟩ (hspace hlast) hrest

theorem aligned_bodyCursor {line line' : Nat} {body body' : Text}
    (h : s.AlignedFrom (visible (tokenize line body)) (visible (tokenize line' body'))) :
    s.Aligned (bodyCursor line body) (bodyCursor line' body') :=
  ⟨h, .inl rfl⟩

namespace Aligned

variable {c e : Cursor}

theorem tagName?_eq (h : s.Aligned c e) : tagName? e = tagName? c := by
  obtain ⟨behind, ahead, endLine⟩ := c
  obtain ⟨behind', ahead', endLine'⟩ := e
  cases h.ahead with
  | nil => rfl
  | cons htoken _ _ =>
    simp only [tagName?, Cursor.current?, List.head?_cons, Option.filter_some, htoken.kind,
      htoken.isConstant]
    split
    · simp [htoken.text]
    · rfl

theorem closing?_eq_none (h : s.Aligned c e) (hclosing : closing? c = none) :
    closing? e = none := by
  obtain ⟨behind, ahead, endLine⟩ := c
  obtain ⟨behind', ahead', endLine'⟩ := e
  unfold closing? at hclosing ⊢
  rw [h.sees_eq, h.seesNext_eq]
  cases h.ahead with
  | nil => rfl
  | cons _ _ hmore =>
    cases hmore with
    | nil => simp [Cursor.next?]
    | cons _ _ _ =>
      split at hclosing
      · cases hclosing
      · rename_i hsees
        exact if_neg hsees

end Aligned

end Seam

/-! ## Tags that print an expression -/

/-- A template that is one tag. -/
def inBraces (body : Text) : Text := '\x7b' :: (body ++ ['\x7d'])

/-- The text is a tag that prints an expression, if it can be read at all. -/
structure Echoes (d : Dialect) (body : Text) : Prop where
  valid : (Segment.Piece.tag body).Valid []
  closing : closing? (bodyCursor 1 body) = none
  /-- A word at its start is no tag of the dialect, so it can only be called. -/
  name : ∀ word, tagName? (bodyCursor 1 body) = some word → d.find? word = none

open Token (atFront) in
theorem Echoes.of_variable {d : Dialect} {c : Char} {t : Text} (hc : isWordStart c = true)
    (hcloses : Segment.Closes ('$' :: c :: t)) : Echoes d ('$' :: c :: t) := by
  have hkind : (atFront 1 '$' (c :: t)).kind = .variable := by
    rw [atFront, Lexeme.first_dollar hc]
    rfl
  have hhead : ∀ b ∈ ('$' :: c :: t).head?, isBlank b = false ∧ b ≠ Segment.openComment := by
    rintro _ ⟨⟩
    decide
  obtain ⟨more, hahead⟩ : ∃ more, (bodyCursor 1 ('$' :: c :: t)).ahead =
      atFront 1 '$' (c :: t) :: more := by
    show ∃ more, visible (tokenize 1 ('$' :: c :: t)) = _ :: more
    rw [tokenize_of_head fun b hb => (hhead b hb).1, tokensOf_cons,
      visible_cons (by rw [hkind]; decide)]
    exact ⟨_, rfl⟩
  refine ⟨⟨hcloses, fun hraw => ?_, hhead⟩, ?_, fun word hword => ?_⟩
  · obtain ⟨_, ⟨⟩⟩ := Segment.exists_of_trimEnd (c := 'i') hraw
  · rw [closing?, sees_mark, hahead, nextKind_cons, hkind]
    rfl
  · obtain ⟨_, _, htoken, hname, -⟩ := tagName?_eq_some hword
    rw [hahead] at htoken
    obtain ⟨rfl, -⟩ := List.cons.inj htoken
    rw [hkind] at hname
    cases hname

/-- What such a tag reads: it may start with a word, and then a parenthesis has to follow. -/
def printing (d : Dialect) (options : Options) : Option Text → Bool →
    Reading (Statement × List Frame)
  | some word, false => throw (unknown d word)
  | _, _ => do return (.echo (← expression (d.scope options)), [])

section Printing

variable {d : Dialect} {options : Options} {name body body' code : Text} {s : Seam} {c e : Cursor}

theorem compileContent_printing {line : Nat} (hclosing : closing? c = none)
    (hname : ∀ word, tagName? c = some word → d.find? word = none) :
    compileContent d options line [] c =
      printing d options (tagName? c) (c.seesNext (mark "(")) c := by
  rw [compileContent_of_not_closing hclosing]
  cases hword : tagName? c with
  | none => rfl
  | some word =>
    simp only [compileNamed, findOwner?, hname word hword]
    rw [get_bind]
    cases c.seesNext (mark "(") with
    | false => rfl
    | true => rfl

theorem Seam.agrees_printing (hcuts : ¬ s.Cuts) (hplace : s.origin.Onward s.place)
    (hscope : s.scope = d.scope options) (word? : Option Text) (called : Bool) :
    s.Agrees (printing d options word? called) := by
  have hecho : s.Agrees (do
      return ((.echo (← expression (d.scope options)), []) : Statement × List Frame)) := by
    rw [← hscope]
    exact (agrees_expression hcuts hplace).bind fun _ => .pure _
  cases word? with
  | none => exact hecho
  | some word =>
    cases called with
    | false => exact .throw _
    | true => exact hecho

theorem Seam.agrees_finish (result : Statement × List Frame) : s.Agrees (finish result) := by
  intro c e a c' honward haligned hrun
  rw [finish_apply] at hrun
  split at hrun
  · rename_i hend
    cases hrun
    refine ⟨.refl c, .inl ⟨e, ?_, haligned⟩⟩
    have hlength := haligned.ahead.length_eq
    have hend' : e.atEnd = true := by
      simp only [Cursor.atEnd, List.isEmpty_iff] at hend ⊢
      rw [hend] at hlength
      exact List.length_eq_zero_iff.mp hlength
    rw [finish_apply, if_pos hend']
  · cases hrun

theorem Seam.Aligned.compileBody {line : Nat} (h : s.Aligned s.origin e) (hcuts : ¬ s.Cuts)
    (hplace : s.origin.Onward s.place) (hscope : s.scope = d.scope options)
    (hclosing : closing? s.origin = none)
    (hname : ∀ word, tagName? s.origin = some word → d.find? word = none)
    {result : Statement × List Frame} {c : Cursor}
    (hrun : compileBody d options line [] s.origin = .ok result c) :
    ∃ e', compileBody d options line [] e = .ok result e' := by
  have hname' : ∀ word, tagName? e = some word → d.find? word = none := by
    rwa [h.tagName?_eq]
  obtain ⟨content, c₁, hcontent, hfinish⟩ := bind_eq_ok hrun
  rw [compileContent_printing hclosing hname] at hcontent
  obtain ⟨hpassed, ⟨e₁, hcontent', haligned⟩ | ⟨hnever, -⟩⟩ :=
    agrees_printing hcuts hplace hscope _ _ _ _ _ _ (.refl _) h hcontent
  · obtain ⟨-, ⟨e', hfinish', -⟩ | ⟨hnever, -⟩⟩ :=
      agrees_finish content _ _ _ _ hpassed haligned hfinish
    · refine ⟨e', ?_⟩
      rw [← h.tagName?_eq, ← h.seesNext_eq,
        ← compileContent_printing (h.closing?_eq_none hclosing) hname'] at hcontent'
      exact (bind_of_ok hcontent').trans hfinish'
    · exact hnever.elim
  · exact hnever.elim

theorem scan_inBraces (h : (Segment.Piece.tag body).Valid []) :
    Segment.scan (inBraces body) = { segments := [.tag 1 body] } := by
  have hcut : Text.cut? Segment.openTag (inBraces body) = some ([], body ++ ['\x7d']) := rfl
  have hpiece : Segment.piece 1 (body ++ ['\x7d']) = .ok (.tag body, []) := by
    simpa [Segment.Piece.source] using h.piece_eq 1
  rw [Segment.scan, Segment.scanFrom_piece hcut hpiece, Segment.scanBehind,
    Segment.scanFrom_none (t := []) rfl]
  rfl

theorem compile_inBraces (h : (Segment.Piece.tag body).Valid []) :
    compile d options name (inBraces body) = .ok code ↔ ∃ statement c,
      compileBody d options 1 [] (bodyCursor 1 body) = .ok (statement, []) c ∧
        (Output.addStatement {} 1 statement).script = code := by
  rw [compile_eq_ok_iff, scan_inBraces h]
  constructor
  · rintro ⟨-, p, hfold, hframes, rfl⟩
    obtain ⟨next, hsegment, hrest⟩ := exists_of_foldlM_cons hfold
    cases hrest
    simp only [compileSegment] at hsegment
    split at hsegment
    · rename_i statement frames c hbody
      cases hsegment
      cases hframes
      exact ⟨statement, c, hbody, rfl⟩
    · cases hsegment
  · rintro ⟨statement, c, hbody, rfl⟩
    refine ⟨rfl, ⟨[], Output.addStatement {} 1 statement⟩, ?_, rfl, rfl⟩
    rw [List.foldlM_cons, compileSegment, hbody]
    rfl

theorem Seam.Aligned.compile_eq (h : s.Aligned (bodyCursor 1 body) (bodyCursor 1 body'))
    (horigin : s.origin = bodyCursor 1 body) (hcuts : ¬ s.Cuts)
    (hplace : s.origin.Onward s.place) (hscope : s.scope = d.scope options)
    (hechoes : Echoes d body) (hvalid : (Segment.Piece.tag body').Valid [])
    (hcode : compile d options name (inBraces body) = .ok code) :
    compile d options name (inBraces body') = .ok code := by
  obtain ⟨statement, c, hbody, hscript⟩ := (compile_inBraces hechoes.valid).mp hcode
  have hclosing := hechoes.closing
  have hname := hechoes.name
  rw [← horigin] at h hbody hclosing hname
  obtain ⟨e, hbody'⟩ := h.compileBody hcuts hplace hscope hclosing hname hbody
  exact (compile_inBraces hvalid).mpr ⟨statement, e, hbody', hscript⟩

end Printing

/-! ## Both places for a comment -/

namespace Split

variable {p s : Text} (split : Split p s)

/-- The place between the tokens of the first text and those of the second. -/
def seam (scope : Scope) : Seam where
  scope
  origin := bodyCursor 1 (p ++ ' ' :: s)
  place :=
    { behind := (visible (split.before ++ [split.last])).reverse
      ahead := visible split.after
      endLine := (bodyCursor 1 (p ++ ' ' :: s)).endLine }

/--
A comment right behind the first text takes white space away from the token there, and this is
the white space that keeps the colon of a choice from being one of a modifier.
-/
def Loses (scope : Scope) : Prop :=
  split.last.kind ≠ .comment ∧ split.blanks = [] ∧ (split.seam scope).Cuts

theorem visible_tokens : visible (tokenize 1 (p ++ ' ' :: s)) =
    visible (split.before ++ [split.last]) ++ visible split.after := by
  rw [split.tokens_eq, ← visible_append]
  simp

theorem onward_seam (scope : Scope) :
    (split.seam scope).origin.Onward (split.seam scope).place :=
  ⟨visible (split.before ++ [split.last]), split.visible_tokens, (List.append_nil _).symm, rfl⟩

theorem isBlank_blanks : ∀ b ∈ split.blanks, isBlank b = true := by
  intro b hb
  obtain ⟨_, c, rest, -, -, -, hlast⟩ := atFront_of_tokenize split.tokens_eq
  have hmem : b ∈ split.last.space := by
    rw [split.space_eq]
    exact List.mem_append_left _ hb
  rw [hlast] at hmem
  exact List.mem_takeWhile_imp hmem

theorem aligned_commented {seam : Seam} {x y rest blanks inside : Text}
    (hbody : p ++ ' ' :: s = x ++ y) (hhead : ∀ b ∈ (x ++ y).head?, isBlank b = false)
    (hx : x = Token.join split.before ++ (split.last.text ++ blanks))
    (hblanks : ∀ b ∈ blanks, isBlank b = true) (hinside : ¬ commentEnd <:+: inside)
    (hrest : rest.dropWhile isBlank = s.trimStart)
    (hkeeps : split.last.kind ≠ .comment →
      seam.Keeps (visible split.after).length true (!blanks.isEmpty)) :
    seam.Aligned (bodyCursor 1 (p ++ ' ' :: s))
      (bodyCursor 1 (x ++ (commentText inside ++ rest))) := by
  obtain ⟨comment, after, htokens, hcomment, hafter⟩ :=
    split.tokens_commented hbody hhead hx hblanks hinside hrest
  refine Seam.aligned_bodyCursor ?_
  rw [split.tokens_eq, htokens]
  refine Seam.alignedFrom_commented hcomment hafter fun hlast => ?_
  have hspace : (!split.last.space.isEmpty) = true := by simp [split.space_eq]
  rw [hspace]
  exact hkeeps hlast

end Split

theorem mem_trimEnd {t : Text} {c : Char} (h : c ∈ t) (hc : isBlank c = false) : c ∈ t.trimEnd := by
  have hsplit : t.reverse.takeWhile isBlank ++ t.reverse.dropWhile isBlank = t.reverse :=
    List.takeWhile_append_dropWhile
  have hmem : c ∈ t.reverse := List.mem_reverse.mpr h
  rw [← hsplit, List.mem_append] at hmem
  rcases hmem with hblank | hmem
  · rw [List.mem_takeWhile_imp hblank] at hc
    cases hc
  · exact List.mem_reverse.mpr hmem

theorem Echoes.not_isBlank_head {d : Dialect} {body : Text} (h : Echoes d body) :
    ∀ b ∈ body.head?, isBlank b = false :=
  fun b hb => (h.valid.2.2 b hb).1

theorem Echoes.valid_commented {d : Dialect} {x y inside rest : Text} (h : Echoes d (x ++ y))
    (hx : x ≠ []) (hcloses : Segment.Closes (x ++ (commentText inside ++ rest))) :
    (Segment.Piece.tag (x ++ (commentText inside ++ rest))).Valid [] := by
  obtain ⟨-, -, hhead⟩ := h.valid
  refine ⟨hcloses, fun hraw => ?_, ?_⟩
  · have hmem : '/' ∈ (x ++ (commentText inside ++ rest)).trimEnd :=
      mem_trimEnd (by simp [commentText, commentStart]) (by decide)
    rw [hraw] at hmem
    exact absurd hmem (by decide)
  · rw [List.head?_append_of_ne_nil _ hx] at hhead ⊢
    exact hhead

namespace Seam

/-- A seam behind all tokens, where nothing can be lost. -/
def idle (scope : Scope) (c : Cursor) : Seam := { scope, origin := c, place := c.toEnd }

theorem onward_idle (scope : Scope) (c : Cursor) :
    (idle scope c).origin.Onward (idle scope c).place :=
  ⟨c.ahead, (List.append_nil _).symm, rfl, rfl⟩

theorem not_cuts_idle (scope : Scope) (c : Cursor) : ¬ (idle scope c).Cuts := by
  rintro ⟨hcolon, -⟩
  cases hcolon

end Seam

section Places

variable {d : Dialect} {options : Options} {name code p s inside : Text}

theorem Split.ne_nil (hhead : ∀ b ∈ (p ++ ' ' :: s).head?, isBlank b = false) : p ≠ [] := by
  rintro rfl
  exact absurd (hhead ' ' rfl) (by decide)

theorem Split.compile_behind (split : Split p s) (hinside : ¬ commentEnd <:+: inside)
    (hechoes : Echoes d (p ++ ' ' :: s)) (hloses : ¬ split.Loses (d.scope options))
    (hcloses : Segment.Closes (p ++ (commentText inside ++ ' ' :: s)))
    (hcode : compile d options name (inBraces (p ++ ' ' :: s)) = .ok code) :
    compile d options name (inBraces (p ++ (commentText inside ++ ' ' :: s))) = .ok code := by
  have hhead := hechoes.not_isBlank_head
  have hvalid := hechoes.valid_commented (Split.ne_nil hhead) hcloses
  have haligned {seam : Seam} (hkeeps : split.last.kind ≠ .comment →
      seam.Keeps (visible split.after).length true (!split.blanks.isEmpty)) :
      seam.Aligned (bodyCursor 1 (p ++ ' ' :: s))
        (bodyCursor 1 (p ++ (commentText inside ++ ' ' :: s))) :=
    split.aligned_commented rfl hhead (split.front_eq hhead) split.isBlank_blanks hinside rfl hkeeps
  by_cases hcuts : (split.seam (d.scope options)).Cuts
  · -- The last token is a comment itself, or there is more white space behind it.
    have hkept : split.last.kind ≠ .comment → (!split.blanks.isEmpty) = true := by
      intro hlast
      simp only [Bool.not_eq_true', List.isEmpty_eq_false_iff]
      exact fun hblanks => hloses ⟨hlast, hblanks, hcuts⟩
    exact (haligned fun hlast => .inl (hkept hlast)).compile_eq rfl
      (Seam.not_cuts_idle (d.scope options) _) (Seam.onward_idle _ _) rfl hechoes hvalid hcode
  · exact (haligned fun _ => .inr ⟨rfl, rfl⟩).compile_eq rfl hcuts (split.onward_seam _) rfl
      hechoes hvalid hcode

theorem Split.compile_before (split : Split p s) (hinside : ¬ commentEnd <:+: inside)
    (hechoes : Echoes d (p ++ ' ' :: s))
    (hcloses : Segment.Closes (p ++ ' ' :: (commentText inside ++ s)))
    (hcode : compile d options name (inBraces (p ++ ' ' :: s)) = .ok code) :
    compile d options name (inBraces (p ++ ' ' :: (commentText inside ++ s))) = .ok code := by
  have hbody : p ++ ' ' :: s = p ++ [' '] ++ s := List.append_cons p ' ' s
  rw [List.append_cons] at hcloses ⊢
  have hhead := hechoes.not_isBlank_head
  have hfront := split.front_eq hhead
  have hx : p ++ [' '] =
      Token.join split.before ++ (split.last.text ++ (split.blanks ++ [' '])) := by
    rw [← List.append_assoc split.last.text, ← List.append_assoc (Token.join _), ← hfront]
  have hblanks : ∀ b ∈ split.blanks ++ [' '], isBlank b = true := by
    intro b hb
    rcases List.mem_append.mp hb with hb | hb
    · exact split.isBlank_blanks b hb
    · rw [List.mem_singleton.mp hb]
      decide
  have haligned : (Seam.idle (d.scope options) (bodyCursor 1 (p ++ ' ' :: s))).Aligned _ _ :=
    split.aligned_commented hbody (hbody ▸ hhead) hx hblanks hinside rfl
      fun _ => .inl (by simp)
  have hvalid := Echoes.valid_commented (hbody ▸ hechoes) (by simp) hcloses
  exact haligned.compile_eq rfl (Seam.not_cuts_idle _ _) (Seam.onward_idle _ _) rfl hechoes hvalid
    hcode

end Places

/-! ## Comments that hide nothing from the search for the end of a tag -/

namespace Segment

/-- A mode that the search can be in: strings start with a quote. -/
def Mode.Proper : Mode → Prop
  | .plain => True
  | .quoted quote | .escaped quote => quote = '"' ∨ quote = '\x27'

namespace Mode

variable {m : Mode} {c : Char}

theorem Proper.next (h : m.Proper) (c : Char) : (m.next c).Proper := by
  cases m with
  | plain =>
    rw [Mode.next]
    split
    · rename_i hquote
      simpa [Proper] using hquote
    · trivial
  | quoted quote =>
    rw [Mode.next]
    split
    · exact h
    · split
      · trivial
      · exact h
  | escaped quote => exact h

theorem Proper.next_quiet (h : m.Proper) (hc : isQuiet c = true) :
    (m.next c).next ' ' = m.next ' ' := by
  obtain ⟨hdouble, hsingle, -⟩ := ne_of_isQuiet hc
  cases m with
  | plain => simp [Mode.next, hdouble, hsingle]
  | quoted quote =>
    have hne : c ≠ quote := by
      rcases h with rfl | rfl
      · exact hdouble
      · exact hsingle
    have hblank : ' ' ≠ quote := by rcases h with rfl | rfl <;> decide
    by_cases hslash : c = '\\'
    · simp [Mode.next, hslash, hblank]
    · simp [Mode.next, hslash, hne, hblank]
  | escaped quote =>
    have hblank : ' ' ≠ quote := by rcases h with rfl | rfl <;> decide
    simp [Mode.next, hblank]

/-- The mode behind a text. -/
def behind (m : Mode) (t : Text) : Mode := t.foldl (fun m c => m.next c) m

theorem Proper.behind_quiet {t : Text} (h : m.Proper) (ht : t.all isQuiet = true) :
    (m.behind t).Proper ∧ (m.behind t).next ' ' = m.next ' ' := by
  induction t generalizing m with
  | nil => exact ⟨h, rfl⟩
  | cons c t ih =>
    rw [List.all_cons, Bool.and_eq_true] at ht
    obtain ⟨hproper, hnext⟩ := ih (h.next c) ht.2
    exact ⟨hproper, hnext.trans (h.next_quiet ht.1)⟩

/-- The end of a comment leads wherever a blank does. -/
theorem Proper.next_commentEnd (h : m.Proper) : (m.next '*').next '/' = m.next ' ' := by
  cases m with
  | plain => rfl
  | quoted quote => rcases h with rfl | rfl <;> rfl
  | escaped quote => rcases h with rfl | rfl <;> rfl

theorem Proper.behind_comment {inside : Text} (h : m.Proper) (hinside : inside.all isQuiet = true) :
    m.behind (commentText inside) = m.next ' ' := by
  have hopen : ('/' :: '*' :: inside).all isQuiet = true := by
    rw [List.all_cons, List.all_cons, hinside]
    decide
  obtain ⟨hproper, hnext⟩ := h.behind_quiet hopen
  calc m.behind (commentText inside)
    _ = ((m.behind ('/' :: '*' :: inside)).next '*').next '/' := by
      simp [Mode.behind, commentText, commentStart, commentEnd]
    _ = (m.behind ('/' :: '*' :: inside)).next ' ' := hproper.next_commentEnd
    _ = m.next ' ' := hnext

end Mode

theorem tagEnd?_quiet {t : Text} (h : t.all isQuiet = true) (m : Mode) (depth : Nat) (rest : Text) :
    tagEnd? m depth (t ++ rest) =
      (tagEnd? (m.behind t) depth rest).map fun (body, rest) => (t ++ body, rest) := by
  induction t generalizing m with
  | nil => simp [Mode.behind]
  | cons c t ih =>
    rw [List.all_cons, Bool.and_eq_true] at h
    have hbraces := (ne_of_isQuiet h.1).2.2
    have hdepth : depthAfter c m depth = depth := by
      unfold depthAfter
      split <;> simp_all
    rw [List.cons_append, tagEnd?, if_neg (by simp [hbraces.2]), hdepth, ih h.2]
    simp [Mode.behind, Function.comp_def]

/-- Where the tag goes on behind a text, it does so in a mode that depends on the text alone. -/
theorem exists_mode_of_tagEnd? {m : Mode} {depth : Nat} {front t body rest : Text} (hm : m.Proper)
    (h : tagEnd? m depth (front ++ t) = some (front ++ body, rest)) :
    ∃ m' depth', m'.Proper ∧ ∀ t, tagEnd? m depth (front ++ t) =
      (tagEnd? m' depth' t).map fun (body, rest) => (front ++ body, rest) := by
  induction front generalizing m depth with
  | nil => exact ⟨m, depth, hm, by simp⟩
  | cons c front ih =>
    rw [List.cons_append, tagEnd?] at h
    split at h
    · cases h
    · rename_i hend
      obtain ⟨⟨more, rest'⟩, hmore, heq⟩ := Option.map_eq_some_iff.mp h
      obtain ⟨hbody, rfl⟩ := Prod.mk.inj heq
      obtain ⟨-, rfl⟩ := List.cons.inj hbody
      obtain ⟨m', depth', hproper, hpassed⟩ := ih (hm.next c) hmore
      refine ⟨m', depth', hproper, fun t => ?_⟩
      rw [List.cons_append, tagEnd?, if_neg hend, hpassed]
      simp [Function.comp_def]

/-- A quiet comment in front of a blank or behind it leaves the end of the tag where it is. -/
theorem Closes.commented {p s inside : Text} (h : Closes (p ++ ' ' :: s))
    (hinside : inside.all isQuiet = true) :
    Closes (p ++ (commentText inside ++ ' ' :: s)) ∧
      Closes (p ++ ' ' :: (commentText inside ++ s)) := by
  have hcomment : (commentText inside).all isQuiet = true := by
    rw [commentText, List.all_append, List.all_append, hinside]
    decide
  have hblank (m : Mode) (depth : Nat) (t : Text) : tagEnd? m depth (' ' :: t) =
      (tagEnd? (m.next ' ') depth t).map fun (body, rest) => (' ' :: body, rest) :=
    tagEnd?_quiet (t := [' ']) (by decide) m depth t
  unfold Closes at h ⊢
  rw [List.append_assoc] at h
  obtain ⟨m, depth, hm, hpassed⟩ := exists_mode_of_tagEnd? (m := .plain) trivial h
  have hsettled : (m.next ' ').next ' ' = m.next ' ' := hm.next_quiet (by decide)
  have hs : tagEnd? (m.next ' ') depth (s ++ ['\x7d']) = some (s, []) := by
    rw [hpassed, List.cons_append, hblank] at h
    simpa using h
  constructor
  · simp only [List.append_assoc, List.cons_append]
    rw [hpassed, tagEnd?_quiet hcomment, hm.behind_comment hinside, hblank, hsettled, hs]
    rfl
  · simp only [List.append_assoc, List.cons_append]
    rw [hpassed, hblank, tagEnd?_quiet hcomment, (hm.next ' ').behind_comment hinside, hsettled, hs]
    rfl

end Segment

/-! ## Scripts -/

/--
A comment between two tokens of a tag that prints, in front of a blank or behind it, leaves the
script as it is, with two provisos. The end of the tag has to be found where it was, although the
comment may hold quotes and braces; it is found there if it holds none. And a comment in front of
the blank takes it away from the token there, which may not end a modifier in front of the colon of
a choice.
-/
theorem compile_commented {d : Dialect} {options : Options} {name p s inside code : Text}
    (split : Split p s) (hinside : ¬ commentEnd <:+: inside) (hechoes : Echoes d (p ++ ' ' :: s))
    (hcode : compile d options name (inBraces (p ++ ' ' :: s)) = .ok code) :
    (Segment.Closes (p ++ (commentText inside ++ ' ' :: s)) → ¬ split.Loses (d.scope options) →
      compile d options name (inBraces (p ++ (commentText inside ++ ' ' :: s))) = .ok code) ∧
    (Segment.Closes (p ++ ' ' :: (commentText inside ++ s)) →
      compile d options name (inBraces (p ++ ' ' :: (commentText inside ++ s))) = .ok code) ∧
    (inside.all Segment.isQuiet = true → Segment.Closes (p ++ (commentText inside ++ ' ' :: s)) ∧
      Segment.Closes (p ++ ' ' :: (commentText inside ++ s))) :=
  ⟨fun hcloses hloses => split.compile_behind hinside hechoes hloses hcloses hcode,
    fun hcloses => split.compile_before hinside hechoes hcloses hcode,
    hechoes.valid.1.commented⟩

namespace Remarks

/-- The first branch of a choice ends with a modifier, and two blanks follow. -/
def front : Text := "$a ? $b|upper "

def back : Text := ": \"\x7d\""

/-- Braces and quotes, all in pairs. -/
def inside : Text := " \x7bor\x7d \"\x7d\" "

def split : Split front back where
  before := (tokenize 1 (front ++ ' ' :: back)).take 4
  last := ⟨.name, "upper", "  ", 1⟩
  after := (tokenize 1 (front ++ ' ' :: back)).drop 5
  blanks := " "
  tokens_eq := by decide +kernel
  join_after := by decide +kernel
  space_eq := by decide +kernel

def script : Text := "@1\necho (? (var a) (mod strtoupper (var b)) \"\x7d\")\n"

end Remarks

open Remarks in
theorem compile_commented_remarks :
    Echoes Dialect.standard (front ++ ' ' :: back) ∧
    compile Dialect.standard ⟨0⟩ ['t'] (inBraces (front ++ ' ' :: back)) = .ok script ∧
    compile Dialect.standard ⟨0⟩ ['t'] (inBraces (front ++ (commentText inside ++ ' ' :: back))) =
      .ok script ∧
    compile Dialect.standard ⟨0⟩ ['t'] (inBraces (front ++ ' ' :: (commentText inside ++ back))) =
      .ok script ∧
    Segment.Closes (front ++ (commentText "why?" ++ ' ' :: back)) := by
  have hechoes : Echoes Dialect.standard (front ++ ' ' :: back) :=
    .of_variable (c := 'a') (by decide +kernel) (by decide +kernel)
  have hcode : compile Dialect.standard ⟨0⟩ ['t'] (inBraces (front ++ ' ' :: back)) =
      .ok script := by decide +kernel
  have hloses : ¬ split.Loses (Dialect.standard.scope ⟨0⟩) := fun h => nomatch h.2.1
  have hinside : ¬ commentEnd <:+: inside := by decide +kernel
  obtain ⟨hbehind, hbefore, -⟩ := compile_commented split hinside hechoes hcode
  have hwhy : ¬ commentEnd <:+: ("why?" : Text) := by decide +kernel
  obtain ⟨-, -, hquiet⟩ := compile_commented split hwhy hechoes hcode
  exact ⟨hechoes, hcode, hbehind (by decide +kernel) hloses, hbefore (by decide +kernel),
    (hquiet (by decide)).1⟩

/-- A brace in a comment ends the tag, and a modifier in front of one takes the colon behind it. -/
theorem compile_broken_comment :
    (∃ p s inside : Text, Nonempty (Split p s) ∧ Echoes Dialect.standard (p ++ ' ' :: s) ∧
      ¬ commentEnd <:+: inside ∧
      compile Dialect.standard ⟨0⟩ ['t'] (inBraces (p ++ ' ' :: s)) =
        .ok "@1\necho (+ (var a) 1)\n" ∧
      (compile Dialect.standard ⟨0⟩ ['t']
        (inBraces (p ++ (commentText inside ++ ' ' :: s)))).isOk = false ∧
      (compile Dialect.standard ⟨0⟩ ['t']
        (inBraces (p ++ ' ' :: (commentText inside ++ s)))).isOk = false) ∧
    ∃ p s inside : Text, Nonempty (Split p s) ∧ Echoes Dialect.standard (p ++ ' ' :: s) ∧
      inside.all Segment.isQuiet = true ∧ ¬ commentEnd <:+: inside ∧
      compile Dialect.standard ⟨0⟩ ['t'] (inBraces (p ++ ' ' :: s)) =
        .ok "@1\necho (? (var a) (mod strtoupper (var b)) 1)\n" ∧
      (compile Dialect.standard ⟨0⟩ ['t']
        (inBraces (p ++ (commentText inside ++ ' ' :: s)))).isOk = false := by
  have hsum : Split "$a" "+ 1" :=
    { before := []
      last := ⟨.variable, "$a", " ", 1⟩
      after := [⟨.symbol "+", "+", " ", 1⟩, ⟨.integer, "1", "", 1⟩]
      blanks := []
      tokens_eq := by decide +kernel
      join_after := by decide +kernel
      space_eq := by decide +kernel }
  have hchoice : Split "$a ? $b|upper" ": 1" :=
    { before := (tokenize 1 "$a ? $b|upper : 1").take 4
      last := ⟨.name, "upper", " ", 1⟩
      after := [⟨.symbol ":", ":", " ", 1⟩, ⟨.integer, "1", "", 1⟩]
      blanks := []
      tokens_eq := by decide +kernel
      join_after := by decide +kernel
      space_eq := by decide +kernel }
  refine ⟨⟨"$a", "+ 1", "\x7d", ⟨hsum⟩, ?_, ?_⟩, "$a ? $b|upper", ": 1", "c", ⟨hchoice⟩, ?_, ?_⟩
  · exact .of_variable (c := 'a') (by decide +kernel) (by decide +kernel)
  · decide +kernel
  · exact .of_variable (c := 'a') (by decide +kernel) (by decide +kernel)
  · decide +kernel

end Stencil
