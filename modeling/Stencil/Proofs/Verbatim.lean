import Stencil.Proofs.Lines
import Stencil.Proofs.Parts
import Stencil.Script.Run

/-!
# Templates without tags

Literal text, comments and raw regions in any order. The scan makes one text of them, and a script
prints it as it stands: quotes, control characters and line ends included.
-/

namespace Stencil

open Script Segment Template

/-! ## Stretches -/

/-- A stretch of a template that holds no tag to be compiled. -/
inductive Stretch where
  | literal (text : Text) (h : isLiteral text = true)
  | comment (inside : Text) (h : ¬ closeComment <:+: inside)
  | raw (inside : Text) (h : ¬ closeRaw <:+: inside)

namespace Stretch

/-- The stretch as it stands in a template. -/
def source : Stretch → Text
  | .literal text _ => text
  | .comment inside _ => openTag ++ openComment :: (inside ++ closeComment)
  | .raw inside _ => openTag ++ (rawTag ++ '\x7d' :: (inside ++ closeRaw))

/-- What it prints. -/
def content : Stretch → Text
  | .literal text _ => text
  | .comment _ _ => []
  | .raw inside _ => inside

end Stretch

/-- Every opening brace has white space behind it, or is the last character. -/
def isLastLiteral : Text → Bool
  | [] => true
  | c :: rest => (c ≠ '\x7b' || rest.head?.all isBlank) && isLastLiteral rest

theorem exists_literal_of_isLastLiteral {t : Text} (h : isLastLiteral t = true) :
    ∃ front tail, isLiteral front = true ∧ (tail = [] ∨ tail = openTag) ∧ t = front ++ tail := by
  induction t with
  | nil => exact ⟨[], [], rfl, .inl rfl, rfl⟩
  | cons c rest ih =>
    rw [isLastLiteral, Bool.and_eq_true] at h
    obtain ⟨hc, hrest⟩ := h
    obtain ⟨front, tail, hfront, htail, rfl⟩ := ih hrest
    by_cases hbrace : c = '\x7b'
    · subst hbrace
      cases front with
      | nil =>
        rcases htail with rfl | rfl
        · exact ⟨[], openTag, rfl, .inr rfl, rfl⟩
        · exact absurd hc (by decide)
      | cons b more =>
        refine ⟨'\x7b' :: b :: more, tail, ?_, htail, rfl⟩
        rw [isLiteral, hfront]
        simpa using hc
    · exact ⟨c :: front, tail, by simp [isLiteral, hbrace, hfront], htail, rfl⟩

theorem isLiteral_plain_append {plain t : Text} (hplain : Text.cut? openTag plain = none)
    (ht : isLiteral t = true) : isLiteral (plain ++ t) = true := by
  induction plain with
  | nil => exact ht
  | cons c plain ih =>
    rw [Text.cut?, isPrefixOf_openTag] at hplain
    split at hplain
    · cases hplain
    · rename_i hc
      have hbrace : c ≠ '\x7b' := by
        rintro rfl
        exact hc rfl
      rw [List.cons_append, isLiteral, ih (by simpa using hplain)]
      simp [hbrace]

/-! ## Scanning -/

namespace Segment

theorem scanFrom_last {last : Text} (h : isLastLiteral last = true) (line : Nat) (p : Pile)
    {plain : Text} (hplain : Text.cut? openTag plain = none) :
    scanFrom line p (plain ++ last) = { segments := literals (p.text ++ (plain ++ last)) } := by
  obtain ⟨front, tail, hfront, htail, rfl⟩ := exists_literal_of_isLastLiteral h
  have hend (line : Nat) (p : Pile) (plain : Text) (hplain : Text.cut? openTag plain = none) :
      ∃ line' : Nat, scanFrom line p (plain ++ tail) =
        { segments := literals (p.text ++ plain ++ tail) } := by
    refine ⟨line, ?_⟩
    rcases htail with rfl | rfl
    · rw [List.append_nil, List.append_nil, scanFrom_none hplain]
    · have hcut : Text.cut? openTag (plain ++ openTag) = some (plain, []) :=
        cut?_openTag_append_of_none hplain []
      rw [scanFrom_piece hcut rfl, scanBehind, scanFrom_none rfl]
      simp
  obtain ⟨-, hscan⟩ := scanFrom_literal tail (fun _ text => { segments := literals (text ++ tail) })
    hend (plain ++ front) (isLiteral_plain_append hplain hfront) line p
  simpa using hscan

theorem scanFrom_stretches {last : Text} (hlast : isLastLiteral last = true)
    (stretches : List Stretch) : ∀ (line : Nat) (p : Pile) (plain : Text),
    Text.cut? openTag plain = none →
    scanFrom line p (plain ++ (stretches.flatMap Stretch.source ++ last)) =
      { segments := literals (p.text ++ (plain ++ (stretches.flatMap Stretch.content ++ last))) } := by
  induction stretches with
  | nil => exact fun line p plain hplain => scanFrom_last hlast line p hplain
  | cons stretch more ih =>
    intro line p plain hplain
    rw [List.flatMap_cons, List.flatMap_cons, List.append_assoc, List.append_assoc]
    -- Behind a comment or a raw region the scan goes on with nothing in front.
    have hmore (line : Nat) (p : Pile) := ih line p [] rfl
    simp only [List.nil_append] at hmore
    cases stretch with
    | literal text htext =>
      have hrest (line : Nat) (p : Pile) (plain : Text) (hplain : Text.cut? openTag plain = none) :
          ∃ line' : Nat, scanFrom line p (plain ++ (more.flatMap Stretch.source ++ last)) =
            { segments := literals (p.text ++ plain ++ (more.flatMap Stretch.content ++ last)) } :=
        ⟨line, by rw [ih line p plain hplain, List.append_assoc]⟩
      obtain ⟨-, hscan⟩ := scanFrom_literal (more.flatMap Stretch.source ++ last)
        (fun _ text => { segments := literals (text ++ (more.flatMap Stretch.content ++ last)) })
        hrest (plain ++ text) (isLiteral_plain_append hplain htext) line p
      simpa [Stretch.source, Stretch.content] using hscan
    | comment inside hinside =>
      have hvalid : (Piece.comment inside).Valid (more.flatMap Stretch.source ++ last) := hinside
      have hcut := cut?_openTag_append_of_none hplain
        ((Piece.comment inside).source ++ (more.flatMap Stretch.source ++ last))
      have hscan := scanFrom_piece (p := p) hcut (hvalid.piece_eq (line + Text.newlines plain))
      rw [scanBehind, hmore] at hscan
      simpa [Stretch.source, Stretch.content, Piece.source, openTag] using hscan
    | raw inside hinside =>
      have hvalid : (Piece.raw rawTag inside).Valid (more.flatMap Stretch.source ++ last) :=
        ⟨by decide, by decide, hinside⟩
      have hcut := cut?_openTag_append_of_none hplain
        ((Piece.raw rawTag inside).source ++ (more.flatMap Stretch.source ++ last))
      have hscan := scanFrom_piece (p := p) hcut (hvalid.piece_eq (line + Text.newlines plain))
      rw [scanBehind, hmore] at hscan
      simpa [Stretch.source, Stretch.content, Piece.source, openTag] using hscan

end Segment

/-! ## Compiling and running -/

/-- A script that holds no line but a text. -/
def Template.textScript (text : Text) : Text :=
  Output.script (if text.isEmpty then {} else Output.addText {} text)

theorem Template.compile_literals {source text : Text}
    (h : scan source = { segments := literals text }) (d : Dialect) (options : Options) (name : Text) :
    compile d options name source = .ok (textScript text) := by
  unfold compile textScript
  rw [h]
  unfold literals
  split
  · rfl
  · rfl

theorem Script.parse_textScript (text : Text) :
    parse (textScript text) = some (if text.isEmpty then [] else [.text text]) := by
  unfold parse textScript
  split
  · rfl
  · rw [(Output.Holds.empty.addText text).lines?]
    rfl

theorem Script.render_textScript (text : Text) (bindings : Variables) {fuel : Nat}
    (hfuel : 2 ≤ fuel) : render fuel (textScript text) bindings = .done text := by
  obtain ⟨n, rfl⟩ := Nat.exists_eq_add_of_le' hfuel
  unfold render
  rw [parse_textScript]
  by_cases hempty : text = []
  · subst hempty
    rfl
  · have hfilled : text.isEmpty = false := by simpa using hempty
    rw [hfilled, if_neg (by decide)]
    show Outcome.done (State.output (State.print { bindings } text)) = .done text
    rw [State.output_print]
    rfl

/--
A template without tags compiles under every dialect and all options, and its script prints the
literal texts and what stands in raw regions, character for character.
-/
theorem render_stretches (d : Dialect) (options : Options) (name : Text) (stretches : List Stretch)
    {last : Text} (hlast : isLastLiteral last = true) :
    ∃ code, compile d options name (stretches.flatMap Stretch.source ++ last) = .ok code ∧
      ∀ (bindings : Variables) (fuel : Nat), 2 ≤ fuel →
        render fuel code bindings = .done (stretches.flatMap Stretch.content ++ last) := by
  have hscan := scanFrom_stretches hlast stretches 1 {} [] rfl
  rw [Pile.text_empty, List.nil_append, List.nil_append, List.nil_append] at hscan
  refine ⟨_, compile_literals hscan d options name, fun bindings fuel hfuel => ?_⟩
  exact render_textScript _ bindings hfuel

/-- Marks that look as if something started or ended there, and characters that need an escape. -/
def lookalikes : List Stretch := [
    .literal "\x7b \x7d*\x7d\"" (by decide +kernel),
    .comment "*\x7bignore\x7d\n" (by decide +kernel),
    .raw "\x7b/ignore\x7b*\r\n\x01\\" (by decide +kernel),
    .comment [] (by decide),
    .literal "\x7b\n" (by decide +kernel)]

theorem render_stretches_lookalikes :
    isLastLiteral ['\u2028', '\x7b'] = true ∧
      ∃ code, compile Dialect.empty ⟨0x30⟩ ['t']
          (lookalikes.flatMap Stretch.source ++ ['\u2028', '\x7b']) = .ok code ∧
        ∀ (bindings : Variables) (fuel : Nat), 2 ≤ fuel → render fuel code bindings =
          .done "\x7b \x7d*\x7d\"\x7b/ignore\x7b*\r\n\x01\\\x7b\n\u2028\x7b" := by
  have hprinted : lookalikes.flatMap Stretch.content ++ ['\u2028', '\x7b'] =
      "\x7b \x7d*\x7d\"\x7b/ignore\x7b*\r\n\x01\\\x7b\n\u2028\x7b".toList := by decide +kernel
  rw [← hprinted]
  exact ⟨by decide, render_stretches Dialect.empty ⟨0x30⟩ ['t'] lookalikes (by decide)⟩

end Stencil
