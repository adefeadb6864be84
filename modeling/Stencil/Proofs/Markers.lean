import Stencil.Proofs.Balanced
import Stencil.Proofs.Passages

/-!
# Markers

A marker in front of a statement names the line of its tag, and one marker serves all statements of
a line. Without its markers, a script is the texts and the statements of the template in the order
in which they stand there.
-/

namespace Stencil

open Segment Script Template

/-! ## What a passage adds to the script -/

def textFragments (run : List Chunk) : List Text :=
  if (Chunk.contents run).isEmpty then [] else [(Statement.text (Chunk.contents run)).render]

/-- The lines of a passage, markers apart. -/
def Translation.fragments (t : Translation) : List Text :=
  textFragments t.run ++ [t.statement.render]

namespace Template.Output

theorem isMarker_marker (n : Nat) : isMarker (marker n) = true := by
  simp [isMarker, marker]

variable {o : Output} {line : Nat}

theorem lines_addRun (o : Output) (run : List Chunk) :
    (o.addRun run).lines = o.lines ++ textFragments run := by
  unfold addRun textFragments
  split
  · simp
  · exact lines_addText o _

theorem mark?_addRun (o : Output) (run : List Chunk) : (o.addRun run).mark? = o.mark? := by
  unfold addRun
  split <;> rfl

theorem not_isMarker_textFragments {run : List Chunk} {l : Text} (h : l ∈ textFragments run) :
    isMarker l = false := by
  unfold textFragments at h
  split at h
  · simp at h
  · rw [List.mem_singleton] at h
    subst h
    exact (Statement.Clean.shows (s := .text _) trivial).not_marker

theorem lines_addTranslation {t : Translation} (h : t.statement.Clean) :
    (o.addTranslation line t).lines = (o.addRun t.run).lines ++
      (o.addRun t.run).markers (t.tagLine line) ++ [t.statement.render] := by
  have hshows := h.shows
  rw [addTranslation, lines_addStatement _ _ hshows.ne_nil,
    Text.lines_eq hshows.oneLine hshows.ne_nil, List.append_assoc]

theorem mark?_addTranslation {t : Translation} (h : t.statement.Clean) :
    (o.addTranslation line t).mark? = some (t.tagLine line) := by
  have hfilled : t.statement.render.isEmpty = false := by simpa using h.shows.ne_nil
  rw [addTranslation, addStatement, hfilled, if_neg (by decide)]

def withoutMarkers (lines : List Text) : List Text := lines.filter (!isMarker ·)

theorem withoutMarkers_addRun (o : Output) (run : List Chunk) :
    withoutMarkers (o.addRun run).lines = withoutMarkers o.lines ++ textFragments run := by
  have htext : withoutMarkers (textFragments run) = textFragments run :=
    List.filter_eq_self.mpr fun l hl => by simp [not_isMarker_textFragments hl]
  rw [lines_addRun, withoutMarkers, List.filter_append]
  exact congrArg _ htext

theorem withoutMarkers_markers (lines : List Text) (o : Output) (n : Nat) :
    withoutMarkers (lines ++ o.markers n) = withoutMarkers lines := by
  have hnone : withoutMarkers (o.markers n) = [] := by
    unfold markers
    split <;> simp [withoutMarkers, isMarker_marker]
  rw [withoutMarkers, List.filter_append]
  exact (congrArg _ hnone).trans (List.append_nil _)

theorem withoutMarkers_addTranslation {t : Translation} (h : t.statement.Clean) :
    withoutMarkers (o.addTranslation line t).lines = withoutMarkers o.lines ++ t.fragments := by
  rw [lines_addTranslation h, withoutMarkers, List.filter_append]
  have hcode : [t.statement.render].filter (!isMarker ·) = [t.statement.render] := by
    simp [h.shows.not_marker]
  rw [hcode]
  show withoutMarkers _ ++ _ = _
  rw [withoutMarkers_markers, withoutMarkers_addRun, List.append_assoc, Translation.fragments]

/-! ## Markers go up -/

/-- The markers have these numbers, which go up to the one of the last marker, at most `line`. -/
structure Ordered (o : Output) (line : Nat) (numbers : List Nat) : Prop where
  markers_eq : o.lines.filter isMarker = numbers.map marker
  increasing : numbers.Pairwise (· < ·)
  last_eq : numbers.getLast? = o.mark?
  le_mark : ∀ n ∈ numbers, ∃ m, o.mark? = some m ∧ n ≤ m
  mark_le : ∀ m, o.mark? = some m → m ≤ line

theorem ordered_empty (line : Nat) : Ordered {} line [] :=
  ⟨rfl, .nil, rfl, by simp, by simp⟩

variable {numbers : List Nat}

theorem Ordered.addRun (h : Ordered o line numbers) (run : List Chunk) :
    Ordered (o.addRun run) (line + Text.newlines (Chunk.sources run)) numbers := by
  have hnone : (textFragments run).filter isMarker = [] :=
    List.filter_eq_nil_iff.mpr fun l hl => by simp [not_isMarker_textFragments hl]
  refine ⟨?_, h.increasing, ?_, ?_, fun m hm => ?_⟩
  · rw [lines_addRun, List.filter_append, hnone, List.append_nil, h.markers_eq]
  · rw [mark?_addRun, h.last_eq]
  · rw [mark?_addRun]
    exact h.le_mark
  · rw [mark?_addRun] at hm
    exact (h.mark_le m hm).trans (Nat.le_add_right _ _)

/-- The numbers of the markers once a statement on `line` has its marker. -/
def numbersAt (o : Output) (line : Nat) (numbers : List Nat) : List Nat :=
  if o.mark? = some line then numbers else numbers ++ [line]

theorem Ordered.filter_markers (h : Ordered o line numbers) :
    (o.lines ++ o.markers line).filter isMarker = (o.numbersAt line numbers).map marker := by
  unfold markers numbersAt
  split <;> simp [h.markers_eq, isMarker_marker]

theorem Ordered.getLast?_numbersAt (h : Ordered o line numbers) :
    (o.numbersAt line numbers).getLast? = some line := by
  unfold numbersAt
  split
  · rename_i hmark
    exact h.last_eq.trans hmark
  · simp

theorem Ordered.pairwise_numbersAt (h : Ordered o line numbers) :
    (o.numbersAt line numbers).Pairwise (· < ·) := by
  unfold numbersAt
  split
  · exact h.increasing
  · rename_i hmark
    refine List.pairwise_append.mpr ⟨h.increasing, List.pairwise_singleton _ _, ?_⟩
    intro n hn x hx
    obtain ⟨m, hm, hle⟩ := h.le_mark n hn
    have hline := h.mark_le m hm
    have hne : m ≠ line := by
      rintro rfl
      exact hmark hm
    rw [List.mem_singleton] at hx
    omega

theorem Ordered.le_of_mem_numbersAt (h : Ordered o line numbers) {n : Nat}
    (hn : n ∈ o.numbersAt line numbers) : n ≤ line := by
  have hbefore (hn : n ∈ numbers) : n ≤ line := by
    obtain ⟨m, hm, hle⟩ := h.le_mark n hn
    exact hle.trans (h.mark_le m hm)
  unfold numbersAt at hn
  split at hn
  · exact hbefore hn
  · rcases List.mem_append.mp hn with hn | hn
    · exact hbefore hn
    · exact (List.mem_singleton.mp hn).le

theorem Ordered.addTranslation (h : Ordered o line numbers) {t : Translation}
    (hclean : t.statement.Clean) :
    Ordered (o.addTranslation line t) (line + Text.newlines t.source)
      ((o.addRun t.run).numbersAt (t.tagLine line) numbers) := by
  have hrun : Ordered (o.addRun t.run) (t.tagLine line) numbers := h.addRun t.run
  have hmark : (o.addTranslation line t).mark? = some (t.tagLine line) := mark?_addTranslation hclean
  refine ⟨?_, hrun.pairwise_numbersAt, ?_, fun n hn => ?_, fun m hm => ?_⟩
  · rw [lines_addTranslation hclean, List.filter_append]
    have hmarkers := hrun.filter_markers
    simpa [hclean.shows.not_marker] using hmarkers
  · rw [hmark]
    exact hrun.getLast?_numbersAt
  · exact ⟨_, hmark, hrun.le_of_mem_numbersAt hn⟩
  · rw [hmark] at hm
    cases hm
    rw [Passage.newlines_source]
    exact Nat.le_add_right _ _

/-! ## All passages -/

theorem addAll_append (o : Output) (line : Nat) (before after : List Translation) :
    o.addAll line (before ++ after) =
      (o.addAll line before).addAll (line + Text.newlines (before.flatMap (·.source))) after := by
  induction before generalizing o line with
  | nil => rfl
  | cons t before ih =>
    rw [List.cons_append, addAll, ih, addAll, List.flatMap_cons, Text.newlines_append, Nat.add_assoc]

variable {translations : List Translation}

theorem withoutMarkers_addAll (h : ∀ t ∈ translations, t.statement.Clean) :
    withoutMarkers (o.addAll line translations).lines =
      withoutMarkers o.lines ++ translations.flatMap Translation.fragments := by
  induction translations generalizing o line with
  | nil => simp [addAll]
  | cons t more ih =>
    obtain ⟨ht, hmore⟩ := List.forall_mem_cons.mp h
    rw [addAll, ih hmore, withoutMarkers_addTranslation ht, List.flatMap_cons, List.append_assoc]

theorem Ordered.addAll (h : Ordered o line numbers)
    (hclean : ∀ t ∈ translations, t.statement.Clean) :
    ∃ numbers', Ordered (o.addAll line translations)
      (line + Text.newlines (translations.flatMap (·.source))) numbers' := by
  induction translations generalizing o line numbers with
  | nil => exact ⟨numbers, h⟩
  | cons t more ih =>
    obtain ⟨ht, hmore⟩ := List.forall_mem_cons.mp hclean
    obtain ⟨numbers', hordered⟩ := ih (h.addTranslation ht) hmore
    rw [List.flatMap_cons, Text.newlines_append, ← Nat.add_assoc]
    exact ⟨numbers', hordered⟩

theorem prefix_addAll (h : ∀ t ∈ translations, t.statement.Clean) (o : Output) (line : Nat) :
    o.lines <+: (o.addAll line translations).lines := by
  induction translations generalizing o line with
  | nil => exact List.prefix_refl _
  | cons t more ih =>
    obtain ⟨ht, hmore⟩ := List.forall_mem_cons.mp h
    refine List.IsPrefix.trans ?_ (ih hmore _ _)
    rw [lines_addTranslation ht, lines_addRun, List.append_assoc, List.append_assoc]
    exact List.prefix_append _ _

theorem exists_lines_addAll {before after : List Translation} {t : Translation}
    (h : Ordered o line numbers) (hclean : ∀ x ∈ before ++ t :: after, x.statement.Clean)
    (last : List Chunk) :
    ∃ upto rest, ((o.addAll line (before ++ t :: after)).addRun last).lines =
        upto ++ t.statement.render :: rest ∧
      withoutMarkers upto =
        withoutMarkers o.lines ++ (before.flatMap Translation.fragments ++ textFragments t.run) ∧
      (upto.filter isMarker).getLast? =
        some (marker (line + Text.newlines (before.flatMap (·.source) ++ Chunk.sources t.run))) := by
  obtain ⟨hbefore, hrest⟩ := List.forall_mem_append.mp hclean
  obtain ⟨ht, hafter⟩ := List.forall_mem_cons.mp hrest
  obtain ⟨numbers', hordered⟩ := h.addAll hbefore
  have hrun := hordered.addRun t.run
  rw [Nat.add_assoc, ← Text.newlines_append] at hrun
  generalize hmiddle : line + Text.newlines (before.flatMap (·.source)) = middle at hordered
  have htag : t.tagLine middle =
      line + Text.newlines (before.flatMap (·.source) ++ Chunk.sources t.run) := by
    rw [Passage.tagLine, Text.newlines_append]
    omega
  rw [addAll_append, hmiddle, addAll, lines_addRun, ← htag]
  rw [← htag] at hrun
  obtain ⟨rest, hlines⟩ := prefix_addAll hafter ((o.addAll line before).addTranslation middle t)
    (middle + Text.newlines t.source)
  refine ⟨((o.addAll line before).addRun t.run).lines ++
    ((o.addAll line before).addRun t.run).markers (t.tagLine middle), rest ++ textFragments last,
    ?_, ?_, ?_⟩
  · rw [← hlines, lines_addTranslation ht]
    simp
  · rw [withoutMarkers_markers, withoutMarkers_addRun, withoutMarkers_addAll hbefore,
      List.append_assoc]
  · rw [hrun.filter_markers, List.getLast?_map, hrun.getLast?_numbersAt]
    rfl

theorem Holds.addRun {lines : List Line} (h : o.Holds lines) (run : List Chunk) :
    ∃ lines', (o.addRun run).Holds lines' := by
  unfold Output.addRun
  split
  · exact ⟨lines, h⟩
  · exact ⟨_, h.addText _⟩

theorem Holds.addAll {lines : List Line} (h : o.Holds lines)
    (hclean : ∀ t ∈ translations, t.statement.Clean) (line : Nat) :
    ∃ lines', (o.addAll line translations).Holds lines' := by
  induction translations generalizing o line lines with
  | nil => exact ⟨lines, h⟩
  | cons t more ih =>
    obtain ⟨ht, hmore⟩ := List.forall_mem_cons.mp hclean
    obtain ⟨lines', hrun⟩ := h.addRun t.run
    exact ih (hrun.addStatement ht _) hmore _

end Template.Output

/-! ## Templates -/

theorem Translated.clean {options : Options} {line : Nat} {frames frames' : List Frame}
    {translations : List Translation} {stack : Stack} (hstack : Follows stack frames)
    (h : Translated Dialect.standard options line frames translations frames') :
    ∀ t ∈ translations, t.statement.Clean := by
  induction h generalizing stack with
  | nil => simp
  | cons htag _ ih =>
    obtain ⟨stack', -, hclean, hfollows⟩ := advances_of_compileBody hstack htag
    exact List.forall_mem_cons.mpr ⟨hclean, ih hfollows⟩

theorem Cut.source_eq {source : Text} {passages : List Passage} {last : List Chunk}
    (h : Cut source passages last) :
    source = passages.flatMap Passage.source ++ Chunk.sources last := by
  induction passages generalizing source with
  | nil => exact h.1
  | cons p more ih =>
    obtain ⟨rest, rfl, -, -, hmore⟩ := h
    rw [List.flatMap_cons, List.append_assoc, ← ih hmore]

open Template.Output

/-- The template is cut into these passages and a last text, and the script follows them. -/
structure Marked (options : Options) (source code : Text) (translations : List Translation)
    (last : List Chunk) : Prop where
  cut : Cut source (translations.map Translation.toPassage) last
  translated : Translated Dialect.standard options 1 [] translations []
  /-- Without its markers, the script is the texts and the statements in the same order. -/
  fragments_eq : withoutMarkers code.lines =
    translations.flatMap Translation.fragments ++ textFragments last
  /-- The last marker before the statement of a tag names the line of the tag's opening brace. -/
  marker_eq : ∀ before t after, translations = before ++ t :: after →
    ∃ front back upto rest, source = front ++ '\x7b' :: (t.body ++ '\x7d' :: back) ∧
      front = before.flatMap (·.source) ++ Chunk.sources t.run ∧
      code.lines = upto ++ t.statement.render :: rest ∧
      withoutMarkers upto = before.flatMap Translation.fragments ++ textFragments t.run ∧
      (upto.filter isMarker).getLast? = some (marker (1 + Text.newlines front))
  increasing : ∃ numbers : List Nat, code.lines.filter isMarker = numbers.map marker ∧
    numbers.Pairwise (· < ·)

/--
The script of a template keeps its order. Every statement stands behind a marker that names the line
of its tag, and the markers go up.
-/
theorem compile_marked {options : Options} {name source code : Text}
    (h : compile Dialect.standard options name source = .ok code) :
    ∃ translations last, Marked options source code translations last := by
  obtain ⟨translations, last, hcut, -, htranslated, rfl⟩ := exists_cut_of_compile h
  have hclean := htranslated.clean .nil
  obtain ⟨_, hholds⟩ := Holds.empty.addAll hclean 1
  obtain ⟨_, hholds⟩ := hholds.addRun last
  have hlines : (scriptOf translations last).lines = _ := hholds.lines_eq
  refine ⟨translations, last, hcut, htranslated, ?_, ?_, ?_⟩
  · rw [hlines, withoutMarkers_addRun, withoutMarkers_addAll hclean]
    rfl
  · rw [hlines]
    rintro before t after rfl
    obtain ⟨upto, rest, hstatement, hbefore, hmarker⟩ :=
      exists_lines_addAll (ordered_empty 1) hclean last
    refine ⟨_, after.flatMap (·.source) ++ Chunk.sources last, upto, rest, ?_, rfl, hstatement,
      hbefore, hmarker⟩
    rw [hcut.source_eq]
    simp [List.flatMap_map, Passage.source]
  · obtain ⟨numbers, hordered⟩ := (ordered_empty 1).addAll hclean
    have hlast := hordered.addRun last
    rw [hlines]
    exact ⟨numbers, hlast.markers_eq, hlast.increasing⟩

/-- Line feeds in text, in a comment, in a raw region and in a tag, and two tags on one line. -/
def scattered : Text :=
  ("a\n\x7b*\n*\x7d\x7bif $x\x7d\x7b'\n'\x7d\x7b$y\x7d\x7bignore\x7d\x7b\n" ++
    "\x7b/ignore\x7d\x7b \x7b/if\x7d\x7b").toList

theorem compile_marked_scattered :
    ∃ code translations last, compile Dialect.standard ⟨0⟩ ['t'] scattered = .ok code ∧
      Marked ⟨0⟩ scattered code translations last := by
  have hdone : (compile Dialect.standard ⟨0⟩ ['t'] scattered).isOk = true := by decide +kernel
  cases hcompile : compile Dialect.standard ⟨0⟩ ['t'] scattered with
  | error failure =>
    rw [hcompile] at hdone
    cases hdone
  | ok code =>
    obtain ⟨translations, last, hmarked⟩ := compile_marked hcompile
    exact ⟨code, translations, last, rfl, hmarked⟩

end Stencil
