import Mathlib.Data.List.Infix
import Stencil.Proofs.Cuts
import Stencil.Proofs.Dispatch
import Stencil.Proofs.Positions

/-!
# Templates in passages

A template is text with tags in it. Each tag and the text in front of it make a passage, and text
may follow the last one. Comments and raw regions belong to the text. This is how a template that
compiles is cut, and the script has the texts and the statements of the tags in the same order.
-/

namespace Stencil

open Template

namespace Segment

theorem notMem_of_not_infix {t : Text} (h : ¬ openTag <:+: t) : '\x7b' ∉ t :=
  fun hmem => h ((List.singleton_infix_iff _ _).mpr hmem)

end Segment

open Segment

/-! ## Chunks of text -/

/-- A part of a text: characters that open nothing, or what an opening brace starts. -/
inductive Chunk where
  | plain (text : Text)
  | piece (found : Piece)

namespace Chunk

def source : Chunk → Text
  | .plain text => text
  | .piece found => '\x7b' :: found.source

def content : Chunk → Text
  | .plain text => text
  | .piece found => found.content

/-- The chunk belongs to a text, and `rest` follows it. -/
def Valid (rest : Text) : Chunk → Prop
  | .plain text => '\x7b' ∉ text
  | .piece found => found.isTag = false ∧ found.Valid rest

def sources (run : List Chunk) : Text := run.flatMap source

def contents (run : List Chunk) : Text := run.flatMap content

def AllValid (rest : Text) : List Chunk → Prop
  | [] => True
  | chunk :: more => chunk.Valid (sources more ++ rest) ∧ AllValid rest more

end Chunk

/-! ## Passages -/

/-- A tag and the text in front of it. -/
structure Passage where
  run : List Chunk
  body : Text

namespace Passage

def source (p : Passage) : Text := Chunk.sources p.run ++ '\x7b' :: (p.body ++ ['\x7d'])

/-- The line of the tag, where the passage starts on `line`. -/
def tagLine (line : Nat) (p : Passage) : Nat := line + Text.newlines (Chunk.sources p.run)

theorem newlines_source (line : Nat) (p : Passage) :
    line + Text.newlines p.source = p.tagLine line + Text.newlines p.body := by
  rw [source, tagLine, Text.newlines_append, Text.newlines_cons (by decide), Text.newlines_append]
  simp only [Text.newlines, List.count_singleton]
  simp
  omega

end Passage

/-- The template is cut into these passages and a last text. -/
def Cut : Text → List Passage → List Chunk → Prop
  | source, [], last => source = Chunk.sources last ∧ Chunk.AllValid [] last
  | source, p :: more, last => ∃ rest, source = p.source ++ rest ∧
      Chunk.AllValid ('\x7b' :: (p.body ++ '\x7d' :: rest)) p.run ∧
      (Piece.tag p.body).Valid rest ∧ Cut rest more last

/-- The segments of a template in passages, which starts on `line` with `pending` before it. -/
def segmentsOf (line : Nat) (pending : Text) : List Passage → List Chunk → List Segment
  | [], last => literals (pending ++ Chunk.contents last)
  | p :: more, last => literals (pending ++ Chunk.contents p.run) ++
      .tag (p.tagLine line) p.body :: segmentsOf (line + Text.newlines p.source) [] more last

theorem exists_cut_cons {chunk : Chunk} {rest : Text} {passages : List Passage}
    {last : List Chunk} (hchunk : chunk.Valid rest) (h : Cut rest passages last) (line : Nat)
    (pending : Text) :
    ∃ passages' last', Cut (chunk.source ++ rest) passages' last' ∧
      segmentsOf line pending passages' last' =
        segmentsOf (line + Text.newlines chunk.source) (pending ++ chunk.content) passages last := by
  cases passages with
  | nil =>
    obtain ⟨rfl, hlast⟩ := h
    refine ⟨[], chunk :: last, ⟨by simp [Chunk.sources], ?_, hlast⟩, ?_⟩
    · simpa using hchunk
    · simp [segmentsOf, Chunk.contents]
  | cons p more =>
    obtain ⟨back, rfl, hrun, htag, hmore⟩ := h
    refine ⟨⟨chunk :: p.run, p.body⟩ :: more, last, ⟨back, ?_, ⟨?_, hrun⟩, htag, hmore⟩, ?_⟩
    · simp [Passage.source, Chunk.sources]
    · simpa [Passage.source] using hchunk
    · simp [segmentsOf, Chunk.contents, Chunk.sources, Passage.tagLine, Passage.source,
        Text.newlines_append, Nat.add_assoc]

theorem exists_cut_behind {plain rest : Text} {found : Piece} {passages : List Passage}
    {last : List Chunk} (hplain : '\x7b' ∉ plain) (htag : found.isTag = false)
    (hvalid : found.Valid rest) (h : Cut rest passages last) (line : Nat) (pending : Text) :
    ∃ passages' last', Cut (plain ++ '\x7b' :: (found.source ++ rest)) passages' last' ∧
      segmentsOf line pending passages' last' =
        segmentsOf (line + Text.newlines plain + found.newlines) (pending ++ plain ++ found.content)
          passages last := by
  have hfound : (Chunk.piece found).Valid rest := ⟨htag, hvalid⟩
  obtain ⟨passages', last', hcuts', hsegments'⟩ :=
    exists_cut_cons hfound h (line + Text.newlines plain) (pending ++ plain)
  have hbefore : (Chunk.plain plain).Valid ((Chunk.piece found).source ++ rest) := hplain
  obtain ⟨passages'', last'', hcuts'', hsegments''⟩ := exists_cut_cons hbefore hcuts' line pending
  refine ⟨passages'', last'', ?_, ?_⟩
  · simpa [Chunk.source] using hcuts''
  · rw [hsegments'', Chunk.source, Chunk.content, hsegments', Chunk.source, Chunk.content,
      Text.newlines_cons (by decide), newlines_source]

theorem exists_cut_of_scanFrom {line : Nat} {pending : Pile} {t : Text}
    (h : (scanFrom line pending t).fault? = none) :
    ∃ passages last, Cut t passages last ∧
      (scanFrom line pending t).segments = segmentsOf line pending.text passages last := by
  induction hn : t.length using Nat.strongRecOn generalizing t line pending with
  | ind n ih =>
  subst hn
  cases hcut : Text.cut? openTag t with
  | none =>
    have hplain := notMem_of_not_infix (Text.not_infix_of_cut?_eq_none (by decide) hcut)
    refine ⟨[], [.plain t], ⟨by simp [Chunk.sources, Chunk.source], ⟨hplain, trivial⟩⟩, ?_⟩
    rw [scanFrom_none hcut]
    simp [segmentsOf, Chunk.contents, Chunk.content]
  | some cut =>
    obtain ⟨plain, behind⟩ := cut
    have ht : t = plain ++ '\x7b' :: behind := by
      rw [← Text.cut?_append hcut]
      simp [openTag]
    have hplain := notMem_of_not_infix (Text.not_infix_of_cut? (by decide) hcut)
    cases hpiece : piece (line + Text.newlines plain) behind with
    | error fault =>
      rw [scanFrom_fault hcut hpiece] at h
      cases h
    | ok found =>
      obtain ⟨found, rest⟩ := found
      have hsource := piece_source hpiece
      have hvalid := valid_of_piece hpiece
      have hlength : rest.length < t.length :=
        (length_le_of_piece hpiece).trans_lt (length_lt_of_cut hcut)
      -- A piece that is no tag goes to the first text of what follows.
      have hpassed {pending' : Pile} (htag : found.isTag = false)
          (htext : pending'.text = pending.text ++ plain ++ found.content)
          (hrest : (scanFrom (line + Text.newlines plain + found.newlines) pending' rest).fault? =
            none) :
          ∃ passages last, Cut t passages last ∧
            (scanFrom (line + Text.newlines plain + found.newlines) pending' rest).segments =
              segmentsOf line pending.text passages last := by
        obtain ⟨passages, last, hcuts, hsegments⟩ := ih _ hlength hrest rfl
        obtain ⟨passages', last', hcuts', hsegments'⟩ :=
          exists_cut_behind hplain htag hvalid hcuts line pending.text
        refine ⟨passages', last', ?_, ?_⟩
        · rw [ht, hsource]
          exact hcuts'
        · rw [hsegments, hsegments', htext]
      rw [scanFrom_piece hcut hpiece] at h ⊢
      cases found with
      | brace => exact hpassed rfl (by simp [Piece.content]) h
      | comment inside => exact hpassed rfl (by simp [Piece.content]) h
      | raw body inside => exact hpassed rfl (by simp [Piece.content]) h
      | tag body =>
        obtain ⟨passages, last, hcuts, hsegments⟩ := ih _ hlength h rfl
        refine ⟨⟨[.plain plain], body⟩ :: passages, last,
          ⟨rest, ?_, ⟨hplain, trivial⟩, hvalid, hcuts⟩, ?_⟩
        · rw [ht, hsource]
          simp [Passage.source, Chunk.sources, Chunk.source, Piece.source]
        · simp only [scanBehind, Scan.after, hsegments, segmentsOf, Passage.newlines_source]
          simp [Passage.tagLine, Chunk.sources, Chunk.contents, Chunk.source, Chunk.content]

/-! ## Statements of passages -/

/-- A passage and the statement that its tag compiles to. -/
structure Translation extends Passage where
  statement : Statement

/--
Tag by tag, the statements are what compiling gives where `frames` are open before the first tag,
and `frames'` behind the last one.
-/
inductive Translated (d : Dialect) (options : Options) :
    Nat → List Frame → List Translation → List Frame → Prop
  | nil {line : Nat} {frames : List Frame} : Translated d options line frames [] frames
  | cons {line : Nat} {frames frames' frames'' : List Frame} {t : Translation}
      {more : List Translation} {c : Cursor}
      (htag : compileBody d options (t.tagLine line) frames (bodyCursor (t.tagLine line) t.body) =
        .ok (t.statement, frames') c)
      (hmore : Translated d options (line + Text.newlines t.source) frames' more frames'') :
      Translated d options line frames (t :: more) frames''

namespace Template.Output

def addRun (o : Output) (run : List Chunk) : Output :=
  if (Chunk.contents run).isEmpty then o else o.addText (Chunk.contents run)

def addTranslation (o : Output) (line : Nat) (t : Translation) : Output :=
  (o.addRun t.run).addStatement (t.tagLine line) t.statement

def addAll (o : Output) (line : Nat) : List Translation → Output
  | [] => o
  | t :: more => (o.addTranslation line t).addAll (line + Text.newlines t.source) more

end Template.Output

section

variable {d : Dialect} {options : Options} {name : Text}

theorem foldlM_literals_run (p : Progress) (run : List Chunk) :
    (literals (Chunk.contents run)).foldlM (compileSegment d options name) p =
      .ok { p with output := p.output.addRun run } := by
  unfold literals Output.addRun
  split <;> rfl

theorem exists_translations {line : Nat} {passages : List Passage} {last : List Chunk}
    {p p' : Progress} (h : (segmentsOf line [] passages last).foldlM
      (compileSegment d options name) p = .ok p') :
    ∃ translations : List Translation, translations.map Translation.toPassage = passages ∧
      Translated d options line p.frames translations p'.frames ∧
      p'.output = (p.output.addAll line translations).addRun last := by
  induction passages generalizing line p with
  | nil =>
    rw [segmentsOf, List.nil_append, foldlM_literals_run] at h
    cases h
    exact ⟨[], rfl, .nil, rfl⟩
  | cons passage more ih =>
    rw [segmentsOf, List.nil_append, List.foldlM_append, foldlM_literals_run] at h
    have hrun : (Segment.tag (passage.tagLine line) passage.body ::
        segmentsOf (line + Text.newlines passage.source) [] more last).foldlM
          (compileSegment d options name) { p with output := p.output.addRun passage.run } =
        .ok p' := h
    rw [List.foldlM_cons, compileSegment] at hrun
    split at hrun
    · rename_i statement frames c hbody
      obtain ⟨translations, rfl, htranslated, houtput⟩ := ih hrun
      exact ⟨⟨passage, statement⟩ :: translations, rfl, .cons hbody htranslated, houtput⟩
    · cases hrun

def scriptOf (translations : List Translation) (last : List Chunk) : Text :=
  ((Output.addAll {} 1 translations).addRun last).script

theorem Translated.foldlM_eq {line : Nat} {frames frames' : List Frame}
    {translations : List Translation} (h : Translated d options line frames translations frames')
    (name : Text) (last : List Chunk) (output : Output) :
    (segmentsOf line [] (translations.map Translation.toPassage) last).foldlM
        (compileSegment d options name) ⟨frames, output⟩ =
      .ok ⟨frames', (output.addAll line translations).addRun last⟩ := by
  induction h generalizing output with
  | nil => exact foldlM_literals_run _ last
  | @cons line frames _ _ t more _ htag _ ih =>
    rw [List.map_cons, segmentsOf, List.nil_append, List.foldlM_append, foldlM_literals_run]
    show (Segment.tag (t.tagLine line) t.body :: segmentsOf (line + Text.newlines t.source) []
      (more.map Translation.toPassage) last).foldlM (compileSegment d options name)
        ⟨frames, output.addRun t.run⟩ = _
    rw [List.foldlM_cons, compileSegment, htag]
    exact ih _

/-- A template that compiles is cut into passages, whose texts and statements make the script. -/
theorem exists_cut_of_compile {source code : Text}
    (h : compile d options name source = .ok code) :
    ∃ (translations : List Translation) (last : List Chunk),
      Cut source (translations.map Translation.toPassage) last ∧
      (scan source).segments = segmentsOf 1 [] (translations.map Translation.toPassage) last ∧
      Translated d options 1 [] translations [] ∧ code = scriptOf translations last := by
  obtain ⟨hfault, p, hfold, hframes, rfl⟩ := compile_eq_ok_iff.mp h
  obtain ⟨passages, last, hcut, hsegments⟩ := exists_cut_of_scanFrom hfault
  rw [scan, hsegments] at hfold
  obtain ⟨translations, rfl, htranslated, houtput⟩ := exists_translations hfold
  exact ⟨translations, last, hcut, hsegments, hframes ▸ htranslated, by rw [houtput]; rfl⟩

theorem Translated.compile_eq {source : Text} {translations : List Translation} {last : List Chunk}
    (h : Translated d options 1 [] translations []) (hfault : (scan source).fault? = none)
    (hsegments : (scan source).segments =
      segmentsOf 1 [] (translations.map Translation.toPassage) last) (name : Text) :
    compile d options name source = .ok (scriptOf translations last) := by
  have hfold := h.foldlM_eq name last {}
  rw [← hsegments] at hfold
  exact compile_eq_ok_iff.mpr ⟨hfault, _, hfold, rfl, rfl⟩

end

end Stencil
