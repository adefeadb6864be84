import Mathlib.Data.List.Flatten
import Stencil.Proofs.Spliced

/-!
# Lines that a cursor reports

A cursor can be moved, lose tokens and get more text. At the end of its tokens it reports the line
of the last token there was when tokens were last cut. As long as no token is lost, the line of a
token counts the line feeds before it, except that text put behind the last token is numbered from
the line on which that token starts, and lags behind by the line feeds in it. Lines are words, so
all this holds as far as 32 bits go.
-/

namespace Stencil

namespace Cursor

/-! ## What can be done with a cursor -/

inductive Go where
  | advance
  | back
  | toEnd
  | collect (stops : List Want)

def Go.on (c : Cursor) : Go → Cursor
  | .advance => c.advance
  | .back => c.back
  | .toEnd => c.toEnd
  | .collect stops => (c.collect stops).2

theorem Go.move (c : Cursor) : ∀ go : Go, Move c (go.on c)
  | .advance => .advance c
  | .back => .back c
  | .toEnd => .toEnd c
  | .collect stops => .collect c stops

inductive Act where
  | move (go : Go)
  | filter (keep : Token → Bool)
  | splice (offset : Nat) (text : Text)

def Act.isFilter : Act → Bool
  | .filter _ => true
  | .move _ | .splice .. => false

/-- The text that is put behind the tokens. -/
def Act.text : Act → Text
  | .splice _ text => text
  | .move _ | .filter _ => []

/-! ## Tokens after a splice -/

section Splices

variable {overflow : Overflow} {c d : Cursor} {offset : Nat} {text : Text}

theorem solid_of_mem_splice? (h : ∀ t ∈ c.tokens, t.Solid)
    (hsplice : c.splice? overflow offset text = some d) : ∀ t ∈ d.tokens, t.Solid := by
  obtain ⟨cut, hcut, rfl⟩ := exists_of_splice? hsplice
  intro t ht
  rw [tokens_recut, List.mem_append] at ht
  rcases ht with ht | ht
  · obtain ⟨u, hu, blanks, rfl⟩ := exists_of_mem_addSpace ht
    exact h u (List.mem_of_mem_take hu)
  · exact Token.solid_of_mem_tokenize? hcut t ht

theorem tokens_eq_nil_of_splice? (h : ∀ t ∈ c.tokens, t.Solid)
    (hsplice : c.splice? overflow offset text = some d) (hnil : d.tokens = []) :
    c.tokens = [] := by
  cases htokens : c.tokens with
  | nil => rfl
  | cons t more =>
    have hfilled : c.length ≠ 0 := by
      rw [← length_tokens, htokens]
      simp
    obtain ⟨x, rest, hjoin, -⟩ := (h t (by simp [htokens])).join_cons more
    have htext := textFrom_splice? h hsplice
    rw [if_neg hfilled, textFrom, textFrom, hnil, htokens] at htext
    simp only [List.drop_zero] at htext
    rw [hjoin] at htext
    cases htext

theorem exists_kept_splice? (hsplice : c.splice? overflow offset text = some d) {i : Nat}
    (hi : i < min offset c.length) :
    ∃ t blanks, c.tokens[i]? = some t ∧
      d.tokens[i]? = some { t with space := t.space ++ blanks } ∧
      (i + 1 < min offset c.length → blanks = []) := by
  obtain ⟨cut, -, rfl⟩ := exists_of_splice? hsplice
  have hlength : i < c.tokens.length := by
    rw [length_tokens]
    omega
  have hget := List.getElem?_eq_getElem hlength
  obtain ⟨blanks, htoken, hblanks⟩ := c.getElem?_recut offset _ cut hi hget
  refine ⟨_, blanks, hget, htoken, fun hlast => ?_⟩
  exact hblanks.resolve_right fun hspace => by omega

theorem take_splice? (hsplice : c.splice? overflow offset text = some d) {i : Nat}
    (hi : i < min offset c.length) : d.tokens.take i = c.tokens.take i := by
  refine List.ext_getElem? fun j => ?_
  by_cases hj : j < i
  · obtain ⟨t, blanks, hget, hsame, hnone⟩ := exists_kept_splice? hsplice (hj.trans hi)
    rw [List.getElem?_take_of_lt hj, List.getElem?_take_of_lt hj, hsame, hget,
      hnone (by omega), List.append_nil]
  · simp [hj]

theorem textFrom_splice?_of_lt (h : ∀ t ∈ c.tokens, t.Solid)
    (hsplice : c.splice? overflow offset text = some d) {i : Nat} (hi : i < min offset c.length) :
    d.textFrom i none = c.textFrom i none ++ text := by
  have hjoin := textFrom_splice? h hsplice
  rw [if_neg (by omega), ← join_tokens _ i, ← join_tokens c i, take_splice? hsplice hi,
    List.append_assoc] at hjoin
  exact List.append_cancel_left hjoin

theorem exists_front_splice? (hsplice : c.splice? overflow offset text = some d) {i : Nat}
    {t : Token} (hi : min offset c.length ≤ i) (ht : d.tokens[i]? = some t) :
    ∃ inner, c.textFrom offset none ++ text = inner ++ d.textFrom i none ∧
      t.line = (c.lineAt offset + Text.newlines inner) % 2 ^ 32 := by
  obtain ⟨cut, hcut, rfl⟩ := exists_of_splice? hsplice
  have hdropped := c.drop_recut offset ((c.textFrom offset none ++ text).takeWhile isBlank) cut
  generalize (c.textFrom offset none ++ text).takeWhile isBlank = blanks at ht hdropped ⊢
  obtain ⟨k, rfl⟩ := Nat.exists_eq_add_of_le hi
  have hback : (c.recut offset blanks cut).textFrom (min offset c.length + k) none =
      Token.join (cut.drop k) := by
    rw [textFrom, ← List.drop_drop, hdropped]
  rw [← List.getElem?_drop, hdropped] at ht
  obtain ⟨hlt, hget⟩ := List.getElem?_eq_some_iff.mp ht
  have hdrop := List.drop_eq_getElem_cons hlt
  rw [hget] at hdrop
  rw [← List.take_append_drop k cut, hdrop] at hcut
  obtain ⟨inner, x, rest, -, hjoin, htext, htoken⟩ := front_of_tokenize? hcut
  refine ⟨inner, ?_, ?_⟩
  · rw [hback, hdrop, hjoin, htext]
  · rw [htoken]
    show ((BitVec.ofNat 32 (c.lineAt offset)).toNat + _) % 2 ^ 32 = _
    rw [BitVec.toNat_ofNat, Nat.mod_add_mod]

/-! ## Lines that fit -/

variable {lines : Nat}

theorem Within.go (h : c.Within lines) (go : Go) : (go.on c).Within lines := by
  intro offset
  rw [lineAt, textFrom, (go.move c).tokens_eq, (go.move c).endLine_eq]
  exact h offset

theorem Within.filter (h : c.Within lines) (keep : Token → Bool) :
    (c.filter keep).Within lines := by
  intro offset
  have htokens : (c.filter keep).tokens = c.tokens.filter keep := tokens_place _ _ _
  cases ht : (c.filter keep).tokens[offset]? with
  | none =>
    -- At the end the line is the one that was reported there before.
    have hnone : c.tokens[c.tokens.length]? = none := List.getElem?_eq_none (Nat.le_refl _)
    have hend := h c.tokens.length
    rw [lineAt, hnone, textFrom_eq_nil hnone] at hend
    rw [lineAt, ht, textFrom_eq_nil ht]
    exact hend
  | some t =>
    obtain ⟨hlt, hget⟩ := List.getElem?_eq_some_iff.mp ht
    have hdrop := List.drop_eq_getElem_cons hlt
    rw [hget] at hdrop
    have hsplit := htokens.symm.trans (List.take_append_drop offset (c.filter keep).tokens).symm
    rw [hdrop] at hsplit
    obtain ⟨before, back, hback, -, hkept⟩ := List.filter_eq_append_iff.mp hsplit
    obtain ⟨dropped, after, rfl, -, -, hafter⟩ := List.filter_eq_cons_iff.mp hkept
    -- The text from the token on only loses what is dropped.
    have hold := h (before ++ dropped).length
    rw [← List.append_assoc] at hback
    rw [lineAt, textFrom, hback, List.getElem?_append_right (Nat.le_refl _), Nat.sub_self,
      List.drop_left] at hold
    have hless : Text.newlines (Token.join (t :: (c.filter keep).tokens.drop (offset + 1))) ≤
        Text.newlines (Token.join (t :: after)) := by
      rw [← hafter]
      exact ((List.filter_sublist.cons_cons t).flatMap _).count_le _
    rw [lineAt, ht, textFrom, hdrop]
    exact (Nat.add_le_add_left hless _).trans hold

theorem Within.splice? (h : c.Within lines) (hsolid : ∀ t ∈ c.tokens, t.Solid)
    (hsplice : c.splice? overflow offset text = some d) :
    d.Within (lines + text.newlines) := by
  have htoken {i : Nat} {t : Token} (ht : d.tokens[i]? = some t) :
      t.line + Text.newlines (d.textFrom i none) ≤ lines + text.newlines := by
    by_cases hi : i < min offset c.length
    · obtain ⟨u, blanks, hu, hsame, -⟩ := exists_kept_splice? hsplice hi
      cases ht.symm.trans hsame
      have hold := h i
      rw [lineAt, hu, Option.map_some, Option.getD_some] at hold
      rw [textFrom_splice?_of_lt hsolid hsplice hi, Text.newlines_append]
      show u.line + _ ≤ _
      omega
    · obtain ⟨inner, htext, hline⟩ := exists_front_splice? hsplice (Nat.le_of_not_lt hi) ht
      have hfeeds := congrArg Text.newlines htext
      rw [Text.newlines_append, Text.newlines_append] at hfeeds
      have hplace := h offset
      have hle := Nat.mod_le (c.lineAt offset + inner.newlines) (2 ^ 32)
      omega
  intro i
  cases ht : d.tokens[i]? with
  | some t =>
    rw [lineAt, ht]
    exact htoken ht
  | none =>
    have hend : d.endLine = lastLine d.tokens (c.lineAt offset) := by
      obtain ⟨cut, -, rfl⟩ := exists_of_splice? hsplice
      exact c.endLine_recut offset _ cut
    have hnone : Text.newlines [] = 0 := rfl
    rw [textFrom_eq_nil ht, lineAt, ht, Option.map_none, Option.getD_none, hend, hnone, lastLine]
    cases hlast : d.tokens.getLast? with
    | none =>
      have hplace := h offset
      rw [Option.map_none, Option.getD_none]
      omega
    | some last =>
      rw [List.getLast?_eq_getElem?] at hlast
      have hsum := htoken hlast
      rw [Option.map_some, Option.getD_some]
      omega

end Splices

end Cursor

/-- A cursor, and what has to be known about its past. -/
structure Course where
  cursor : Cursor
  /-- The text that the tokens were cut from, with all that was put behind it. -/
  whole : Text
  /-- The last token there was when tokens were last cut. -/
  latest : Option Token
  /-- By how many lines each token is behind. -/
  lag : Nat → Nat

namespace Course

open Cursor

/-- The tokens of a text have just been cut. -/
def start (source : Text) (c : Cursor) : Course where
  cursor := c
  whole := source
  latest := c.tokens.getLast?
  lag := fun _ => 0

def start? (overflow : Overflow) (source : Text) (line : BitVec 32) : Option Course :=
  (ofText? overflow source line).map (start source)

/-- The source of the last token, or the whole text if there is none. -/
def tail (w : Course) : Text := (w.cursor.tokens.getLast?.map Token.source).getD w.whole

/-- By how many lines the line that is reported at token number `offset` is behind. -/
def lagAt (w : Course) (offset : Nat) : Nat :=
  if offset < w.cursor.length then w.lag offset
  else (if w.cursor.length = 0 then 0 else w.lag (w.cursor.length - 1)) + Text.newlines w.tail

/-- Tokens that are cut again are as far behind as the place they are cut from. -/
def spliced (w : Course) (offset : Nat) (text : Text) (d : Cursor) : Course where
  cursor := d
  whole := w.whole ++ text
  latest := d.tokens.getLast?.or w.latest
  lag := fun i => if i < min offset w.cursor.length then w.lag i else w.lagAt offset

def after? (overflow : Overflow) (w : Course) : Act → Option Course
  | .move go => some { w with cursor := go.on w.cursor }
  | .filter keep => some { w with cursor := w.cursor.filter keep }
  | .splice offset text => (w.cursor.splice? overflow offset text).map (w.spliced offset text)

def run? (overflow : Overflow) (w : Course) (acts : List Act) : Option Course :=
  acts.foldlM (after? overflow) w

/-- What comes of a text after some acts. -/
def course? (overflow : Overflow) (source : Text) (line : BitVec 32) (acts : List Act) :
    Option Course := do
  (← start? overflow source line).run? overflow acts

variable {overflow : Overflow} {source : Text} {line : BitVec 32} {w w' : Course}

theorem run?_induction {P : Course → Prop} {acts : List Act}
    (hstep : ∀ act ∈ acts, ∀ w w', P w → w.after? overflow act = some w' → P w') (h : P w)
    (hrun : w.run? overflow acts = some w') : P w' := by
  induction acts generalizing w with
  | nil =>
    cases hrun
    exact h
  | cons act more ih =>
    rw [run?, List.foldlM_cons] at hrun
    obtain ⟨next, hnext, hrun⟩ := Option.bind_eq_some_iff.mp hrun
    exact ih (fun a ha => hstep a (List.mem_cons_of_mem _ ha))
      (hstep act (by simp) w next h hnext) hrun

/-! ## The line at the end -/

/-- What holds whatever is done with a cursor. -/
structure Kept (line : Nat) (w : Course) : Prop where
  solid : ∀ t ∈ w.cursor.tokens, t.Solid
  endLine : w.cursor.endLine = (w.latest.map Token.line).getD line

theorem tokens_of_start? (h : start? overflow source line = some w) :
    tokenize? overflow line source = some w.cursor.tokens ∧
      w = start source (ofTokens w.cursor.tokens line.toNat) := by
  obtain ⟨c, hc, rfl⟩ := Option.map_eq_some_iff.mp h
  obtain ⟨tokens, htokens, rfl⟩ := Option.map_eq_some_iff.mp hc
  have hsame : (start source (ofTokens tokens line.toNat)).cursor.tokens = tokens :=
    tokens_place _ _ _
  rw [hsame]
  exact ⟨htokens, rfl⟩

theorem kept_start? (h : start? overflow source line = some w) : Kept line.toNat w := by
  obtain ⟨htokens, hw⟩ := tokens_of_start? h
  refine ⟨Token.solid_of_mem_tokenize? htokens, ?_⟩
  rw [hw, start, ofTokens, tokens_place]
  rfl

theorem Kept.after? {n : Nat} (h : Kept n w) {act : Act}
    (hact : w.after? overflow act = some w') : Kept n w' := by
  cases act with
  | move go =>
    cases hact
    refine ⟨?_, (go.move _).endLine_eq.trans h.endLine⟩
    intro t ht
    rw [(go.move _).tokens_eq] at ht
    exact h.solid t ht
  | filter keep =>
    cases hact
    refine ⟨?_, h.endLine⟩
    intro t ht
    rw [Cursor.filter, tokens_place] at ht
    exact h.solid t (List.mem_filter.mp ht).1
  | splice offset text =>
    obtain ⟨d, hd, rfl⟩ := Option.map_eq_some_iff.mp hact
    refine ⟨solid_of_mem_splice? h.solid hd, ?_⟩
    have hend : d.endLine = lastLine d.tokens (w.cursor.lineAt offset) := by
      obtain ⟨cut, -, rfl⟩ := exists_of_splice? hd
      exact w.cursor.endLine_recut offset _ cut
    show d.endLine = _
    rw [hend, lastLine, spliced]
    cases hlast : d.tokens.getLast? with
    | some last => rfl
    | none =>
      -- Nothing was there before, so the line of the place is the line at the end.
      have hnil := tokens_eq_nil_of_splice? h.solid hd (List.getLast?_eq_none_iff.mp hlast)
      simp [lineAt, hnil, h.endLine]

/-! ## Runs that come to an end -/

/-- All the text that acts put behind the tokens. -/
def added (acts : List Act) : Text := acts.flatMap Act.text

theorem whole_of_after? {act : Act} (h : w.after? overflow act = some w') :
    w'.whole = w.whole ++ act.text := by
  cases act with
  | move go =>
    cases h
    exact (List.append_nil _).symm
  | filter keep =>
    cases h
    exact (List.append_nil _).symm
  | splice offset text =>
    obtain ⟨d, -, rfl⟩ := Option.map_eq_some_iff.mp h
    rfl

theorem whole_of_run? {acts : List Act} (h : w.run? overflow acts = some w') :
    w'.whole = w.whole ++ added acts := by
  induction acts generalizing w with
  | nil =>
    cases h
    exact (List.append_nil _).symm
  | cons act more ih =>
    rw [run?, List.foldlM_cons] at h
    obtain ⟨next, hnext, h⟩ := Option.bind_eq_some_iff.mp h
    rw [ih h, whole_of_after? hnext, List.append_assoc]
    rfl

/-- The lines of a course, and those of all that comes behind it, fit. -/
structure Roomy (line : BitVec 32) (w : Course) : Prop extends Kept line.toNat w where
  within : w.cursor.Within (line.toNat + w.whole.newlines)

theorem roomy_start? (h : start? overflow source line = some w)
    (hfits : line.toNat + source.newlines < 2 ^ 32) : Roomy line w := by
  refine ⟨kept_start? h, ?_⟩
  obtain ⟨htokens, hw⟩ := tokens_of_start? h
  have hend : w.cursor.endLine = lastLine w.cursor.tokens line.toNat := by
    rw [hw, start, ofTokens, tokens_place]
    rfl
  have hwhole : w.whole = source := by rw [hw]; rfl
  rw [hwhole]
  exact within_of_source htokens hend hfits

theorem Roomy.after? (h : Roomy line w) {act : Act} (hact : w.after? overflow act = some w') :
    Roomy line w' := by
  refine ⟨h.toKept.after? hact, ?_⟩
  cases act with
  | move go =>
    cases hact
    exact h.within.go go
  | filter keep =>
    cases hact
    exact h.within.filter keep
  | splice offset text =>
    obtain ⟨d, hd, rfl⟩ := Option.map_eq_some_iff.mp hact
    show d.Within (line.toNat + (w.whole ++ text).newlines)
    rw [Text.newlines_append, ← Nat.add_assoc]
    exact h.within.splice? h.solid hd

theorem exists_after? {act : Act} (h : overflow = .wraps ∨
    Roomy line w ∧ line.toNat + (w.whole ++ act.text).newlines < 2 ^ 32) :
    ∃ w', w.after? overflow act = some w' := by
  cases act with
  | move go => exact ⟨_, rfl⟩
  | filter keep => exact ⟨_, rfl⟩
  | splice offset text =>
    have hsplice : ∃ d, w.cursor.splice? overflow offset text = some d := by
      refine exists_splice? (h.imp_right fun hroom => ?_)
      obtain ⟨hroomy, hfits⟩ := hroom
      have hplace := hroomy.within offset
      rw [Text.newlines_append] at hfits ⊢
      show _ + (_ + text.newlines) < _
      have htext : (Act.splice offset text).text.newlines = text.newlines := rfl
      omega
    obtain ⟨d, hd⟩ := hsplice
    exact ⟨_, congrArg (Option.map _) hd⟩

theorem exists_run? {acts : List Act} (h : overflow = .wraps ∨
    Roomy line w ∧ line.toNat + (w.whole ++ added acts).newlines < 2 ^ 32) :
    ∃ w', w.run? overflow acts = some w' := by
  induction acts generalizing w with
  | nil => exact ⟨w, rfl⟩
  | cons act more ih =>
    have hadded : added (act :: more) = act.text ++ added more := rfl
    obtain ⟨next, hnext⟩ : ∃ next, w.after? overflow act = some next := by
      refine exists_after? (h.imp_right fun hroom => ⟨hroom.1, ?_⟩)
      have hfits := hroom.2
      rw [hadded, ← List.append_assoc, Text.newlines_append] at hfits
      omega
    have hroom : overflow = .wraps ∨
        Roomy line next ∧ line.toNat + (next.whole ++ added more).newlines < 2 ^ 32 := by
      refine h.imp_right fun hroom => ?_
      obtain ⟨hroomy, hfits⟩ := hroom
      refine ⟨hroomy.after? hnext, ?_⟩
      rw [whole_of_after? hnext, List.append_assoc]
      exact hfits
    obtain ⟨w', hrun⟩ := ih hroom
    refine ⟨w', ?_⟩
    rw [run?, List.foldlM_cons, hnext]
    exact hrun

theorem exists_course? {acts : List Act}
    (h : overflow.Admits line (source ++ added acts).newlines) :
    ∃ w, course? overflow source line acts = some w := by
  have hsource : overflow.Admits line source.newlines := by
    refine h.imp_right fun hfits => ?_
    rw [Text.newlines_append] at hfits
    omega
  obtain ⟨tokens, htokens⟩ := exists_tokenize? hsource
  have hstart : start? overflow source line = some (start source (ofTokens tokens line.toNat)) := by
    rw [start?, ofText?, htokens]
    rfl
  have hroom : overflow = .wraps ∨ Roomy line (start source (ofTokens tokens line.toNat)) ∧
      line.toNat + (source ++ added acts).newlines < 2 ^ 32 := by
    refine h.imp_right fun hfits => ⟨roomy_start? hstart ?_, hfits⟩
    rw [Text.newlines_append] at hfits
    omega
  obtain ⟨w, hrun⟩ := exists_run? hroom
  exact ⟨w, by rw [course?, hstart]; exact hrun⟩

/-! ## The lines of tokens -/

/-- What holds as long as no token is dropped. -/
structure Numbered (line : BitVec 32) (w : Course) : Prop extends Kept line.toNat w where
  latest : w.latest = w.cursor.tokens.getLast?
  lines : ∀ i t, w.cursor.tokens[i]? = some t →
    ∃ front, w.whole = front ++ w.cursor.textFrom i none ∧
      (t.line + w.lag i) % 2 ^ 32 = (line.toNat + Text.newlines front) % 2 ^ 32 ∧
      (line.toNat + w.whole.newlines < 2 ^ 32 → t.line + w.lag i = line.toNat + front.newlines)

theorem numbered_start? (h : start? overflow source line = some w) : Numbered line w := by
  obtain ⟨htokens, hw⟩ := tokens_of_start? h
  have hstart : w.latest = w.cursor.tokens.getLast? ∧ w.whole = source ∧ w.lag = fun _ => 0 := by
    rw [hw]
    exact ⟨rfl, rfl, rfl⟩
  refine ⟨kept_start? h, hstart.1, ?_⟩
  intro i t ht
  obtain ⟨front, x, rest, htext, -, hsource, hline⟩ := exists_front htokens ht
  rw [hstart.2.1, hstart.2.2, Nat.add_zero]
  refine ⟨front, by rw [htext]; exact hsource, by rw [hline, Nat.mod_mod], fun hfits => ?_⟩
  rw [hsource, Text.newlines_append] at hfits
  rw [hline, Nat.mod_eq_of_lt (by omega)]

theorem Numbered.front_of_place (h : Numbered line w) (offset : Nat) :
    ∃ front, w.whole = front ++ w.cursor.textFrom offset none ∧
      (w.cursor.lineAt offset + w.lagAt offset) % 2 ^ 32 =
        (line.toNat + Text.newlines front) % 2 ^ 32 ∧
      (line.toNat + w.whole.newlines < 2 ^ 32 →
        w.cursor.lineAt offset + w.lagAt offset = line.toNat + front.newlines) := by
  cases ht : w.cursor.tokens[offset]? with
  | some t =>
    have hlt : offset < w.cursor.length := by
      rw [← length_tokens]
      exact (List.getElem?_eq_some_iff.mp ht).1
    rw [lagAt, if_pos hlt, lineAt, ht]
    exact h.lines offset t ht
  | none =>
    have hend : ¬ offset < w.cursor.length := by
      rw [List.getElem?_eq_none_iff, length_tokens] at ht
      omega
    refine ⟨w.whole, by rw [textFrom_eq_nil ht, List.append_nil], ?_⟩
    rw [lagAt, if_neg hend, lineAt, ht, Option.map_none, Option.getD_none, h.endLine, h.latest,
      tail]
    cases hlast : w.cursor.tokens.getLast? with
    | none =>
      have hempty : w.cursor.length = 0 := by
        rw [← length_tokens, List.getLast?_eq_none_iff.mp hlast, List.length_nil]
      simp [hempty]
    | some last =>
      -- The last token starts on its own line, so the line feeds in it are missed.
      obtain ⟨before, hsplit⟩ := List.getLast?_eq_some_iff.mp hlast
      have hlength : w.cursor.length = before.length + 1 := by
        rw [← length_tokens, hsplit]
        simp
      obtain ⟨front, hwhole, hline, hexact⟩ := h.lines before.length last (by simp [hsplit])
      have hsource : w.cursor.textFrom before.length none = last.source := by
        simp [textFrom, hsplit, Token.join]
      rw [hwhole, hsource, Text.newlines_append] at hexact ⊢
      rw [if_neg (by omega), hlength, Nat.add_sub_cancel, Option.map_some, Option.getD_some,
        Option.map_some, Option.getD_some]
      exact ⟨by omega, fun hfits => by have := hexact hfits; omega⟩

theorem Numbered.lines_splice? (h : Numbered line w) {offset i : Nat} {text : Text} {d : Cursor}
    {t : Token} (hsplice : w.cursor.splice? overflow offset text = some d)
    (ht : d.tokens[i]? = some t) :
    ∃ front, w.whole ++ text = front ++ d.textFrom i none ∧
      (t.line + (w.spliced offset text d).lag i) % 2 ^ 32 =
        (line.toNat + Text.newlines front) % 2 ^ 32 ∧
      (line.toNat + (w.whole ++ text).newlines < 2 ^ 32 →
        t.line + (w.spliced offset text d).lag i = line.toNat + front.newlines) := by
  rw [spliced, Text.newlines_append]
  dsimp only
  by_cases hold : i < min offset w.cursor.length
  · -- The token was there before, perhaps with less white space behind it.
    obtain ⟨u, blanks, hget, hsame, -⟩ := exists_kept_splice? hsplice hold
    obtain ⟨front, hwhole, hline, hexact⟩ := h.lines i u hget
    cases ht.symm.trans hsame
    rw [if_pos hold, textFrom_splice?_of_lt h.solid hsplice hold]
    exact ⟨front, by rw [hwhole, List.append_assoc], hline, fun hfits => hexact (by omega)⟩
  · -- The token is cut from the text at the place.
    obtain ⟨inner, htext, htoken⟩ := exists_front_splice? hsplice (Nat.le_of_not_lt hold) ht
    obtain ⟨front, hwhole, hline, hexact⟩ := h.front_of_place offset
    refine ⟨front ++ inner, by rw [hwhole, List.append_assoc, htext, List.append_assoc], ?_⟩
    have hfeeds := congrArg Text.newlines htext
    have hbefore := congrArg Text.newlines hwhole
    rw [Text.newlines_append, Text.newlines_append] at hfeeds
    rw [Text.newlines_append] at hbefore
    rw [if_neg hold, Text.newlines_append, htoken]
    refine ⟨by omega, fun hfits => ?_⟩
    have hplace := hexact (by omega)
    rw [Nat.mod_eq_of_lt (by omega)]
    omega

theorem Numbered.after? (h : Numbered line w) {act : Act} (hkeep : act.isFilter = false)
    (hact : w.after? overflow act = some w') : Numbered line w' := by
  refine ⟨h.toKept.after? hact, ?_, ?_⟩
  · cases act with
    | move go =>
      cases hact
      exact h.latest.trans (congrArg _ (go.move _).tokens_eq.symm)
    | filter keep => cases hkeep
    | splice offset text =>
      obtain ⟨d, hd, rfl⟩ := Option.map_eq_some_iff.mp hact
      show d.tokens.getLast?.or w.latest = d.tokens.getLast?
      cases hlast : d.tokens.getLast? with
      | some last => rfl
      | none =>
        have hnil := tokens_eq_nil_of_splice? h.solid hd (List.getLast?_eq_none_iff.mp hlast)
        rw [h.latest, hnil]
        rfl
  · cases act with
    | move go =>
      cases hact
      intro i t ht
      have htokens := (go.move w.cursor).tokens_eq
      rw [textFrom, htokens]
      exact h.lines i t (by rw [← htokens]; exact ht)
    | filter keep => cases hkeep
    | splice offset text =>
      obtain ⟨d, hd, rfl⟩ := Option.map_eq_some_iff.mp hact
      exact fun i t ht => h.lines_splice? hd ht

/-! ## Tokens on their lines -/

/-- No tokens come behind a line feed that is in the last token or all there is. -/
def Steady (w : Course) : Act → Prop
  | .move _ => True
  | .filter _ => False
  | .splice offset text => offset < w.cursor.length ∨ text.trimStart = [] ∨ '\n' ∉ w.tail

def AllSteady (overflow : Overflow) (w : Course) : List Act → Prop
  | [] => True
  | act :: more => w.Steady act ∧ ∀ next ∈ w.after? overflow act, next.AllSteady overflow more

instance decidableSteady (w : Course) : ∀ act, Decidable (w.Steady act)
  | .move _ => .isTrue trivial
  | .filter _ => .isFalse id
  | .splice .. => inferInstanceAs (Decidable (_ ∨ _ ∨ _))

instance decidableAllSteady (overflow : Overflow) :
    ∀ (w : Course) acts, Decidable (w.AllSteady overflow acts)
  | _, [] => .isTrue trivial
  | w, act :: more =>
    have := fun next => decidableAllSteady overflow next more
    inferInstanceAs (Decidable (w.Steady act ∧ ∀ next ∈ w.after? overflow act, _))

theorem length_of_blank_splice? {c d : Cursor} {offset : Nat} (h : c.length ≤ offset) {text : Text}
    (hblank : text.trimStart = []) (hsplice : c.splice? overflow offset text = some d) :
    d.length = c.length := by
  have hnone : c.tokens[offset]? = none := by
    rw [List.getElem?_eq_none_iff, length_tokens]
    exact h
  obtain ⟨cut, hcut, rfl⟩ := exists_of_splice? hsplice
  rw [textFrom_eq_nil hnone, List.nil_append] at hcut
  have hcut : cut = [] := by
    rw [eq_wrapped_of_tokenize? hcut, tokenize]
    show (tokensOf _ text.trimStart).map _ = []
    rw [hblank, tokensOf, List.map_nil]
  rw [← length_tokens, tokens_recut, hcut, List.append_nil, length_kept]
  omega

theorem Steady.lag_eq_zero {act : Act} (h : w.Steady act) (hact : w.after? overflow act = some w')
    (hlag : ∀ i < w.cursor.length, w.lag i = 0) : ∀ i < w'.cursor.length, w'.lag i = 0 := by
  cases act with
  | move go =>
    cases hact
    intro i hi
    rw [← length_tokens, (go.move _).tokens_eq, length_tokens] at hi
    exact hlag i hi
  | filter keep => exact h.elim
  | splice offset text =>
    obtain ⟨d, hd, rfl⟩ := Option.map_eq_some_iff.mp hact
    intro i hi
    show (if i < min offset w.cursor.length then w.lag i else w.lagAt offset) = 0
    split
    · exact hlag i (by omega)
    · rename_i hnew
      unfold lagAt
      split
      · exact hlag offset ‹_›
      · rename_i hend
        rcases h.resolve_left hend with hblank | hfeed
        · have hlength := length_of_blank_splice? (Nat.le_of_not_lt hend) hblank hd
          rw [spliced, hlength] at hi
          omega
        · rw [Text.newlines, List.count_eq_zero.mpr hfeed, Nat.add_zero]
          split
          · rfl
          · exact hlag _ (by omega)

theorem AllSteady.lag_eq_zero {acts : List Act} (h : w.AllSteady overflow acts)
    (hrun : w.run? overflow acts = some w') (hlag : ∀ i < w.cursor.length, w.lag i = 0) :
    ∀ i < w'.cursor.length, w'.lag i = 0 := by
  induction acts generalizing w with
  | nil =>
    cases hrun
    exact hlag
  | cons act more ih =>
    rw [run?, List.foldlM_cons] at hrun
    obtain ⟨next, hnext, hrun⟩ := Option.bind_eq_some_iff.mp hrun
    exact ih (h.2 next hnext) hrun (h.1.lag_eq_zero hnext hlag)

/--
Whatever is done with the cursor of a text, at the end of the tokens it reports the line of the last
token there was when tokens were last cut, or the first line if there was none. While tokens are not
dropped this is the last token, and every token is behind its line by what `lag` says, which is
nothing as long as no text comes behind a line feed that no token follows. All of it can be done,
and the lines are the right ones, as long as they fit into 32 bits.
-/
theorem lines_reported (overflow : Overflow) (source : Text) (line : BitVec 32)
    (acts : List Act) :
    (overflow.Admits line (source ++ added acts).newlines →
      ∃ w, course? overflow source line acts = some w) ∧
    ∀ w, course? overflow source line acts = some w →
      w.whole = source ++ added acts ∧
      (w.cursor.atEnd = true → w.cursor.line = (w.latest.map Token.line).getD line.toNat) ∧
      ((∀ act ∈ acts, act.isFilter = false) →
        w.latest = w.cursor.tokens.getLast? ∧
        ∀ i t, w.cursor.tokens[i]? = some t →
          ∃ front, w.whole = front ++ w.cursor.textFrom i none ∧
            (t.line + w.lag i) % 2 ^ 32 = (line.toNat + Text.newlines front) % 2 ^ 32 ∧
            (line.toNat + w.whole.newlines < 2 ^ 32 →
              t.line + w.lag i = line.toNat + front.newlines)) ∧
      ((∀ w₀ ∈ start? overflow source line, w₀.AllSteady overflow acts) →
        ∀ i < w.cursor.length, w.lag i = 0) := by
  refine ⟨exists_course?, fun w hw => ?_⟩
  obtain ⟨w₀, hstart, hrun⟩ := Option.bind_eq_some_iff.mp hw
  have hw₀ : w₀.whole = source ∧ w₀.lag = fun _ => 0 := by
    rw [(tokens_of_start? hstart).2]
    exact ⟨rfl, rfl⟩
  refine ⟨?_, ?_, ?_, ?_⟩
  · rw [whole_of_run? hrun, hw₀.1]
  · intro hend
    have hcurrent : w.cursor.current? = none := by
      rw [current?, List.isEmpty_iff.mp hend, List.head?_nil]
    have hkept : Kept line.toNat w :=
      run?_induction (fun _ _ _ _ h hact => h.after? hact) (kept_start? hstart) hrun
    rw [Cursor.line, hcurrent]
    exact hkept.endLine
  · intro hacts
    have hnumbered : Numbered line w :=
      run?_induction (fun act ha _ _ h hact => h.after? (hacts act ha) hact)
        (numbered_start? hstart) hrun
    exact ⟨hnumbered.latest, hnumbered.lines⟩
  · intro hsteady
    exact (hsteady w₀ hstart).lag_eq_zero hrun fun i _ => by rw [hw₀.2]

/-- White space in front, a line feed between tokens and an open comment. -/
def wrapped : Text := "\n$a\n+ /*"

/-- Closes the comment on the next line, then goes back and puts more behind it. -/
def extended : List Act :=
  [.move .toEnd, .splice 1 "x\n*/ 1", .move (.collect []), .move .back, .splice 9 "\n* 2",
    .move .toEnd]

/-- The last line is the largest there is. -/
theorem lines_reported_extended :
    Overflow.stops.Admits 4294967291 (wrapped ++ added extended).newlines ∧
    (∀ act ∈ extended, act.isFilter = false) ∧
    (∀ w₀ ∈ start? .stops wrapped 4294967291, w₀.AllSteady .stops extended) ∧
    ∃ w, course? .stops wrapped 4294967291 extended = some w ∧
      w.whole = "\n$a\n+ /*x\n*/ 1\n* 2".toList ∧
      w.cursor.atEnd = true ∧ w.cursor.line = 4294967295 ∧
      ∃ t front, w.cursor.tokens[3]? = some t ∧ t.text = ['1'] ∧
        w.whole = front ++ "1\n* 2".toList ∧ t.line = 4294967291 + Text.newlines front := by
  have hfits : Overflow.stops.Admits 4294967291 (wrapped ++ added extended).newlines :=
    .inr (by decide +kernel)
  have hacts : ∀ act ∈ extended, act.isFilter = false := by decide
  have hsteady : ∀ w₀ ∈ start? .stops wrapped 4294967291, w₀.AllSteady .stops extended := by
    decide +kernel
  have hcourse : ∀ w ∈ course? .stops wrapped 4294967291 extended,
      w.cursor.atEnd = true ∧
      w.cursor.tokens.getLast? = some ⟨.integer, ['2'], [], 4294967295⟩ ∧
      w.cursor.tokens[3]? = some ⟨.integer, ['1'], ['\n'], 4294967294⟩ ∧
      w.cursor.textFrom 3 none = "1\n* 2".toList ∧ 3 < w.cursor.length := by
    decide +kernel
  obtain ⟨hgoes, hreports⟩ := lines_reported .stops wrapped 4294967291 extended
  obtain ⟨w, hw⟩ := hgoes hfits
  obtain ⟨hend, hlast, htoken, htext, hlength⟩ := hcourse w hw
  obtain ⟨hwhole, hline, hlines, hlag⟩ := hreports w hw
  obtain ⟨hlatest, hlines⟩ := hlines hacts
  obtain ⟨front, hfront, -, hnumber⟩ := hlines 3 _ htoken
  refine ⟨hfits, hacts, hsteady, w, hw, hwhole, hend, ?_, _, front, htoken, rfl, htext ▸ hfront, ?_⟩
  · rw [hline hend, hlatest, hlast]
    rfl
  · rw [hlag hsteady 3 hlength, Nat.add_zero, hwhole] at hnumber
    exact hnumber (by decide +kernel)

/-- A token that is dropped, and line feeds behind the last token or all there is. -/
theorem lines_broken_feeds :
    ((course? .stops "$a\n/*b*/" 1 [.filter (·.kind ≠ .comment), .move .toEnd]).map fun w =>
      (w.cursor.tokens, w.cursor.atEnd, w.cursor.line)) =
        some ([⟨.variable, "$a", "\n", 1⟩], true, 2) ∧
    ((course? .stops "$a\n" 1 [.splice 1 "$b"]).map (·.cursor.tokens)) =
      some [⟨.variable, "$a", "\n", 1⟩, ⟨.variable, "$b", "", 1⟩] ∧
    ((course? .stops "\n" 1 [.splice 0 "$b"]).map (·.cursor.tokens)) =
      some [⟨.variable, "$b", "", 1⟩] := by
  decide +kernel

end Course

end Stencil
