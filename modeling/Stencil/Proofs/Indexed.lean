import Stencil.Proofs.Attempt
import Stencil.Proofs.Spliced

/-!
# Cursors as numbers

A cursor once more as a list of tokens and a number, which nothing keeps inside the list. What
looks at tokens asks for them by number and gives nothing where there are none. Whatever is done
with the cursor, the number stays within the list, and the answers are those of the cursor that
keeps the tokens passed and the tokens to come apart. A token that is not there is asked for only
where the sum of two numbers does not fit in a word.
-/

namespace Stencil

/-! ## Slices -/

theorem slice?_of_le {α : Type} {items : List α} {start stop : Nat} (hstart : start ≤ stop)
    (hstop : stop ≤ items.length) :
    slice? items start stop = some ((items.drop start).take (stop - start)) :=
  if_pos ⟨hstart, hstop⟩

theorem slice?_of_lt {α : Type} {items : List α} {start stop : Nat} (h : stop < start) :
    slice? items start stop = none :=
  if_neg fun hle => Nat.not_lt.mpr hle.1 h

theorem suffix_of_slice? {α : Type} {items part : List α} {start stop : Nat}
    (h : slice? items start stop = some part) : part <:+ items.take stop := by
  unfold slice? at h
  split at h <;> cases h
  rw [← List.drop_take]
  exact List.drop_suffix ..

theorem slice?_limit {α : Type} (items : List α) (offset n : Nat) :
    slice? items (min offset items.length)
      (min (min offset items.length + n) items.length) = some ((items.drop offset).take n) := by
  have hdrop : items.drop (min offset items.length) = items.drop offset :=
    List.drop_eq_drop_iff.mpr (by omega)
  rw [slice?_of_le (by omega) (Nat.min_le_right ..), hdrop, Option.some_inj,
    List.take_eq_take_iff, List.length_drop]
  omega

theorem slice?_from {α : Type} (items : List α) (offset : Nat) :
    slice? items (min offset items.length) items.length = some (items.drop offset) := by
  have hlimit := slice?_limit items offset items.length
  rwa [Nat.min_eq_right (Nat.le_add_left ..), List.take_of_length_le] at hlimit
  rw [List.length_drop]
  omega

theorem slice?_takeWhile {α : Type} (p : α → Bool) (items : List α) :
    slice? items 0 (items.length - (items.dropWhile p).length) = some (items.takeWhile p) := by
  have hwhole : items.takeWhile p ++ items.dropWhile p = items := List.takeWhile_append_dropWhile
  have hlength := congrArg List.length hwhole
  rw [List.length_append] at hlength
  rw [slice?_of_le (Nat.zero_le _) (Nat.sub_le ..), List.drop_zero, Nat.sub_zero,
    show items.length - (items.dropWhile p).length = (items.takeWhile p).length by omega]
  exact congrArg some (List.prefix_iff_eq_take.mp (List.takeWhile_prefix p)).symm

theorem take_around {α : Type} {items : List α} {start here stop : Nat} (hstart : start ≤ here)
    (hstop : here ≤ stop) (hlt : here < items.length) :
    (items.drop start).take (stop - start + 1) =
      (items.drop start).take (here - start) ++
        items[here] :: (items.drop (here + 1)).take (stop - here) := by
  rw [show stop - start + 1 = here - start + (stop - here + 1) by omega, List.take_add,
    List.drop_drop, show start + (here - start) = here by omega, List.drop_eq_getElem_cons hlt,
    List.take_succ_cons]

theorem append_slice_append {α : Type} (items : List α) (start n : Nat) :
    items.take start ++ (items.drop start).take n ++ items.drop (start + n) = items := by
  rw [← List.drop_drop, List.append_assoc, List.take_append_drop, List.take_append_drop]

/-! ## Cursors -/

structure Indexed where
  tokens : List Token
  position : Nat
  /-- The line to report at the end of the tokens. -/
  endLine : Nat

namespace Indexed

def ofTokens (tokens : List Token) (line : Nat) : Indexed :=
  { tokens, position := 0, endLine := Cursor.lastLine tokens line }

def current? (x : Indexed) : Option Token := x.tokens[x.position]?

def line (x : Indexed) : Nat := (x.current?.map Token.line).getD x.endLine

def sees (x : Indexed) (wants : List Want) : Bool := x.current?.any (·.fits wants)

def advance (x : Indexed) : Indexed :=
  if x.position < x.tokens.length then { x with position := x.position + 1 } else x

def back (x : Indexed) : Indexed := { x with position := x.position - 1 }

def toEnd (x : Indexed) : Indexed := { x with position := x.tokens.length }

/-- The tokens around the current one, or around the last one, up to the number that is reached. -/
def around? (x : Indexed) (before : Nat) (reach : Nat → Option Nat) : Option (List Token) :=
  if x.tokens.length = 0 then some []
  else do
    let last := x.tokens.length - 1
    let anchor := min x.position last
    slice? x.tokens (anchor - before) (min (← reach anchor) last + 1)

def snippet? (overflow : Overflow) (x : Indexed) (before after : BitVec 64) :
    Option (List Token) :=
  x.around? before.toNat fun anchor => (overflow.add? (.ofNat 64 anchor) after).map BitVec.toNat

def unexpected? (x : Indexed) (wants : List Want) : Option Unexpected := do
  -- No list is so long that this sum would not fit in a word.
  let shown ← x.around? Cursor.snippetReach fun anchor => some (anchor + Cursor.snippetReach)
  return {
    found := x.current?.map Token.text
    line := x.line
    expected := Cursor.onlyLabel? wants
    snippet := Cursor.onOneLine shown }

def textFrom? (overflow : Overflow) (x : Indexed) (offset : Nat) (limit : Option (BitVec 64)) :
    Option Text := do
  let start := min offset x.tokens.length
  let stop ← match limit with
    | some n => (overflow.add? (.ofNat 64 start) n).map (min ·.toNat x.tokens.length)
    | none => some x.tokens.length
  Token.join <$> slice? x.tokens start stop

/-- The source text up to the first token that fits, token by token. -/
def collect (x : Indexed) (stops : List Want) : Text × Indexed :=
  match h : x.current? with
  | none => ([], x)
  | some token =>
    if token.fits stops then ([], x)
    else
      have : x.position < x.tokens.length := (List.getElem?_eq_some_iff.mp h).1
      let rest := collect { x with position := x.position + 1 } stops
      (token.source ++ rest.1, rest.2)
termination_by x.tokens.length - x.position

def filter (x : Indexed) (keep : Token → Bool) : Indexed :=
  let tokens := x.tokens.filter keep
  { x with tokens, position := min x.position tokens.length }

def splice? (overflow : Overflow) (x : Indexed) (offset : Nat) (text : Text) :
    Option Indexed := do
  let offset := min offset x.tokens.length
  let line := (x.tokens[offset]?.map Token.line).getD x.endLine
  let source := (← x.textFrom? overflow offset none) ++ text
  let body := source.dropWhile isBlank
  let space ← slice? source 0 (source.length - body.length)
  let below ← overflow.add? (.ofNat 32 line) (Text.feeds space)
  let tokens := Cursor.addSpace space (x.tokens.take offset) ++ (← tokenize? overflow below body)
  return {
    tokens
    position := if offset < x.position then offset else x.position
    endLine := Cursor.lastLine tokens line }

/-! ## Steps -/

def refuse {α : Type} (wants : List Want) : Attempt Indexed α := do
  throw (.unexpected (← Attempt.access ((← get).unexpected? wants)))

def refuseWord (word : Text) : Attempt Indexed Unit := do
  let report ← Attempt.access ((← get).unexpected? [])
  throw (.unexpected { report with expected := some word })

def need (wants : List Want) : Attempt Indexed Token := do
  match (← get).current? with
  | some token => if token.fits wants then return token else refuse wants
  | none => refuse wants

def take (wants : List Want) : Attempt Indexed Text := do
  let token ← need wants
  modify advance
  return token.text

def takeAny : Attempt Indexed Text := do
  match (← get).current? with
  | some token => do
    modify advance
    return token.text
  | none => refuse []

def takeWord (word : Text) : Attempt Indexed Unit := do
  match (← get).current? with
  | some token =>
    if token.kind = .name && token.text = word then modify advance else refuseWord word
  | none => refuseWord word

/-- The token is asked for by its number once it is known to fit. -/
def needNext (wants : List Want) : Attempt Indexed Token := do
  modify advance
  let _ ← need wants
  let x ← get
  Attempt.access x.tokens[x.position]?

def takeNext (wants : List Want) : Attempt Indexed Text := do
  modify advance
  take wants

def skip (wants : List Want) : Attempt Indexed Bool := do
  if (← get).sees wants then
    modify advance
    return true
  return false

end Indexed

/-! ## Operations -/

/-- What can be done with a cursor. -/
inductive Cursor.Operation where
  | advance
  | back
  | toEnd
  | needNext (wants : List Want)
  | takeNext (wants : List Want)
  | skip (wants : List Want)
  | need (wants : List Want)
  | take (wants : List Want)
  | takeAny
  | takeWord (word : Text)
  | collect (stops : List Want)
  | textFrom (offset : Nat) (limit : Option (BitVec 64))
  | filter (keep : Token → Bool)
  | splice (offset : Nat) (text : Text)
  | snippet (before after : BitVec 64)
  | unexpected (wants : List Want)

inductive Cursor.Answer where
  | done
  | flag (value : Bool)
  | token (value : Token)
  | text (value : Text)
  | tokens (value : List Token)
  | report (value : Unexpected)

namespace Cursor.Operation

def read (overflow : Overflow) : Operation → Attempt Cursor Answer
  | .advance => .ofReading ((fun _ => .done) <$> Reading.advance)
  | .back => .ofReading ((fun _ => .done) <$> modify Cursor.back)
  | .toEnd => .ofReading ((fun _ => .done) <$> modify Cursor.toEnd)
  | .needNext wants => .ofReading (.token <$> Reading.needNext wants)
  | .takeNext wants => .ofReading (.text <$> Reading.takeNext wants)
  | .skip wants => .ofReading (.flag <$> Reading.skip wants)
  | .need wants => .ofReading (.token <$> Reading.need wants)
  | .take wants => .ofReading (.text <$> Reading.take wants)
  | .takeAny => .ofReading (.text <$> Reading.takeAny)
  | .takeWord word => .ofReading ((fun _ => .done) <$> Reading.takeWord word)
  | .collect stops => .ofReading (.text <$> Reading.collect stops)
  | .textFrom offset limit => do
    return .text (← Attempt.access ((← get).textFrom? overflow offset limit))
  | .filter keep => .ofReading ((fun _ => .done) <$> modify (·.filter keep))
  | .splice offset text => do
    set (← Attempt.access ((← get).splice? overflow offset text))
    return .done
  | .snippet before after => do
    return .tokens (← Attempt.access ((← get).snippet? overflow before after))
  | .unexpected wants => .ofReading do return .report ((← get).unexpected wants)

def attempt (overflow : Overflow) : Operation → Attempt Indexed Answer
  | .advance => (fun _ => .done) <$> modify Indexed.advance
  | .back => (fun _ => .done) <$> modify Indexed.back
  | .toEnd => (fun _ => .done) <$> modify Indexed.toEnd
  | .needNext wants => .token <$> Indexed.needNext wants
  | .takeNext wants => .text <$> Indexed.takeNext wants
  | .skip wants => .flag <$> Indexed.skip wants
  | .need wants => .token <$> Indexed.need wants
  | .take wants => .text <$> Indexed.take wants
  | .takeAny => .text <$> Indexed.takeAny
  | .takeWord word => (fun _ => .done) <$> Indexed.takeWord word
  | .collect stops => .text <$> modifyGet (·.collect stops)
  | .textFrom offset limit => do
    return .text (← Attempt.access ((← get).textFrom? overflow offset limit))
  | .filter keep => (fun _ => .done) <$> modify (Indexed.filter · keep)
  | .splice offset text => do
    set (← Attempt.access ((← get).splice? overflow offset text))
    return .done
  | .snippet before after => do
    return .tokens (← Attempt.access ((← get).snippet? overflow before after))
  | .unexpected wants => do return .report (← Attempt.access ((← get).unexpected? wants))

end Cursor.Operation

/-! ## The same cursor -/

namespace Cursor

/-- The cursor as a number. -/
def indexed (c : Cursor) : Indexed :=
  { tokens := c.tokens, position := c.position, endLine := c.endLine }

theorem indexed_place (tokens : List Token) (position endLine : Nat) :
    (place tokens position endLine).indexed =
      { tokens, position := min position tokens.length, endLine } := by
  simp [indexed, Cursor.tokens, Cursor.position, place]

variable (c : Cursor)

@[simp] theorem tokens_indexed : c.indexed.tokens = c.tokens := rfl

@[simp] theorem position_indexed : c.indexed.position = c.position := rfl

theorem current?_indexed : c.indexed.current? = c.current? := by
  show (c.behind.reverse ++ c.ahead)[c.behind.length]? = c.ahead.head?
  rw [List.getElem?_append_right (by simp), List.head?_eq_getElem?]
  simp

theorem line_indexed : c.indexed.line = c.line := by
  rw [Indexed.line, current?_indexed]
  rfl

theorem advance_indexed : c.indexed.advance = c.advance.indexed := by
  obtain ⟨behind, _ | ⟨t, ahead⟩, endLine⟩ := c
  · simp [Indexed.advance, indexed, advance, Cursor.tokens, position]
  · simp [Indexed.advance, indexed, advance, Cursor.tokens, position]

theorem back_indexed : c.indexed.back = c.back.indexed := by
  obtain ⟨_ | ⟨t, behind⟩, ahead, endLine⟩ := c
  · rfl
  · simp [Indexed.back, indexed, back, Cursor.tokens, position]

theorem toEnd_indexed : c.indexed.toEnd = c.toEnd.indexed := by
  simp [Indexed.toEnd, indexed, toEnd, Cursor.tokens, position, Nat.add_comm]

theorem around?_indexed (before after : Nat) :
    c.indexed.around? before (fun anchor => some (anchor + after)) =
      some (c.snippet before after) := by
  unfold Indexed.around? snippet
  split
  · rename_i hnone
    have htokens : c.tokens = [] := List.length_eq_zero_iff.mp hnone
    simp [htokens]
  · rename_i hsome
    have hlength : c.indexed.tokens.length = c.length := c.length_tokens
    rw [hlength] at hsome ⊢
    dsimp only [position_indexed]
    have hanchor := Nat.min_le_right c.position (c.length - 1)
    generalize min c.position (c.length - 1) = anchor at hanchor ⊢
    rw [Option.bind_eq_bind, Option.bind_some, slice?_of_le (by omega) (by rw [hlength]; omega),
      Nat.sub_add_comm (by omega)]
    rfl

theorem snippet?_indexed (overflow : Overflow) (before after : BitVec 64) :
    c.indexed.snippet? overflow before after = c.snippet? overflow before after := by
  rw [Indexed.snippet?, Indexed.around?, tokens_indexed, length_tokens, snippet?]
  dsimp only [position_indexed]
  cases overflow.add? (.ofNat 64 (min c.position (c.length - 1))) after <;> rfl

theorem unexpected?_indexed (wants : List Want) :
    c.indexed.unexpected? wants = some (c.unexpected wants) := by
  rw [Indexed.unexpected?, around?_indexed, current?_indexed, line_indexed]
  rfl

theorem textFrom?_indexed (overflow : Overflow) (offset : Nat) (limit : Option (BitVec 64)) :
    c.indexed.textFrom? overflow offset limit = c.textFrom? overflow offset limit := by
  cases limit <;> simp only [Indexed.textFrom?, textFrom?, tokens_indexed, length_tokens]

theorem collect_indexed (stops : List Want) :
    c.indexed.collect stops = ((c.collect stops).1, (c.collect stops).2.indexed) := by
  obtain ⟨behind, ahead, endLine⟩ := c
  -- one turn of the loop for each token ahead, until one fits
  induction ahead generalizing behind with
  | nil =>
    rw [Indexed.collect]
    split
    · rfl
    · rename_i token htoken
      rw [current?_indexed] at htoken
      cases htoken
  | cons t ahead ih =>
    rw [Indexed.collect]
    split
    · rename_i hnone
      rw [current?_indexed] at hnone
      cases hnone
    · rename_i token htoken
      rw [current?_indexed] at htoken
      cases htoken
      have hnext : { indexed ⟨behind, t :: ahead, endLine⟩ with
          position := (indexed ⟨behind, t :: ahead, endLine⟩).position + 1 } =
          indexed ⟨t :: behind, ahead, endLine⟩ := by
        simp [indexed, Cursor.tokens, position]
      split
      · rename_i hfits
        simp [collect, hfits, Token.join]
      · rename_i hfits
        rw [hnext, ih]
        simp [collect, hfits, Token.join]

theorem filter_indexed (keep : Token → Bool) :
    c.indexed.filter keep = (c.filter keep).indexed := by
  rw [filter, indexed_place]
  rfl

theorem textFrom?_none (overflow : Overflow) (offset : Nat) :
    c.textFrom? overflow offset none = some (c.textFrom offset none) := by
  have hslice := slice?_from c.tokens offset
  rw [length_tokens] at hslice
  show Token.join <$> slice? c.tokens (min offset c.length) c.length = _
  rw [hslice]
  rfl

theorem indexed_recut (offset : Nat) (space : Text) (cut : List Token) :
    (c.recut offset space cut).indexed =
      { tokens := addSpace space (c.tokens.take offset) ++ cut
        position := min c.position offset
        endLine := lastLine (addSpace space (c.tokens.take offset) ++ cut) (c.lineAt offset) } := by
  have hposition : c.position ≤ c.length := Nat.le_add_right _ _
  rw [recut, indexed_place, Nat.min_eq_left]
  rw [List.length_append, length_kept]
  omega

theorem splice?_indexed (overflow : Overflow) (offset : Nat) (text : Text) :
    c.indexed.splice? overflow offset text =
      (c.splice? overflow offset text).map Cursor.indexed := by
  have hlength : c.indexed.tokens.length = c.length := c.length_tokens
  have hline : (c.indexed.tokens[min offset c.length]?.map Token.line).getD c.indexed.endLine =
      c.lineAt offset := (c.place_min offset).1
  have htake : c.tokens.take (min offset c.length) = c.tokens.take offset :=
    List.take_eq_take_iff.mpr (by rw [length_tokens]; omega)
  have hposition : c.position ≤ c.length := Nat.le_add_right _ _
  have hmoved : (if min offset c.length < c.indexed.position then min offset c.length
      else c.indexed.position) = min c.position offset := by
    rw [position_indexed]
    split <;> omega
  rw [Indexed.splice?, hlength, hline, textFrom?_indexed, textFrom?_none, (c.place_min offset).2,
    splice?]
  simp only [Option.bind_eq_bind, Option.bind_some, slice?_takeWhile, tokens_indexed,
    htake, Option.map_bind]
  refine Option.bind_congr fun below _ => ?_
  rw [Function.comp_apply, Option.map_bind]
  refine Option.bind_congr fun cut _ => ?_
  rw [hmoved]
  exact congrArg some (indexed_recut ..).symm

end Cursor

/-! ## One step -/

theorem current?_of_need {wants : List Want} {c c' : Cursor} {token : Token}
    (h : Reading.need wants c = .ok token c') : c = c' ∧ c'.current? = some token := by
  unfold Reading.need at h
  split at h
  · rename_i found hfound
    split at h <;> cases h
    exact ⟨rfl, hfound⟩
  · cases h

/-- The attempt needs nothing that is not there, and goes like the reader. -/
def Parallels {α : Type} (run : Attempt Indexed α) (read : Reading α) : Prop :=
  ∀ c : Cursor, run c.indexed = some (Attempt.outcome Cursor.indexed (read c))

namespace Parallels

variable {α β : Type} {run : Attempt Indexed α} {read : Reading α}

theorem pure (a : α) : Parallels (pure a) (pure a) := fun _ => rfl

theorem bind {f : α → Attempt Indexed β} {g : α → Reading β} (h : Parallels run read)
    (hf : ∀ a, Parallels (f a) (g a)) : Parallels (run >>= f) (read >>= g) :=
  fun c => Attempt.bind_eq_outcome (h c) fun a c' _ => hf a c'

theorem map {f : α → β} (h : Parallels run read) : Parallels (f <$> run) (f <$> read) := by
  rw [map_eq_pure_bind, map_eq_pure_bind]
  exact h.bind fun a => pure (f a)

theorem moves {f : Indexed → Indexed} {g : Cursor → Cursor}
    (h : ∀ c : Cursor, f c.indexed = (g c).indexed) :
    Parallels (modify f) (modify g : Reading Unit) := by
  intro c
  show some (_, f c.indexed) = _
  rw [h]
  rfl

theorem advance : Parallels (modify Indexed.advance) Reading.advance :=
  moves Cursor.advance_indexed

theorem refuse (wants : List Want) :
    Parallels (Indexed.refuse wants : Attempt Indexed α) (Reading.refuse wants) := by
  intro c
  show (Attempt.access (c.indexed.unexpected? wants) >>= _) c.indexed = _
  rw [Cursor.unexpected?_indexed]
  rfl

theorem refuseWord (word : Text) :
    Parallels (Indexed.refuseWord word)
      fun c => .error (.unexpected (c.unexpectedWord word)) c := by
  intro c
  show (Attempt.access (c.indexed.unexpected? []) >>= _) c.indexed = _
  rw [Cursor.unexpected?_indexed]
  rfl

theorem need (wants : List Want) : Parallels (Indexed.need wants) (Reading.need wants) := by
  intro c
  rw [Indexed.need, Reading.need, Attempt.get_bind, Cursor.current?_indexed]
  cases c.current? with
  | none => exact refuse wants c
  | some token =>
    dsimp only
    split
    · rfl
    · exact refuse wants c

theorem take (wants : List Want) : Parallels (Indexed.take wants) (Reading.take wants) :=
  (need wants).bind fun token => advance.bind fun _ => pure token.text

theorem takeAny : Parallels Indexed.takeAny Reading.takeAny := by
  intro c
  rw [Indexed.takeAny, Reading.takeAny, Attempt.get_bind, Cursor.current?_indexed]
  cases c.current? with
  | none => exact refuse [] c
  | some token => exact (advance.bind fun _ => pure token.text) c

theorem takeWord (word : Text) : Parallels (Indexed.takeWord word) (Reading.takeWord word) := by
  intro c
  rw [Indexed.takeWord, Reading.takeWord, Attempt.get_bind, Cursor.current?_indexed]
  cases c.current? with
  | none => exact refuseWord word c
  | some token =>
    dsimp only
    split
    · exact advance c
    · exact refuseWord word c

theorem needNext (wants : List Want) :
    Parallels (Indexed.needNext wants) (Reading.needNext wants) := by
  refine advance.bind fun _ c => ?_
  have hneed := need wants c
  cases hread : Reading.need wants c with
  | error fault c' =>
    rw [hread] at hneed
    exact Attempt.bind_of_error hneed
  | ok token c' =>
    obtain ⟨rfl, htoken⟩ := current?_of_need hread
    rw [hread] at hneed
    rw [Attempt.bind_of_ok hneed, Attempt.get_bind]
    show (c.indexed.current?).map _ = _
    rw [Cursor.current?_indexed, htoken]
    rfl

theorem takeNext (wants : List Want) :
    Parallels (Indexed.takeNext wants) (Reading.takeNext wants) :=
  advance.bind fun _ => take wants

theorem skip (wants : List Want) : Parallels (Indexed.skip wants) (Reading.skip wants) := by
  intro c
  have hsees : c.indexed.sees wants = c.sees wants := by
    rw [Indexed.sees, Cursor.current?_indexed, Cursor.sees]
  rw [Indexed.skip, Reading.skip, Attempt.get_bind, hsees]
  split
  · exact (advance.bind fun _ => pure true) c
  · rfl

theorem collect (stops : List Want) :
    Parallels (modifyGet (·.collect stops)) (Reading.collect stops) := by
  intro c
  show some (Except.ok (c.indexed.collect stops).1, (c.indexed.collect stops).2) = _
  rw [Cursor.collect_indexed]
  rfl

theorem operation (overflow : Overflow) (op : Cursor.Operation) (c : Cursor) :
    op.attempt overflow c.indexed =
      (op.read overflow c).map fun done => (done.1, done.2.indexed) := by
  have lifted {α : Type} {run : Attempt Indexed α} {read : Reading α} (h : Parallels run read) :
      run c.indexed =
        (Attempt.ofReading read c).map fun done => (done.1, done.2.indexed) := by
    rw [h c, Attempt.ofReading]
    cases read c <;> rfl
  cases op with
  | advance => exact lifted advance.map
  | back => exact lifted (moves Cursor.back_indexed).map
  | toEnd => exact lifted (moves Cursor.toEnd_indexed).map
  | needNext wants => exact lifted (needNext wants).map
  | takeNext wants => exact lifted (takeNext wants).map
  | skip wants => exact lifted (skip wants).map
  | need wants => exact lifted (need wants).map
  | take wants => exact lifted (take wants).map
  | takeAny => exact lifted takeAny.map
  | takeWord word => exact lifted (takeWord word).map
  | collect stops => exact lifted (collect stops).map
  | filter keep => exact lifted (moves (Cursor.filter_indexed · keep)).map
  | unexpected wants =>
    rw [Cursor.Operation.attempt, Attempt.get_bind, Cursor.unexpected?_indexed]
    rfl
  | textFrom offset limit =>
    rw [Cursor.Operation.attempt, Cursor.Operation.read, Attempt.get_bind, Attempt.get_bind,
      Cursor.textFrom?_indexed]
    cases c.textFrom? overflow offset limit <;> rfl
  | splice offset text =>
    rw [Cursor.Operation.attempt, Cursor.Operation.read, Attempt.get_bind, Attempt.get_bind,
      Cursor.splice?_indexed]
    cases c.splice? overflow offset text <;> rfl
  | snippet before after =>
    rw [Cursor.Operation.attempt, Cursor.Operation.read, Attempt.get_bind, Attempt.get_bind,
      Cursor.snippet?_indexed]
    cases c.snippet? overflow before after <;> rfl

end Parallels

/-! ## Many steps -/

/-- The cursor after some operations. One that fails leaves the cursor to the next one. -/
def Cursor.after? (overflow : Overflow) (c : Cursor) (ops : List Cursor.Operation) :
    Option Cursor :=
  ops.foldlM (fun c op => (op.read overflow c).map Prod.snd) c

def Indexed.after? (overflow : Overflow) (x : Indexed) (ops : List Cursor.Operation) :
    Option Indexed :=
  ops.foldlM (fun x op => (op.attempt overflow x).map Prod.snd) x

theorem Cursor.after?_indexed (overflow : Overflow) (c : Cursor) (ops : List Cursor.Operation) :
    c.indexed.after? overflow ops = (c.after? overflow ops).map Cursor.indexed := by
  induction ops generalizing c with
  | nil => rfl
  | cons op ops ih =>
    rw [Indexed.after?, Cursor.after?, List.foldlM_cons, List.foldlM_cons,
      Parallels.operation overflow op c]
    cases op.read overflow c with
    | none => rfl
    | some done => exact ih done.2

/-! ## Sums that fit -/

namespace Cursor

/-- What the operation adds up fits in a word. -/
def Operation.Fits (overflow : Overflow) (c : Cursor) : Operation → Prop
  | .textFrom offset (some limit) => min offset c.length + limit.toNat < 2 ^ 64
  | .snippet _ after => min c.position (c.length - 1) + after.toNat < 2 ^ 64
  | .splice offset text =>
    overflow = .wraps ∨ c.lineAt offset + Text.newlines (c.textFrom offset none ++ text) < 2 ^ 32
  | _ => True

def AllFit (overflow : Overflow) (c : Cursor) : List Operation → Prop
  | [] => True
  | op :: ops =>
    op.Fits overflow c ∧ ∀ done ∈ op.read overflow c, done.2.AllFit overflow ops

instance Operation.decidableFits (overflow : Overflow) (c : Cursor) :
    ∀ op : Operation, Decidable (op.Fits overflow c)
  | .textFrom _ (some _) | .snippet .. => inferInstanceAs (Decidable (_ < _))
  | .splice .. => inferInstanceAs (Decidable (_ ∨ _))
  | .textFrom _ none | .advance | .back | .toEnd | .needNext _ | .takeNext _ | .skip _ | .need _
  | .take _ | .takeAny | .takeWord _ | .collect _ | .filter _ | .unexpected _ => .isTrue trivial

instance decidableAllFit (overflow : Overflow) :
    ∀ (c : Cursor) ops, Decidable (c.AllFit overflow ops)
  | _, [] => .isTrue trivial
  | c, op :: ops =>
    have := fun done : Except Fault Answer × Cursor => decidableAllFit overflow done.2 ops
    have : Decidable (∀ done ∈ op.read overflow c, done.2.AllFit overflow ops) :=
      inferInstanceAs (Decidable (∀ done ∈ (op.read overflow c : Option _), _))
    inferInstanceAs (Decidable (_ ∧ _))

variable {overflow : Overflow} {c : Cursor}

theorem textFrom?_of_lt {offset : Nat} {limit : BitVec 64}
    (h : min offset c.length + limit.toNat < 2 ^ 64) :
    c.textFrom? overflow offset (some limit) = some (c.textFrom offset (some limit.toNat)) := by
  have hstart : (BitVec.ofNat 64 (min offset c.length)).toNat = min offset c.length :=
    Overflow.toNat_ofNat_of_lt (by omega)
  have hslice := slice?_limit c.tokens offset limit.toNat
  rw [length_tokens] at hslice
  rw [textFrom?, Overflow.add?_of_lt (by rw [hstart]; exact h)]
  dsimp only [Option.map_some, Option.bind_eq_bind, Option.bind_some]
  rw [BitVec.toNat_add, hstart, Nat.mod_eq_of_lt h, hslice]
  rfl

theorem snippet?_of_lt {before after : BitVec 64}
    (h : min c.position (c.length - 1) + after.toNat < 2 ^ 64) :
    c.snippet? overflow before after = some (c.snippet before.toNat after.toNat) := by
  have hanchor : (BitVec.ofNat 64 (min c.position (c.length - 1))).toNat =
      min c.position (c.length - 1) := Overflow.toNat_ofNat_of_lt (by omega)
  have hshown := c.around?_indexed before.toNat after.toNat
  rw [← snippet?_indexed, Indexed.snippet?, ← hshown, Indexed.around?, Indexed.around?]
  simp only [tokens_indexed, length_tokens, position_indexed]
  rw [Overflow.add?_of_lt (by rw [hanchor]; exact h), Option.map_some, BitVec.toNat_add, hanchor,
    Nat.mod_eq_of_lt h]

theorem Operation.Fits.isSome {op : Operation} (h : op.Fits overflow c) :
    (op.read overflow c).isSome = true := by
  cases op with
  | textFrom offset limit =>
    rw [Operation.read, Attempt.get_bind]
    cases limit with
    | none => rw [textFrom?_none]; rfl
    | some limit => rw [textFrom?_of_lt h]; rfl
  | snippet before after =>
    rw [Operation.read, Attempt.get_bind, snippet?_of_lt h]
    rfl
  | splice offset text =>
    obtain ⟨d, hd⟩ := exists_splice? h
    rw [Operation.read, Attempt.get_bind, hd]
    rfl
  | _ => rfl

theorem AllFit.exists_after? {ops : List Operation} (h : c.AllFit overflow ops) :
    ∃ d, c.after? overflow ops = some d := by
  induction ops generalizing c with
  | nil => exact ⟨c, rfl⟩
  | cons op ops ih =>
    obtain ⟨done, hdone⟩ := Option.isSome_iff_exists.mp h.1.isSome
    obtain ⟨d, hd⟩ := ih (h.2 done hdone)
    refine ⟨d, ?_⟩
    rw [after?, List.foldlM_cons, hdone]
    exact hd

/-! ## Sums that do not fit -/

theorem toNat_lt_of_add? {start : Nat} {n sum : BitVec 64} (hstart : start < 2 ^ 64)
    (h : 2 ^ 64 ≤ start + n.toNat) (hsum : overflow.add? (.ofNat 64 start) n = some sum) :
    sum.toNat < start := by
  have hn := n.isLt
  rw [Overflow.toNat_of_add? hsum, Overflow.toNat_ofNat_of_lt hstart]
  omega

/-- Either the sum stops the program, or the slice would end before it starts. -/
theorem textFrom?_of_le (hlength : c.length < 2 ^ 64) {offset : Nat} {limit : BitVec 64}
    (h : 2 ^ 64 ≤ min offset c.length + limit.toNat) :
    c.textFrom? overflow offset (some limit) = none := by
  rw [textFrom?]
  cases hsum : overflow.add? (.ofNat 64 (min offset c.length)) limit with
  | none => rfl
  | some sum =>
    have hlt := toNat_lt_of_add? (by omega) h hsum
    show Token.join <$> slice? c.tokens (min offset c.length) (min sum.toNat c.length) = none
    rw [slice?_of_lt (by omega)]
    rfl

theorem snippet?_of_le (hlength : c.length < 2 ^ 64) {before after : BitVec 64}
    (h : 2 ^ 64 ≤ min c.position (c.length - 1) + after.toNat) :
    c.snippet? .stops before after = none ∧
      ∀ shown, c.snippet? .wraps before after = some shown →
        shown <:+: c.tokens.take (min c.position (c.length - 1)) := by
  have hafter := after.isLt
  have hsome : ¬c.length = 0 := by omega
  have hanchor : min c.position (c.length - 1) < 2 ^ 64 := by omega
  rw [snippet?, snippet?, if_neg hsome, if_neg hsome]
  dsimp only
  constructor
  · rw [Overflow.add?_stops_of_le]
    · rfl
    · rw [Overflow.toNat_ofNat_of_lt hanchor]
      exact h
  · intro shown hshown
    obtain ⟨sum, hsum, hslice⟩ := Option.bind_eq_some_iff.mp hshown
    have hlt := toNat_lt_of_add? hanchor h hsum
    have hbefore := (suffix_of_slice? hslice).isInfix
    exact hbefore.trans (List.take_prefix_take_left (by omega)).isInfix

end Cursor

/-! ## Failures -/

/-- Where it fails, the reader has not moved. -/
def Unmoved {α : Type} (read : Reading α) : Prop :=
  ∀ c fault c', read c = .error fault c' → c' = c

namespace Unmoved

variable {α β : Type} {read : Reading α}

theorem bind {f : α → Reading β} (h : Unmoved read)
    (hf : ∀ a c, ∃ b c', f a c = .ok b c') : Unmoved (read >>= f) := by
  intro c fault c' hrun
  cases hread : read c with
  | error fault' c₁ =>
    rw [Reading.bind_of_error hread] at hrun
    cases hrun
    exact h c fault c' hread
  | ok a c₁ =>
    obtain ⟨b, c₂, hok⟩ := hf a c₁
    rw [Reading.bind_of_ok hread, hok] at hrun
    cases hrun

theorem map {f : α → β} (h : Unmoved read) : Unmoved (f <$> read) := by
  rw [map_eq_pure_bind]
  exact h.bind fun a c => ⟨f a, c, rfl⟩

theorem need (wants : List Want) : Unmoved (Reading.need wants) := by
  intro c fault c' hrun
  unfold Reading.need at hrun
  split at hrun
  · split at hrun <;> cases hrun
    rfl
  · cases hrun
    rfl

theorem take (wants : List Want) : Unmoved (Reading.take wants) :=
  (need wants).bind fun token c => ⟨token.text, c.advance, rfl⟩

theorem takeAny : Unmoved Reading.takeAny := by
  intro c fault c' hrun
  unfold Reading.takeAny at hrun
  split at hrun <;> cases hrun
  rfl

theorem takeWord (word : Text) : Unmoved (Reading.takeWord word) := by
  intro c fault c' hrun
  unfold Reading.takeWord at hrun
  split at hrun
  · split at hrun <;> cases hrun
    rfl
  · cases hrun
    rfl

theorem of_ofReading (h : Unmoved read) {c c' : Cursor} {fault : Fault}
    (hrun : Attempt.ofReading read c = some (.error fault, c')) : c' = c := by
  rw [Attempt.ofReading] at hrun
  cases hread : read c with
  | ok a d =>
    rw [hread] at hrun
    cases hrun
  | error fault' d =>
    rw [hread] at hrun
    cases hrun
    exact h c _ _ hread

end Unmoved

/-- The operations that ask for the current token and move only over the right one. -/
def Cursor.Operation.Asks : Cursor.Operation → Prop
  | .need _ | .take _ | .takeAny | .takeWord _ => True
  | _ => False

theorem Cursor.Operation.Asks.unmoved {op : Cursor.Operation} (h : op.Asks) {overflow : Overflow}
    {c c' : Cursor} {fault : Fault} (hread : op.read overflow c = some (.error fault, c')) :
    c' = c := by
  cases op with
  | need wants => exact (Unmoved.need wants).map.of_ofReading hread
  | take wants => exact (Unmoved.take wants).map.of_ofReading hread
  | takeAny => exact Unmoved.takeAny.map.of_ofReading hread
  | takeWord word => exact (Unmoved.takeWord word).map.of_ofReading hread
  | _ => cases h

/-! ## Snippets -/

namespace Cursor

/--
What is shown is one run of the tokens, around the token `here` with the cursor on it, or the last
token at the end. It is as long as the limits and the tokens allow.
-/
structure Excerpt (c : Cursor) (before after : Nat) (shown front left : List Token)
    (here : Token) (right back : List Token) : Prop where
  whole : c.tokens = front ++ (left ++ here :: right) ++ back
  shown_eq : shown = left ++ here :: right
  here_eq : c.current?.or c.tokens.getLast? = some here
  place : front.length + left.length = min c.position (c.length - 1)
  left_le : left.length ≤ before
  right_le : right.length ≤ after
  left_full : front = [] ∨ left.length = before
  right_full : back = [] ∨ right.length = after

variable {c : Cursor}

theorem snippet_of_nil (h : c.tokens = []) (before after : Nat) : c.snippet before after = [] := by
  simp [snippet, h]

theorem current?_or_getLast? (c : Cursor) :
    c.current?.or c.tokens.getLast? = c.tokens[min c.position (c.length - 1)]? := by
  have hlength := c.length_tokens
  have hcurrent : c.current? = c.tokens[c.position]? := c.current?_indexed.symm
  have hle : c.position ≤ c.length := Nat.le_add_right _ _
  rw [hcurrent, List.getLast?_eq_getElem?, hlength]
  rcases Nat.lt_or_ge c.position c.length with hlt | hge
  · rw [Nat.min_eq_left (by omega), List.getElem?_eq_getElem (by omega), Option.some_or]
  · rw [Nat.min_eq_right (by omega), List.getElem?_eq_none (by omega), Option.none_or]

theorem exists_excerpt (h : c.tokens ≠ []) (before after : Nat) :
    ∃ front left here right back,
      c.Excerpt before after (c.snippet before after) front left here right back := by
  have hpos : 0 < c.tokens.length := List.length_pos_iff.mpr h
  have hlength := c.length_tokens
  have hhere := c.current?_or_getLast?
  obtain ⟨anchor, hanchor⟩ : ∃ anchor, anchor = min c.position (c.length - 1) := ⟨_, rfl⟩
  obtain ⟨start, hstart⟩ : ∃ start, start = anchor - before := ⟨_, rfl⟩
  obtain ⟨stop, hstop⟩ : ∃ stop, stop = min (anchor + after) (c.length - 1) := ⟨_, rfl⟩
  have hlt : anchor < c.tokens.length := by omega
  have hshown : c.snippet before after = (c.tokens.drop start).take (stop - start + 1) := by
    rw [hstop, hstart, hanchor]
    rfl
  have haround := take_around (by omega : start ≤ anchor) (by omega : anchor ≤ stop) hlt
  have hwhole := append_slice_append c.tokens start (stop - start + 1)
  rw [show start + (stop - start + 1) = stop + 1 by omega] at hwhole
  refine ⟨c.tokens.take start, (c.tokens.drop start).take (anchor - start), c.tokens[anchor],
    (c.tokens.drop (anchor + 1)).take (stop - anchor), c.tokens.drop (stop + 1), ?_⟩
  constructor
  case whole => rw [← haround, hwhole]
  case shown_eq => rw [hshown, haround]
  case here_eq => rw [hhere, ← hanchor, List.getElem?_eq_getElem hlt]
  case place =>
    simp only [List.length_take, List.length_drop]
    omega
  case left_le =>
    simp only [List.length_take]
    omega
  case right_le =>
    simp only [List.length_take]
    omega
  case left_full =>
    simp only [List.take_eq_nil_iff, List.length_take, List.length_drop]
    omega
  case right_full =>
    simp only [List.drop_eq_nil_iff, List.length_take, List.length_drop]
    omega

theorem length_snippet_le (c : Cursor) (before after : Nat) :
    (c.snippet before after).length ≤ before + 1 + after := by
  by_cases h : c.tokens = []
  · rw [snippet_of_nil h]
    exact Nat.zero_le _
  · obtain ⟨front, left, here, right, back, hexcerpt⟩ := exists_excerpt h before after
    have hleft := hexcerpt.left_le
    have hright := hexcerpt.right_le
    rw [hexcerpt.shown_eq, List.length_append, List.length_cons]
    omega

end Cursor

/--
Whatever is done with a cursor, its number stays within the tokens, and nothing that is not there
is asked for as long as sums fit in their words. A token that is not the right one is not passed,
and a snippet is a short run of tokens around the current one, or the last one at the end. Where a
sum does not fit there is no text, and a snippet at best shows tokens before the current one.
-/
theorem cursor_stays_within (overflow : Overflow) (tokens : List Token) (line : Nat)
    (ops : List Cursor.Operation) :
    (Indexed.ofTokens tokens line).after? overflow ops =
      ((Cursor.ofTokens tokens line).after? overflow ops).map Cursor.indexed ∧
    ((Cursor.ofTokens tokens line).AllFit overflow ops →
      ∃ c, (Cursor.ofTokens tokens line).after? overflow ops = some c) ∧
    ∀ c, (Cursor.ofTokens tokens line).after? overflow ops = some c →
      c.indexed.position ≤ c.indexed.tokens.length ∧
      (∀ op : Cursor.Operation, op.attempt overflow c.indexed =
        (op.read overflow c).map fun done => (done.1, done.2.indexed)) ∧
      (∀ op : Cursor.Operation, op.Fits overflow c → (op.read overflow c).isSome) ∧
      (∀ op : Cursor.Operation, op.Asks →
        ∀ fault c', op.read overflow c = some (.error fault, c') → c' = c) ∧
      (∀ before after, (Cursor.Operation.snippet before after).Fits overflow c →
        ∃ shown, c.snippet? overflow before after = some shown ∧
          shown.length ≤ before.toNat + 1 + after.toNat ∧
          (c.tokens = [] ∧ shown = [] ∨ ∃ front left here right back,
            c.Excerpt before.toNat after.toNat shown front left here right back)) ∧
      (c.length < 2 ^ 64 →
        (∀ offset limit, ¬(Cursor.Operation.textFrom offset limit).Fits overflow c →
          c.textFrom? overflow offset limit = none) ∧
        ∀ before after, ¬(Cursor.Operation.snippet before after).Fits overflow c →
          c.snippet? .stops before after = none ∧
          ∀ shown, c.snippet? .wraps before after = some shown →
            shown <:+: c.tokens.take (min c.position (c.length - 1))) := by
  have hstart : Indexed.ofTokens tokens line = (Cursor.ofTokens tokens line).indexed := by
    rw [Cursor.ofTokens, Cursor.indexed_place, Nat.zero_min]
    rfl
  refine ⟨hstart ▸ Cursor.after?_indexed overflow _ ops, fun h => h.exists_after?, fun c _ => ?_⟩
  refine ⟨?_, fun op => Parallels.operation overflow op c, fun op h => h.isSome,
    fun op h fault c' => h.unmoved, ?_, ?_⟩
  · rw [Cursor.tokens_indexed, Cursor.length_tokens]
    exact Nat.le_add_right _ _
  · intro before after hfits
    refine ⟨_, Cursor.snippet?_of_lt hfits, Cursor.length_snippet_le c _ _, ?_⟩
    by_cases hnone : c.tokens = []
    · exact .inl ⟨hnone, Cursor.snippet_of_nil hnone ..⟩
    · exact .inr (Cursor.exists_excerpt hnone ..)
  · intro hlength
    refine ⟨fun offset limit hlong => ?_, fun before after hlong => ?_⟩
    · cases limit with
      | none => exact (hlong trivial).elim
      | some limit => exact Cursor.textFrom?_of_le hlength (Nat.le_of_not_lt hlong)
    · exact Cursor.snippet?_of_le hlength (Nat.le_of_not_lt hlong)

/-- A cursor at the end is moved back by a cut and goes on from there. -/
def Cursor.cutAndGoOn : List Cursor.Operation :=
  [.toEnd, .splice 1 " * c", .takeNext [.kind .name]]

/-- The snippet is asked for with the greatest reach that fits at the token. -/
theorem cursor_stays_within_cut :
    (Cursor.ofTokens (tokenize 1 "a + b") 1).AllFit .stops Cursor.cutAndGoOn ∧
    ∃ c fault, (Indexed.ofTokens (tokenize 1 "a + b") 1).after? .stops Cursor.cutAndGoOn =
        some (Cursor.indexed c) ∧
      c.position = 3 ∧ c.tokens.length = 5 ∧
      (Cursor.Operation.takeWord "in").read .stops c = some (.error fault, c) ∧
      (Cursor.Operation.snippet 0 18446744073709551612).Fits .stops c ∧
      (∃ shown, c.snippet? .stops 0 18446744073709551612 = some shown) ∧
      c.snippet? .stops 0 18446744073709551613 = none := by
  obtain ⟨hview, hruns, hall⟩ :=
    cursor_stays_within .stops (tokenize 1 "a + b") 1 Cursor.cutAndGoOn
  have hfits : (Cursor.ofTokens (tokenize 1 "a + b") 1).AllFit .stops Cursor.cutAndGoOn := by
    decide +kernel
  have hcourse : ∀ c ∈ (Cursor.ofTokens (tokenize 1 "a + b") 1).after? .stops Cursor.cutAndGoOn,
      c.position = 3 ∧ c.tokens.length = 5 ∧ c.length < 2 ^ 64 ∧
      (Cursor.Operation.snippet 0 18446744073709551612).Fits .stops c ∧
      ¬(Cursor.Operation.snippet 0 18446744073709551613).Fits .stops c ∧
      ((Cursor.Operation.takeWord "in").read .stops c).map (·.1.isOk) = some false := by
    decide +kernel
  obtain ⟨c, hc⟩ := hruns hfits
  obtain ⟨hposition, hlength, hshort, hreach, hbeyond, hfails⟩ := hcourse c hc
  obtain ⟨-, -, -, hasks, hsnippet, hunfit⟩ := hall c hc
  obtain ⟨shown, hshown, -⟩ := hsnippet 0 18446744073709551612 hreach
  obtain ⟨⟨outcome, c'⟩, hread, houtcome⟩ := Option.map_eq_some_iff.mp hfails
  cases outcome with
  | ok answer => cases houtcome
  | error fault =>
    obtain rfl := hasks (.takeWord "in") trivial fault c' hread
    exact ⟨hfits, c', fault, hview.trans (congrArg _ hc), hposition, hlength, hread, hreach,
      ⟨shown, hshown⟩, ((hunfit hshort).2 0 18446744073709551613 hbeyond).1⟩

/-- Three tokens, the greatest size there is and a cursor on the second token. -/
theorem cursor_broken_sums :
    (∀ overflow, (Indexed.ofTokens (tokenize 1 "a b c") 1).textFrom? overflow 1
      (some 18446744073709551615) = none) ∧
    (Indexed.ofTokens (tokenize 1 "a b c") 1).advance.snippet? .stops 0 18446744073709551615 =
      none ∧
    (Indexed.ofTokens (tokenize 1 "a b c") 1).advance.snippet? .wraps 0 18446744073709551615 =
      some [] ∧
    (Indexed.ofTokens (tokenize 1 "a b c") 1).advance.snippet? .wraps 1 18446744073709551615 =
      some [⟨.name, "a", " ", 1⟩] := by
  refine ⟨fun overflow => ?_, ?_⟩
  · cases overflow <;> decide +kernel
  · decide +kernel

end Stencil
