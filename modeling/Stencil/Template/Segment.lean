import Stencil.Fault
import Stencil.Text.Pile

/-!
# Segments

A template is cut into literal text and tags before anything is compiled. Comments vanish, and what
stands between `ignore` tags is text, so text on both sides of them makes one segment.
-/

namespace Stencil

inductive Segment where
  | literal (text : Text)
  /-- What stands between the braces, and the line of the opening one. -/
  | tag (line : Nat) (body : Text)
deriving DecidableEq, Repr

namespace Segment

/-! ## Where a tag ends -/

/-- Whether the end of a tag can come now, or a string has to end first. -/
inductive Mode where
  | plain
  | quoted (quote : Char)
  /-- After a backslash in a string. -/
  | escaped (quote : Char)
deriving DecidableEq, Repr

def Mode.next (c : Char) : Mode → Mode
  | .plain => if c = '"' || c = '\x27' then .quoted c else .plain
  | .quoted quote =>
    if c = '\\' then .escaped quote else if c = quote then .plain else .quoted quote
  | .escaped quote => .quoted quote

/-- The number of braces open after `c`. -/
def depthAfter (c : Char) (mode : Mode) (depth : Nat) : Nat :=
  match mode, c with
  | .plain, '\x7b' => depth + 1
  | .plain, '\x7d' => depth - 1
  | _, _ => depth

/-- The text up to the first closing brace outside of strings and of inner braces, and the rest. -/
def tagEnd? (mode : Mode) (depth : Nat) : Text → Option (Text × Text)
  | [] => none
  | c :: t =>
    if mode = .plain && depth = 0 && c = '\x7d' then some ([], t)
    else (tagEnd? (mode.next c) (depthAfter c mode depth) t).map fun (body, rest) => (c :: body, rest)

theorem tagEnd?_append {mode : Mode} {depth : Nat} {t body rest : Text}
    (h : tagEnd? mode depth t = some (body, rest)) : body ++ '\x7d' :: rest = t := by
  induction t generalizing mode depth body rest with
  | nil => simp [tagEnd?] at h
  | cons c t ih =>
    unfold tagEnd? at h
    split at h
    · rename_i hc
      simp only [Option.some.injEq, Prod.mk.injEq] at h
      obtain ⟨rfl, rfl⟩ := h
      simp_all
    · simp only [Option.map_eq_some_iff, Prod.mk.injEq] at h
      obtain ⟨⟨a, b⟩, hab, rfl, rfl⟩ := h
      simp [ih hab]

/-! ## Pieces -/

/-- What an opening brace can start. -/
inductive Piece where
  /-- Nothing: the brace is text. -/
  | brace
  /-- A comment, with what stands in it. -/
  | comment (inside : Text)
  /-- A raw region: the tag that opens it and what stands in it. -/
  | raw (body inside : Text)
  | tag (body : Text)
deriving DecidableEq, Repr

def openTag : Text := "\x7b"

def openComment : Char := '*'

def closeComment : Text := "*\x7d"

def rawTag : Text := "ignore"

def closeRaw : Text := "\x7b/ignore\x7d"

/-- The comment that starts at `t`, after its opening mark, and what follows it. -/
def comment (t : Text) : Except Fault (Piece × Text) :=
  match Text.cut? closeComment t with
  | some (inside, rest) => .ok (.comment inside, rest)
  | none => .error (.unterminated .comment)

/-- The raw region that the tag `body` on `line` opens. -/
def raw (line : Nat) (body t : Text) : Except Fault (Piece × Text) :=
  match Text.cut? closeRaw t with
  | some (inside, rest) => .ok (.raw body inside, rest)
  | none => .error (.unclosed rawTag line)

/-- The tag or raw region that starts at `t`. -/
def tagOrRaw (line : Nat) (t : Text) : Except Fault (Piece × Text) :=
  match tagEnd? .plain 0 t with
  | some (body, rest) => if body.trimEnd = rawTag then raw line body rest else .ok (.tag body, rest)
  | none => .error (.unterminated .tag)

/-- What an opening brace on `line` starts, where `t` follows it, and what comes after that. -/
def piece (line : Nat) (t : Text) : Except Fault (Piece × Text) :=
  match t with
  | [] => .ok (.brace, t)
  | c :: rest =>
    if isBlank c then .ok (.brace, t)
    else if c = openComment then comment rest
    else tagOrRaw line t

theorem length_lt_of_cut {t before after : Text} (h : Text.cut? openTag t = some (before, after)) :
    after.length < t.length := by
  have := congrArg List.length (Text.cut?_append h)
  simp [openTag] at this
  omega

/-- Line feeds inside a piece. -/
def Piece.newlines : Piece → Nat
  | .brace => 0
  | .comment inside => Text.newlines inside
  | .raw body inside => Text.newlines body + Text.newlines inside
  | .tag body => Text.newlines body

theorem length_le_of_piece {line : Nat} {t rest : Text} {p : Piece}
    (h : piece line t = .ok (p, rest)) : rest.length ≤ t.length := by
  have cut {mark s before after : Text} (hc : Text.cut? mark s = some (before, after)) :
      after.length ≤ s.length := by
    have := congrArg List.length (Text.cut?_append hc)
    simp only [List.length_append] at this
    omega
  unfold piece at h
  split at h
  · cases h; simp
  · rename_i c s
    split at h
    · cases h; simp
    · split at h
      · unfold comment at h
        split at h
        · rename_i hc
          cases h
          have := cut hc
          simp only [List.length_cons]
          omega
        · cases h
      · unfold tagOrRaw at h
        split at h
        · rename_i body after ht
          have hlen := congrArg List.length (tagEnd?_append ht)
          simp only [List.length_append, List.length_cons] at hlen
          split at h
          · unfold raw at h
            split at h
            · rename_i hc
              cases h
              have := cut hc
              simp only [List.length_cons]
              omega
            · cases h
          · cases h
            simp only [List.length_cons]
            omega
        · cases h

/-! ## Segments of a template -/

/-- A text as a segment; nothing for an empty one. -/
def literals (t : Text) : List Segment := if t.isEmpty then [] else [.literal t]

/-- The segments of a template. If one cannot be read to its end, the fault and its line follow. -/
structure Scan where
  segments : List Segment
  fault? : Option (Nat × Fault) := none
deriving DecidableEq, Repr

def Scan.after (segments : List Segment) (scan : Scan) : Scan :=
  { scan with segments := segments ++ scan.segments }

/-- The segments of `t`, which starts on `line` and is preceded by the text `pending`. -/
def scanFrom (line : Nat) (pending : Pile) (t : Text) : Scan :=
  match _ : Text.cut? openTag t with
  | none => { segments := literals (pending.add t).text }
  | some (plain, after) =>
    let line := line + Text.newlines plain
    let pending := pending.add plain
    match _ : piece line after with
    | .error fault => { segments := [], fault? := some (line, fault) }
    | .ok (p, rest) =>
      let next := line + p.newlines
      match p with
      | .brace => scanFrom next (pending.add openTag) rest
      | .comment _ => scanFrom next pending rest
      | .raw _ inside => scanFrom next (pending.add inside) rest
      | .tag body => (scanFrom next {} rest).after (literals pending.text ++ [.tag line body])
termination_by t.length
decreasing_by
  all_goals
    have hle := length_le_of_piece ‹_›
    have hlt := length_lt_of_cut ‹_›
    omega

def scan (source : Text) : Scan := scanFrom 1 {} source

end Segment

end Stencil
