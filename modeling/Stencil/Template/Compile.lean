import Stencil.Dialect
import Stencil.Template.Segment

/-!
# Compiling templates

The segments of a template are compiled in order. Open blocks lie on a stack; a child tag goes to
the innermost block that has it. Statements come out in the order of the source, with a marker
`@line` before those of a new line.
-/

namespace Stencil

namespace Template

open Reading Grammar

/-! ## Child tags -/

/-- The innermost open block that has `child`, the blocks inside it and those around it. -/
def findOwner? (d : Dialect) (child : Text) :
    List Frame → Option (List Frame × Frame × BlockHandler × List Frame)
  | [] => none
  | frame :: outer =>
    match d.child? frame child with
    | some handler => some ([], frame, handler, outer)
    | none => (findOwner? d child outer).map fun (inner, owner, handler, outer) =>
      (frame :: inner, owner, handler, outer)

/-- The fault of a child tag that is too deep below its owner. -/
def misplaced (child : Text) (owner inside : Frame) : Fault :=
  .misplaced child owner.opening.name owner.opening.line inside.opening.name

/-- Gives a child tag to its owner, which is the innermost block or lets the tag float. -/
def compileChild (d : Dialect) (options : Options) (child : Text) (inner : List Frame)
    (owner : Frame) (handler : BlockHandler) (outer : List Frame) :
    Reading (Statement × List Frame) := do
  if let some top := inner.head? then
    unless d.floats owner child do throw (misplaced child owner top)
  advance
  let (statement, owner) ← handler (d.scope options) owner
  return (statement, inner ++ owner :: outer)

/-! ## Tags -/

/-- Opens a block. -/
def compileOpener (scope : Scope) (name : Text) (line : Nat) (opener : BlockHandler)
    (frames : List Frame) : Reading (Statement × List Frame) := do
  let (statement, frame) ← opener scope (.opened name line)
  return (statement, frame :: frames)

/-- Compiles a tag of the dialect. -/
def compileTag (scope : Scope) (tag : Tag) (line : Nat) (frames : List Frame) :
    Reading (Statement × List Frame) := do
  match tag.behaviour with
  | .inline handler => return (← handler scope, frames)
  | .function symbol positional => return (.echoCall symbol (← params scope positional), frames)
  | .block { opener, .. } | .blockFunction _ opener _ =>
    compileOpener scope tag.name line opener frames

/-- Why `name` is no tag here. -/
def unknown (d : Dialect) (name : Text) : Fault :=
  match d.owners name with
  | [] => .unknownTag name (d.suggest? name)
  | owners => .orphan name owners

/-- A tag that starts with a word: a child tag, a tag of the dialect, or a call. -/
def compileNamed (d : Dialect) (options : Options) (name : Text) (line : Nat)
    (frames : List Frame) : Reading (Statement × List Frame) := do
  let scope := d.scope options
  match findOwner? d name frames with
  | some (inner, owner, handler, outer) => compileChild d options name inner owner handler outer
  | none =>
    match d.find? name with
    | some tag => advance; compileTag scope tag line frames
    | none =>
      if (← get).seesNext (mark "(") then return (.echo (← expression scope), frames)
      throw (unknown d name)

/-- The end of an open block, which the handler of its tag gives. -/
def closeFrame (d : Dialect) (options : Options) (frame : Frame) : Reading Statement := do
  let some block := d.block? frame.action | throw (.invalid frame.action "has no closing handler")
  let (statement, _) ← block.closer (d.scope options) frame
  return statement

/-- A closing tag. -/
def compileClose (d : Dialect) (options : Options) (name : Text) (frames : List Frame) :
    Reading (Statement × List Frame) := do
  if let some tag := d.find? name then
    unless tag.kind.isBlock do throw (.closedInline name tag.kind)
  match frames with
  | [] => throw (.mismatchedClose name none)
  | frame :: outer =>
    unless frame.action = name do
      throw (.mismatchedClose name (some (frame.opening.name, frame.opening.line)))
    return (← closeFrame d options frame, outer)

/-- The word that a tag starts with, unless it is a constant. -/
def tagName? (c : Cursor) : Option Text :=
  (c.current?.filter fun t => t.kind = .name && !t.isConstant).map Token.text

/-- Compiles what a tag says: it closes a block, starts with a word, or prints an expression. -/
def compileContent (d : Dialect) (options : Options) (line : Nat) (frames : List Frame) :
    Reading (Statement × List Frame) := do
  let c ← get
  if c.sees (mark "/") && c.seesNext [.kind .name] then
    advance
    compileClose d options (← takeAny) frames
  else match tagName? c with
    | some name => compileNamed d options name line frames
    | none => return (.echo (← expression (d.scope options)), frames)

/-- Compiles the inside of a tag, which has to be used up. -/
def compileBody (d : Dialect) (options : Options) (line : Nat) (frames : List Frame) :
    Reading (Statement × List Frame) := do
  let result ← compileContent d options line frames
  unless (← get).atEnd do refuse []
  return result

/-- A cursor on the inside of a tag, comments left out. -/
def bodyCursor (line : Nat) (body : Text) : Cursor :=
  (Cursor.ofText body line).filter (·.kind ≠ .comment)

/-! ## Output -/

/-- The script so far, and the line that the last marker names. -/
structure Output where
  /-- The lines of the script, the latest first. -/
  written : List Text := []
  mark? : Option Nat := none
deriving DecidableEq, Repr

namespace Output

/-- The lines of the script, in their order. -/
def lines (o : Output) : List Text := o.written.reverse

/-- Adds literal text. -/
def addText (o : Output) (value : Text) : Output :=
  { o with written := (Statement.text value).render :: o.written }

def marker (line : Nat) : Text := '@' :: Text.ofNat line

/-- The marker before a statement on `line`; none if the last one names that line. -/
def markers (o : Output) (line : Nat) : List Text :=
  if o.mark? = some line then [] else [marker line]

/-- Adds the statement of a tag on `line`, after a marker if the last one names another line. -/
def addStatement (o : Output) (line : Nat) (statement : Statement) : Output :=
  let code := statement.render
  if code.isEmpty then o
  else { written := (o.markers line ++ code.lines).reverse ++ o.written, mark? := some line }

/-- The script: every line with a line feed at its end. -/
def script (o : Output) : Text := o.lines.flatMap (· ++ ['\n'])

theorem lines_addText (o : Output) (value : Text) :
    (o.addText value).lines = o.lines ++ [(Statement.text value).render] := by
  simp [addText, lines]

theorem lines_addStatement (o : Output) (line : Nat) {statement : Statement}
    (h : statement.render ≠ []) :
    (o.addStatement line statement).lines = o.lines ++ (o.markers line ++ statement.render.lines) := by
  have hc : statement.render.isEmpty = false := by simpa using h
  simp [addStatement, lines, hc]

end Output

/-! ## Whole templates -/

/-- The open blocks, innermost first, and the output so far. -/
structure Progress where
  frames : List Frame := []
  output : Output := {}

/-- Compiles one segment. -/
def compileSegment (d : Dialect) (options : Options) (name : Text) (p : Progress) :
    Segment → Except Failure Progress
  | .literal text => .ok { p with output := p.output.addText text }
  | .tag line body =>
    match compileBody d options line p.frames (bodyCursor line body) with
    | .ok (statement, frames) _ => .ok { frames, output := p.output.addStatement line statement }
    | .error fault _ => .error (Failure.of name line fault)

/-- The failure of a template that ends inside a block. -/
def unclosed (name : Text) (frame : Frame) : Failure :=
  Failure.of name frame.opening.line (.unclosed frame.opening.name frame.opening.line)

/-- The render script of a template, or the first failure. -/
def compile (d : Dialect) (options : Options) (name : Text) (source : Text) :
    Except Failure Text := do
  let scan := Segment.scan source
  let p ← scan.segments.foldlM (compileSegment d options name) {}
  if let some (line, fault) := scan.fault? then throw (Failure.of name line fault)
  if let some frame := p.frames.head? then throw (unclosed name frame)
  return p.output.script

end Template

end Stencil
