import Stencil.Script.Form

/-!
# Scripts as trees

A script is one statement a line. Here the lines are gathered into steps, with the body of a loop or
branch inside its step.
-/

namespace Stencil

mutual

inductive Step where
  | text (value : Text)
  | echo (value : Form)
  | set (target value : Form)
  | branch (arms : List Arm)
  | foreach (list : Form) (key : Option Text) (value : Text) (body otherwise : List Step)
  | forRange (name : Text) (first last step : Form) (body otherwise : List Step)
  | whileLoop (condition : Form) (body : List Step)
  | switch (subject : Form) (body : List Step)
  | case (value : Form)
  | default
  | breakLoop
  | continueLoop

/-- A body that runs if the condition holds, or if there is none. -/
inductive Arm where
  | mk (condition : Option Form) (body : List Step)

end

namespace Script

/-- A line of a script: the word it starts with and the forms after it. -/
structure Line where
  word : Text
  arguments : List Form

/-- A marker for a line of the template. -/
def isMarker (line : Text) : Bool := line.head? = some '@'

/-- The text before and after the first space. -/
def splitWord (line : Text) : Text × Text := (Text.cut? " " line).getD (line, [])

def Line.read? (line : Text) : Option Line := do
  let (word, rest) := splitWord line
  return { word, arguments := ← Form.readAll rest }

/-- The lines of a script without its markers. -/
def lines? (code : Text) : Option (List Line) :=
  (code.lines.filter fun l => !isMarker l && !l.isEmpty).mapM Line.read?

/--
Reads the steps up to a line that starts with one of the words, or up to the end. Gives the steps,
that line and the lines after it.
-/
abbrev BodyReader := List Text → List Line → Option (List Step × Option Line × List Line)

/-- The arms of a branch, where `condition` belongs to the first; at most `bound` of them. -/
def readArms (body : BodyReader) : Nat → Option Form → List Line → Option (List Arm × List Line)
  | 0, _, _ => none
  | bound + 1, condition, lines => do
    let (steps, stop?, rest) ← body ["elseif", "else", "end"] lines
    let stop ← stop?
    if stop.word = "end".toList then return ([.mk condition steps], rest)
    let next := if stop.word = "elseif".toList then stop.arguments.head? else none
    let (arms, rest) ← readArms body bound next rest
    return (.mk condition steps :: arms, rest)

/-- A body up to the end of its block, and what stands after the word `otherwise` in it. -/
def readElse (body : BodyReader) (otherwise : Text) (lines : List Line) :
    Option (List Step × List Step × List Line) := do
  let (steps, stop?, rest) ← body [otherwise, "end"] lines
  match stop? with
  | some stop =>
    if stop.word = otherwise then
      let (others, _, rest) ← body ["end"] rest
      return (steps, others, rest)
    else return (steps, [], rest)
  | none => return (steps, [], rest)

/-- The name of a key variable; an underscore stands for none. -/
def keyName (name : Text) : Option Text := if name = ['_'] then none else some name

/-- The step that starts with `line`. -/
def readStep (body : BodyReader) (line : Line) (rest : List Line) : Option (Step × List Line) :=
  match String.ofList line.word, line.arguments with
  | "text", .string value :: _ => return (.text value, rest)
  | "echo", value :: _ => return (.echo value, rest)
  | "set", target :: value :: _ => return (.set target value, rest)
  | "if", condition :: _ => do
    let (arms, rest) ← readArms body (rest.length + 1) (some condition) rest
    return (.branch arms, rest)
  | "foreach", list :: .atom key :: .atom value :: _ => do
    let (steps, others, rest) ← readElse body "foreachelse" rest
    return (.foreach list (keyName key) value steps others, rest)
  | "for", .atom name :: first :: last :: step :: _ => do
    let (steps, others, rest) ← readElse body "forelse" rest
    return (.forRange name first last step steps others, rest)
  | "while", condition :: _ => do
    let (steps, _, rest) ← body ["end"] rest
    return (.whileLoop condition steps, rest)
  | "switch", subject :: _ => do
    let (steps, _, rest) ← body ["end"] rest
    return (.switch subject steps, rest)
  | "case", value :: _ => return (.case value, rest)
  | "default", _ => return (.default, rest)
  | "break", _ => return (.breakLoop, rest)
  | "continue", _ => return (.continueLoop, rest)
  | _, _ => none

/-- Steps with at most `depth` lines. -/
def readBody : Nat → BodyReader
  | 0, _, lines => if lines.isEmpty then some ([], none, []) else none
  | _ + 1, _, [] => some ([], none, [])
  | depth + 1, stops, line :: rest =>
    if line.word ∈ stops then some ([], some line, rest)
    else do
      let (step, rest) ← readStep (readBody depth) line rest
      let (steps, stop?, rest) ← readBody depth stops rest
      return (step :: steps, stop?, rest)

/-- The steps of a script, if all its lines can be read. -/
def parse (code : Text) : Option (List Step) := do
  let lines ← lines? code
  let (steps, _, _) ← readBody lines.length [] lines
  return steps

end Script

end Stencil
