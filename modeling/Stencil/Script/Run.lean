import Stencil.Script.Eval
import Stencil.Script.Step
import Stencil.Text.Pile

/-!
# Running scripts

Runs the steps of a script and gathers its output. A script may run forever, so a run has a number
of steps it may take at most.
-/

namespace Stencil.Script

/-- What a run comes to. -/
inductive Outcome (α : Type) where
  | done (result : α)
  /-- A step that cannot be taken. -/
  | stuck
  /-- The run is not over after the steps it may take. -/
  | exhausted
deriving Repr

namespace Outcome

def bind (o : Outcome α) (f : α → Outcome β) : Outcome β :=
  match o with
  | .done a => f a
  | .stuck => .stuck
  | .exhausted => .exhausted

instance : Monad Outcome where
  pure := .done
  bind := bind

def ofOption : Option α → Outcome α
  | some a => .done a
  | none => .stuck

end Outcome

/-- How steps end: after the last one, or because a loop is to be left or to go on. -/
inductive Flow where
  | normal
  | broken
  | continued
deriving DecidableEq, Repr

structure State where
  bindings : Variables
  printed : Pile := {}

namespace State

def assign (s : State) (name : Text) (value : Value) : State :=
  { s with bindings := s.bindings.put name value }

def print (s : State) (text : Text) : State := { s with printed := s.printed.add text }

/-- All that was printed. -/
def output (s : State) : Text := s.printed.text

theorem output_print (s : State) (text : Text) : (s.print text).output = s.output ++ text := by
  simp [print, output]

def eval (s : State) (form : Form) : Outcome Value := .ofOption (Script.eval s.bindings form)

def evalNumber (s : State) (form : Form) : Outcome Float := return (← s.eval form).toNumber

end State

/-- Runs steps from a state. -/
abbrev Runner := List Step → State → Outcome (Flow × State)

/-- Assigns to a variable; nothing else can be assigned to. -/
def assignTo (s : State) (target : Form) (value : Value) : Outcome State :=
  match target with
  | .list [.atom head, .atom name] =>
    if head = "var".toList then return s.assign name value else .stuck
  | _ => .stuck

/-- Runs the first arm whose condition holds. -/
def runArms (run : Runner) (s : State) : List Arm → Outcome (Flow × State)
  | [] => return (.normal, s)
  | .mk none body :: _ => run body s
  | .mk (some condition) body :: more => do
    if (← s.eval condition).isTrue then run body s else runArms run s more

/-- The keys and items that a loop goes through. -/
def entries : Value → List (Value × Value)
  | .list items => items.zipIdx.map fun (item, i) => (.whole i, item)
  | .object fields => fields.map fun (name, value) => (.string name, value)
  | _ => []

/-- Runs the body once for each entry, until it is left. -/
def runEntries (run : Runner) (key : Option Text) (value : Text) (body : List Step) :
    List (Value × Value) → State → Outcome State
  | [], s => return s
  | (k, v) :: more, s => do
    let s := match key with
      | some name => s.assign name k
      | none => s
    let (flow, s) ← run body (s.assign value v)
    if flow = .broken then return s else runEntries run key value body more s

/-- The counter has not passed the end. -/
def isWithin (x last step : Float) : Bool := if step > 0 then x ≤ last else x ≥ last

/-- Runs the body while the counter has not passed the end. -/
def runRange (run : Runner) (name : Text) (last step : Float) (body : List Step) :
    Nat → Float → State → Outcome State
  | 0, _, _ => .exhausted
  | bound + 1, x, s => do
    if isWithin x last step then
      let (flow, s) ← run body (s.assign name (.ofNumber x))
      if flow = .broken then return s else runRange run name last step body bound (x + step) s
    else return s

/-- Runs the body while the condition holds. -/
def runWhile (run : Runner) (condition : Form) (body : List Step) : Nat → State → Outcome State
  | 0, _ => .exhausted
  | bound + 1, s => do
    if (← s.eval condition).isTrue then
      let (flow, s) ← run body s
      if flow = .broken then return s else runWhile run condition body bound s
    else return s

/-- The steps from the first case on that equals the subject. -/
def findCase (s : State) (subject : Value) : List Step → Outcome (Option (List Step))
  | [] => return none
  | .case value :: more => do
    if (← s.eval value).equal subject then return some (.case value :: more)
    else findCase s subject more
  | _ :: more => findCase s subject more

/-- The steps from the first default on. -/
def findDefault : List Step → Option (List Step)
  | [] => none
  | .default :: more => some (.default :: more)
  | _ :: more => findDefault more

/-- Runs a step. `run` runs the steps inside it, and a loop goes round at most `bound` times. -/
def runStep (run : Runner) (bound : Nat) (step : Step) (s : State) : Outcome (Flow × State) :=
  match step with
  | .text value => return (.normal, s.print value)
  | .echo value => return (.normal, s.print (← s.eval value).display)
  | .set target value => return (.normal, ← assignTo s target (← s.eval value))
  | .branch arms => runArms run s arms
  | .foreach list key value body otherwise => do
    match entries (← s.eval list) with
    | [] => run otherwise s
    | items => return (.normal, ← runEntries run key value body items s)
  | .forRange name first last step body otherwise => do
    let first ← s.evalNumber first
    let last ← s.evalNumber last
    let step ← s.evalNumber step
    if isWithin first last step then
      return (.normal, ← runRange run name last step body bound first s)
    else run otherwise s
  | .whileLoop condition body => return (.normal, ← runWhile run condition body bound s)
  | .switch subject body => do
    match (← findCase s (← s.eval subject) body).or (findDefault body) with
    | some steps =>
      let (flow, s) ← run steps s
      return (if flow = .continued then .continued else .normal, s)
    | none => return (.normal, s)
  | .case _ | .default => return (.normal, s)
  | .breakLoop => return (.broken, s)
  | .continueLoop => return (.continued, s)

/-- Runs steps, at most `fuel` of them one after the other or inside each other. -/
def runSteps : Nat → Runner
  | 0, _, _ => .exhausted
  | _ + 1, [], s => return (.normal, s)
  | fuel + 1, step :: more, s => do
    let (flow, s) ← runStep (runSteps fuel) fuel step s
    if flow = .normal then runSteps fuel more s else return (flow, s)

/-- The output of a script. A script that ends by leaving a loop it is not in is stuck. -/
def render (fuel : Nat) (code : Text) (bindings : Variables) : Outcome Text := do
  let steps ← .ofOption (parse code)
  let (flow, s) ← runSteps fuel steps { bindings }
  if flow = .normal then return s.output else .stuck

end Stencil.Script
