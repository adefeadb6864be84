import Stencil.Cursor.Report

/-!
# Faults

Why a template does not compile.
-/

namespace Stencil

/-- The four forms a tag can have. -/
inductive TagKind where
  | inline
  | block
  | function
  | blockFunction
deriving DecidableEq, Repr

namespace TagKind

/-- The tag stays open until it is closed by name. -/
def isBlock : TagKind → Bool
  | .block | .blockFunction => true
  | .inline | .function => false

def description : TagKind → Text
  | .inline => "an inline compiler"
  | .block => "a block compiler"
  | .function => "an inline function"
  | .blockFunction => "a block function"

end TagKind

/-- What a template leaves open at its end. -/
inductive Unterminated where
  | comment
  | tag
deriving DecidableEq, Repr

inductive Fault where
  /-- The inside of a tag does not go on as it should. -/
  | unexpected (report : Unexpected)
  /-- A block is still open at the end. -/
  | unclosed (tag : Text) (line : Nat)
  /-- A closing tag is not for the innermost open block, which is `open?` with its line. -/
  | mismatchedClose (tag : Text) (open? : Option (Text × Nat))
  | unknownTag (tag : Text) (suggestion : Option Text)
  /-- A closing tag names a tag that is no block. -/
  | closedInline (tag : Text) (kind : TagKind)
  | disallowedCall (name : Text)
  | unknownModifier (name : Text)
  /-- A child tag stands outside every block that has it. -/
  | orphan (tag : Text) (owners : List Text)
  /-- A child tag stands too deep below the block that has it. -/
  | misplaced (tag owner : Text) (ownerLine : Nat) (inside : Text)
  | unterminated (what : Unterminated)
  /-- A tag is not allowed in the state its block is in. -/
  | invalid (tag reason : Text)
deriving DecidableEq, Repr

namespace Fault

/-- A tag as reports show it. -/
def braced (tag : Text) : Text := "\x7b" ++ tag ++ "\x7d"

/-- Items with a comma between them. -/
def commaList : List Text → Text
  | [] => []
  | [item] => item
  | item :: more => item ++ ", " ++ commaList more

def message : Fault → Text
  | .unexpected report => report.message
  | .unclosed tag line => "unclosed tag " ++ braced tag ++ " opened on line " ++ Text.ofNat line
  | .mismatchedClose tag open? =>
    let state : Text := match open? with
      | some (name, line) => braced name ++ " opened on line " ++ Text.ofNat line ++ " is still open"
      | none => "nothing open"
    "unexpected closing tag " ++ braced ('/' :: tag) ++ ": " ++ state
  | .unknownTag tag suggestion =>
    let hint : Text := match suggestion with
      | some known => " (did you mean " ++ braced known ++ "?)"
      | none => []
    "unknown tag " ++ braced tag ++ hint
  | .closedInline tag kind => braced tag ++ " is " ++ kind.description ++ " and cannot be closed"
  | .disallowedCall name => "call to '" ++ name ++ "' is not allowed"
  | .unknownModifier name => "unknown modifier '" ++ name ++ "'"
  | .orphan tag owners => braced tag ++ " is only valid inside " ++ commaList (owners.map braced)
  | .misplaced tag owner ownerLine inside =>
    braced tag ++ " must be a direct child of " ++ braced owner ++ " (line " ++
      Text.ofNat ownerLine ++ "), found inside " ++ braced inside
  | .unterminated .comment => "unterminated comment"
  | .unterminated .tag => "unterminated tag"
  | .invalid tag reason => "invalid " ++ braced tag ++ ": " ++ reason

/-- The line a fault knows by itself, where it is better than that of the tag. -/
def line? : Fault → Option Nat
  | .unexpected report => some report.line
  | .unclosed _ line => some line
  | _ => none

end Fault

/-- A fault with the place where it was found. -/
structure Failure where
  template : Text
  line : Nat
  fault : Fault
deriving DecidableEq, Repr

namespace Failure

/-- A fault of the tag on `line`. -/
def of (template : Text) (line : Nat) (fault : Fault) : Failure :=
  { template, line := fault.line?.getD line, fault }

def message (f : Failure) : Text :=
  f.fault.message ++ " in " ++ f.template ++ " on line " ++ Text.ofNat f.line

end Failure

end Stencil
