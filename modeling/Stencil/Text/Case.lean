import Stencil.Text.Basic
import Stencil.Text.CaseTable

/-!
# Upper and lower case

The full case mappings of Unicode: one character may become several, and a capital sigma that ends
a word becomes the final form.
-/

namespace Stencil

private def mapRuns (runs : List CaseRun) (c : Char) : Char :=
  Char.ofNat ((runs.findSome? (·.map? c.toNat)).getD c.toNat)

def upperCase (c : Char) : Text :=
  if c.toNat < 0x80 then [c.toUpper]
  else match upperExpansions.lookup c.toNat with
    | some codes => codes.map Char.ofNat
    | none => [mapRuns upperRuns c]

/-- Lower case without regard to the neighbours. -/
def lowerCase (c : Char) : Text :=
  if c.toNat < 0x80 then [c.toLower]
  else if c = '\u0130' then ['i', '\u0307']
  else [mapRuns lowerRuns c]

def isCased (c : Char) : Bool :=
  c.isAlpha || (0x80 ≤ c.toNat && isWithin casedRanges c)

def isCaseIgnorable (c : Char) : Bool := isWithin caseIgnorableRanges c

namespace Text

def upper (t : Text) : Text := t.flatMap upperCase

/-- Past what the case ignores, a cased character comes first. -/
def startsCased (t : Text) : Bool := (t.dropWhile isCaseIgnorable).head?.any isCased

/-- Lower case of `t`, where `before` holds what precedes it, nearest first. -/
def lowerAfter (before : Text) : Text → Text
  | [] => []
  | 'Σ' :: rest =>
    (if startsCased before && !startsCased rest then 'ς' else 'σ') :: lowerAfter ('Σ' :: before) rest
  | c :: rest => lowerCase c ++ lowerAfter (c :: before) rest

def lower (t : Text) : Text := lowerAfter [] t

end Text

end Stencil
