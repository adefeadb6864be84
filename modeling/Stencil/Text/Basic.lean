import Stencil.Text.Blank

/-!
# Text

Templates, tokens and scripts are lists of characters. A string literal stands for its characters
wherever a text is expected.
-/

namespace Stencil

abbrev Text := List Char

instance : Coe String Text := ⟨String.toList⟩

instance : LawfulBEq Text := inferInstance

namespace Text

/-- A number in decimal. -/
def ofNat (n : Nat) : Text := Nat.toDigits 10 n

/-- How many line feeds there are. -/
def newlines (t : Text) : Nat := t.count '\n'

theorem newlines_append (t u : Text) : newlines (t ++ u) = newlines t + newlines u :=
  List.count_append

theorem newlines_cons {c : Char} (h : c ≠ '\n') (t : Text) : newlines (c :: t) = newlines t :=
  List.count_cons_of_ne h

def trimStart (t : Text) : Text := t.dropWhile isBlank

def trimEnd (t : Text) : Text := (t.reverse.dropWhile isBlank).reverse

def trim (t : Text) : Text := t.trimStart.trimEnd

/-- The text is no later than the other one in the order of code points. -/
def precedes : Text → Text → Bool
  | [], _ => true
  | _ :: _, [] => false
  | a :: as, b :: bs => if a = b then precedes as bs else a < b

/-- The text before and after the first place where `mark` stands. `mark` is not empty. -/
def cut? (mark : Text) : Text → Option (Text × Text)
  | [] => none
  | c :: rest =>
    if mark.isPrefixOf (c :: rest) then some ([], (c :: rest).drop mark.length)
    else (cut? mark rest).map fun (before, after) => (c :: before, after)

theorem cut?_append {mark t before after : Text} (h : cut? mark t = some (before, after)) :
    before ++ mark ++ after = t := by
  induction t generalizing before after with
  | nil => simp [cut?] at h
  | cons c rest ih =>
    unfold cut? at h
    split at h
    · rename_i hmark
      obtain ⟨u, hu⟩ := List.isPrefixOf_iff_prefix.1 hmark
      simp only [Option.some.injEq, Prod.mk.injEq] at h
      obtain ⟨rfl, rfl⟩ := h
      simp [← hu]
    · simp only [Option.map_eq_some_iff, Prod.mk.injEq] at h
      obtain ⟨⟨a, b⟩, hab, rfl, rfl⟩ := h
      simp [← ih hab]

/--
The lines of a text. A carriage return right before a line feed belongs to the line's end, and a
line feed at the very end starts no further line.
-/
def lines : Text → List Text
  | [] => []
  | '\n' :: rest => [] :: lines rest
  | '\r' :: '\n' :: rest => [] :: lines rest
  | c :: rest =>
    match lines rest with
    | [] => [[c]]
    | line :: more => (c :: line) :: more

end Text

end Stencil
