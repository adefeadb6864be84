import Stencil.Text.Basic

/-!
# Texts as bytes

Files hold bytes and texts are written to them in UTF-8. What is written reads back the same, and
bytes that are no UTF-8 are no text.
-/

namespace Stencil.Text

def encode (t : Text) : ByteArray := (String.ofList t).toUTF8

/-- The text that some bytes encode, if they do. -/
def decode? (bytes : ByteArray) : Option Text := bytes.utf8Decode?.map Array.toList

theorem encode_eq (t : Text) : encode t = t.utf8Encode := by simp [encode]

theorem decode?_encode (t : Text) : decode? (encode t) = some t := by
  simp [decode?, encode_eq, List.utf8Decode?_utf8Encode]

/-! ## Bytes that may be no text -/

/-- How many bytes follow a first byte, and the range of the one right after it. -/
def continuation? (first : UInt8) : Option (Nat × UInt8 × UInt8) :=
  if first < 0x80 then some (0, 0x80, 0xBF)
  else if first < 0xC2 then none
  else if first < 0xE0 then some (1, 0x80, 0xBF)
  else if first = 0xE0 then some (2, 0xA0, 0xBF)
  else if first = 0xED then some (2, 0x80, 0x9F)
  else if first < 0xF0 then some (2, 0x80, 0xBF)
  else if first = 0xF0 then some (3, 0x90, 0xBF)
  else if first < 0xF4 then some (3, 0x80, 0xBF)
  else if first = 0xF4 then some (3, 0x80, 0x8F)
  else none

/-- How many of the `count` bytes that should follow are there. -/
def continued (count : Nat) (low high : UInt8) (bytes : List UInt8) : Nat :=
  match count, bytes with
  | count + 1, byte :: rest =>
    if low ≤ byte ∧ byte ≤ high then continued count 0x80 0xBF rest + 1 else 0
  | _, _ => 0

/-- Shown in place of bytes that are no text. -/
def replacement : Char := '\uFFFD'

/-- Decodes bytes, with one replacement for every run that starts a character and breaks off. -/
def decodeLossy : List UInt8 → Text
  | [] => []
  | first :: rest =>
    match continuation? first with
    | none => replacement :: decodeLossy rest
    | some (count, low, high) =>
      let found := continued count low high rest
      let char? := if found = count then decode? ⟨(first :: rest.take count).toArray⟩ else none
      char?.getD [replacement] ++ decodeLossy (rest.drop found)
termination_by bytes => bytes.length

end Stencil.Text
