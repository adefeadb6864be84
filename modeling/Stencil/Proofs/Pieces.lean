import Mathlib.Data.List.Infix
import Mathlib.Data.List.TakeWhile
import Stencil.Proofs.Cuts
import Stencil.Template.Segment

/-!
# Pieces of templates

What an opening brace starts, as it stands in the template. A text that is valid as a piece is read
as that piece, and nothing else is.
-/

namespace Stencil

namespace Segment

/-- A piece as it stands in a template, without its opening brace. -/
def Piece.source : Piece → Text
  | .brace => []
  | .comment inside => openComment :: (inside ++ closeComment)
  | .raw body inside => body ++ '\x7d' :: (inside ++ closeRaw)
  | .tag body => body ++ ['\x7d']

theorem comment_source {t rest : Text} {found : Piece} (h : comment t = .ok (found, rest)) :
    openComment :: t = found.source ++ rest := by
  unfold comment at h
  split at h
  · rename_i hcut
    cases h
    simp [Piece.source, Text.cut?_append hcut]
  · cases h

theorem raw_source {line : Nat} {body t rest : Text} {found : Piece}
    (h : raw line body t = .ok (found, rest)) : body ++ '\x7d' :: t = found.source ++ rest := by
  unfold raw at h
  split at h
  · rename_i hcut
    cases h
    simp [Piece.source, Text.cut?_append hcut]
  · cases h

theorem tagOrRaw_source {line : Nat} {t rest : Text} {found : Piece}
    (h : tagOrRaw line t = .ok (found, rest)) : t = found.source ++ rest := by
  unfold tagOrRaw at h
  split at h
  · rename_i hend
    rw [← tagEnd?_append hend]
    split at h
    · exact raw_source h
    · cases h
      simp [Piece.source]
  · cases h

theorem piece_source {line : Nat} {t rest : Text} {found : Piece}
    (h : piece line t = .ok (found, rest)) : t = found.source ++ rest := by
  unfold piece at h
  split at h
  · cases h
    rfl
  · split at h
    · cases h
      rfl
    · split at h
      · rename_i hc
        rw [hc]
        exact comment_source h
      · exact tagOrRaw_source h

/-! ## Tags -/

/-- A brace behind the text closes a tag that holds the text, and no brace before it does. -/
def Closes (body : Text) : Prop := tagEnd? .plain 0 (body ++ ['\x7d']) = some (body, [])

instance : DecidablePred Closes := fun body =>
  inferInstanceAs (Decidable (tagEnd? .plain 0 (body ++ ['\x7d']) = some (body, [])))

/-- Where a tag ends does not depend on what stands behind it. -/
theorem tagEnd?_other {mode : Mode} {depth : Nat} {t body rest : Text}
    (h : tagEnd? mode depth t = some (body, rest)) (other : Text) :
    tagEnd? mode depth (body ++ '\x7d' :: other) = some (body, other) := by
  induction t generalizing mode depth body with
  | nil => simp [tagEnd?] at h
  | cons c t ih =>
    rw [tagEnd?] at h
    split at h
    · rename_i hend
      obtain ⟨rfl, -⟩ := Prod.mk.inj (Option.some.inj h)
      simp only [Bool.and_eq_true, decide_eq_true_eq] at hend
      simp [tagEnd?, hend.1.1, hend.1.2]
    · rename_i hend
      obtain ⟨⟨inside, _⟩, hinside, heq⟩ := Option.map_eq_some_iff.mp h
      obtain ⟨rfl, rfl⟩ := Prod.mk.inj heq
      rw [List.cons_append, tagEnd?, if_neg hend, ih hinside]
      rfl

theorem closes_of_tagEnd? {t body rest : Text} (h : tagEnd? .plain 0 t = some (body, rest)) :
    Closes body :=
  tagEnd?_other h []

/-! ## Pieces -/

namespace Piece

/-- What stands in the template is this piece, if `rest` follows. -/
def Valid (rest : Text) : Piece → Prop
  | .brace => rest.head?.all isBlank = true
  | .comment inside => ¬ closeComment <:+: inside
  | .raw body inside => Closes body ∧ body.trimEnd = rawTag ∧ ¬ closeRaw <:+: inside
  | .tag body => Closes body ∧ body.trimEnd ≠ rawTag ∧
      ∀ c ∈ body.head?, isBlank c = false ∧ c ≠ openComment

def isTag : Piece → Bool
  | .tag _ => true
  | _ => false

/-- The text that the piece stands for. -/
def content : Piece → Text
  | .brace => openTag
  | .raw _ inside => inside
  | .comment _ | .tag _ => []

end Piece

theorem valid_of_tagOrRaw {line : Nat} {c : Char} {t rest : Text} {found : Piece}
    (hblank : isBlank c = false) (hcomment : c ≠ openComment)
    (h : tagOrRaw line (c :: t) = .ok (found, rest)) : found.Valid rest := by
  unfold tagOrRaw at h
  split at h
  · rename_i body after hend
    have hcloses : Closes body := closes_of_tagEnd? hend
    split at h
    · rename_i hraw
      unfold raw at h
      split at h
      · rename_i hcut
        cases h
        exact ⟨hcloses, hraw, Text.not_infix_of_cut? (by decide) hcut⟩
      · cases h
    · rename_i hraw
      cases h
      refine ⟨hcloses, hraw, fun x hx => ?_⟩
      -- The text of a tag starts where the tag does.
      obtain rfl : x = c := by
        have hjoin := tagEnd?_append hend
        cases body with
        | nil => simp at hx
        | cons y body =>
          obtain ⟨rfl, -⟩ := List.cons.inj hjoin
          simpa using hx.symm
      exact ⟨hblank, hcomment⟩
  · cases h

theorem valid_of_piece {line : Nat} {t rest : Text} {found : Piece}
    (h : piece line t = .ok (found, rest)) : found.Valid rest := by
  unfold piece at h
  split at h
  · cases h
    rfl
  · split at h
    · rename_i hblank
      cases h
      simpa [Piece.Valid] using hblank
    · rename_i hblank
      split at h
      · unfold comment at h
        split at h
        · rename_i hcut
          cases h
          exact Text.not_infix_of_cut? (by decide) hcut
        · cases h
      · rename_i hcomment
        exact valid_of_tagOrRaw (Bool.of_not_eq_true hblank) hcomment h

theorem Closes.tagOrRaw_eq {body : Text} (h : Closes body) (line : Nat) (rest : Text) :
    tagOrRaw line (body ++ '\x7d' :: rest) =
      if body.trimEnd = rawTag then raw line body rest else .ok (.tag body, rest) := by
  rw [tagOrRaw, tagEnd?_other h rest]

theorem exists_blank_of_trimEnd (t : Text) :
    ∃ space, (∀ c ∈ space, isBlank c = true) ∧ t = t.trimEnd ++ space := by
  refine ⟨(t.reverse.takeWhile isBlank).reverse, ?_, ?_⟩
  · intro c hc
    exact List.mem_takeWhile_imp (List.mem_reverse.mp hc)
  · rw [Text.trimEnd, ← List.reverse_append, List.takeWhile_append_dropWhile, List.reverse_reverse]

theorem exists_of_trimEnd {body : Text} {c : Char} {t : Text} (h : body.trimEnd = c :: t) :
    ∃ more, body = c :: more := by
  obtain ⟨space, -, hbody⟩ := exists_blank_of_trimEnd body
  rw [h] at hbody
  exact ⟨_, hbody⟩

theorem Piece.Valid.piece_eq {found : Piece} {rest : Text} (h : found.Valid rest) (line : Nat) :
    piece line (found.source ++ rest) = .ok (found, rest) := by
  cases found with
  | brace =>
    cases rest with
    | nil => rfl
    | cons c rest => exact if_pos h
  | comment inside =>
    have hcut : Text.cut? closeComment (inside ++ (closeComment ++ rest)) = some (inside, rest) :=
      Text.cut?_append_mark (by decide) h rest
    have hblank : isBlank openComment = false := by decide
    simp [Piece.source, piece, hblank, Segment.comment, hcut]
  | raw body inside =>
    obtain ⟨hcloses, hraw, hinside⟩ := h
    obtain ⟨more, rfl⟩ := exists_of_trimEnd (c := 'i') hraw
    have hcut : Text.cut? closeRaw (inside ++ (closeRaw ++ rest)) = some (inside, rest) :=
      Text.cut?_append_mark (by decide) hinside rest
    have hread := hcloses.tagOrRaw_eq line (inside ++ (closeRaw ++ rest))
    rw [if_pos hraw, Segment.raw, hcut] at hread
    have hblank : isBlank 'i' = false := by decide
    simpa [Piece.source, piece, hblank, openComment] using hread
  | tag body =>
    obtain ⟨hcloses, hraw, hhead⟩ := h
    have hread := hcloses.tagOrRaw_eq line rest
    rw [if_neg hraw] at hread
    cases body with
    | nil => exact hread
    | cons c body =>
      obtain ⟨hblank, hcomment⟩ := hhead c rfl
      simpa [Piece.source, piece, hblank, hcomment] using hread

end Segment

end Stencil
