import Stencil.Proofs.Parts

/-!
# Where tags stand

A tag that the scan finds stands in the source between two braces, and its line is that of the
opening one: one more than the line feeds before it.
-/

namespace Stencil

namespace Segment

theorem newlines_source (found : Piece) : Text.newlines found.source = found.newlines := by
  have hcomment : Text.newlines closeComment = 0 := by decide
  have hraw : Text.newlines closeRaw = 0 := by decide
  cases found with
  | brace => rfl
  | comment inside =>
    rw [Piece.source, Text.newlines_cons (by decide), Text.newlines_append, hcomment]
    rfl
  | raw body inside =>
    rw [Piece.source, Text.newlines_append, Text.newlines_cons (by decide), Text.newlines_append, hraw]
    rfl
  | tag body =>
    rw [Piece.source, Text.newlines_append]
    rfl

theorem tag_not_mem_literals (line : Nat) (body t : Text) : Segment.tag line body ∉ literals t := by
  unfold literals
  split <;> simp

theorem tag_or_later {t body body' : Text} {line line' : Nat} {more before after : List Segment}
    (h : literals t ++ .tag line body :: more = before ++ .tag line' body' :: after) :
    (line' = line ∧ body' = body ∧ after = more) ∨
      ∃ between, more = between ++ .tag line' body' :: after := by
  rcases List.append_eq_append_iff.mp h with ⟨more', -, htags⟩ | ⟨texts, htexts, htags⟩
  · cases more' with
    | nil =>
      cases htags
      exact .inl ⟨rfl, rfl, rfl⟩
    | cons first between =>
      cases htags
      exact .inr ⟨between, rfl⟩
  · cases texts with
    | nil =>
      cases htags
      exact .inl ⟨rfl, rfl, rfl⟩
    | cons first texts =>
      cases htags
      exact absurd (by simp [htexts]) (tag_not_mem_literals line' body' t)

/--
A tag among the segments. What stands before it fixes its line, and what stands behind it gives the
segments that follow.
-/
theorem scanFrom_tag {line tagLine : Nat} {pending : Pile} {t body : Text}
    {before after : List Segment}
    (h : (scanFrom line pending t).segments = before ++ .tag tagLine body :: after) :
    ∃ front back, t = front ++ '\x7b' :: (body ++ '\x7d' :: back) ∧
      tagLine = line + Text.newlines front ∧
      (scanFrom (tagLine + Text.newlines body) {} back).segments = after := by
  induction hn : t.length using Nat.strongRecOn generalizing t line pending before with
  | ind n ih =>
  subst hn
  cases hcut : Text.cut? openTag t with
  | none =>
    rw [scanFrom_none hcut] at h
    refine absurd ?_ (tag_not_mem_literals tagLine body (pending.text ++ t))
    rw [show literals (pending.text ++ t) = _ from h]
    simp
  | some cut =>
    obtain ⟨plain, behind⟩ := cut
    have ht : t = plain ++ '\x7b' :: behind := by
      rw [← Text.cut?_append hcut]
      simp [openTag]
    cases hpiece : piece (line + Text.newlines plain) behind with
    | error fault =>
      rw [scanFrom_fault hcut hpiece] at h
      simp at h
    | ok found =>
      obtain ⟨found, rest⟩ := found
      have hsource := piece_source hpiece
      have hlength : rest.length < t.length :=
        (length_le_of_piece hpiece).trans_lt (length_lt_of_cut hcut)
      -- A tag in `rest` is one in `t`, further back by what was passed.
      have later {pending' : Pile} {before' : List Segment}
          (h' : (scanFrom (line + Text.newlines plain + found.newlines) pending' rest).segments =
            before' ++ .tag tagLine body :: after) :
          ∃ front back, t = front ++ '\x7b' :: (body ++ '\x7d' :: back) ∧
            tagLine = line + Text.newlines front ∧
            (scanFrom (tagLine + Text.newlines body) {} back).segments = after := by
        obtain ⟨front, back, hrest, hline, hback⟩ := ih _ hlength h' rfl
        refine ⟨plain ++ '\x7b' :: (found.source ++ front), back, ?_, ?_, hback⟩
        · rw [ht, hsource, hrest]
          simp
        · rw [hline, Text.newlines_append, Text.newlines_cons (by decide), Text.newlines_append, newlines_source]
          omega
      rw [scanFrom_piece hcut hpiece] at h
      cases found with
      | brace => exact later h
      | comment inside => exact later h
      | raw tag inside => exact later h
      | tag inside =>
        simp only [scanBehind, Scan.after, List.append_assoc, List.singleton_append] at h
        rcases tag_or_later h with ⟨rfl, rfl, rfl⟩ | ⟨between, hmore⟩
        · refine ⟨plain, rest, ?_, rfl, rfl⟩
          rw [ht, hsource]
          simp [Piece.source]
        · exact later hmore

end Segment

end Stencil
