import Mathlib.Data.List.Infix
import Stencil.Text.Basic

/-!
# Cutting at a mark

A text is cut at the first place where a mark stands: nothing before that place holds the mark, and
a text that holds no mark is not cut.
-/

namespace Stencil.Text

theorem not_infix_of_cut?_eq_none {mark t : Text} (hmark : mark ≠ [])
    (h : cut? mark t = none) : ¬ mark <:+: t := by
  induction t with
  | nil => simpa [List.infix_nil] using hmark
  | cons c t ih =>
    rw [cut?] at h
    split at h
    · cases h
    · rename_i hprefix
      rw [Option.map_eq_none_iff] at h
      rw [List.infix_cons_iff, not_or]
      exact ⟨by simpa [List.isPrefixOf_iff_prefix] using hprefix, ih h⟩

theorem not_infix_of_cut? {mark t before after : Text} (hmark : mark ≠ [])
    (h : cut? mark t = some (before, after)) : ¬ mark <:+: before := by
  induction t generalizing before with
  | nil => simp [cut?] at h
  | cons c t ih =>
    have hjoin := cut?_append h
    rw [cut?] at h
    split at h
    · cases h
      simpa [List.infix_nil] using hmark
    · rename_i hprefix
      obtain ⟨⟨front, back⟩, hcut, heq⟩ := Option.map_eq_some_iff.mp h
      obtain ⟨rfl, rfl⟩ := Prod.mk.inj heq
      rw [List.infix_cons_iff, not_or]
      refine ⟨fun hpre => hprefix ?_, ih hcut⟩
      rw [List.isPrefixOf_iff_prefix, ← hjoin, List.append_assoc]
      exact hpre.trans (List.prefix_append _ _)

/-- A mark is found where it stands, if its first character is not in it again. -/
theorem cut?_append_mark {c : Char} {m t : Text} (hc : c ∉ m) (ht : ¬ (c :: m) <:+: t)
    (rest : Text) : cut? (c :: m) (t ++ (c :: m ++ rest)) = some (t, rest) := by
  induction t with
  | nil => simp [cut?]
  | cons x t ih =>
    have hprefix : ¬ (c :: m) <+: (x :: t) ++ (c :: m ++ rest) := by
      intro hpre
      rcases List.prefix_or_prefix_of_prefix hpre (List.prefix_append (x :: t) _) with hin | ⟨s, hs⟩
      · exact ht hin.isInfix
      · -- The mark would reach into the one behind, so its first character would come again.
        rw [← hs, List.prefix_append_right_inj] at hpre
        obtain ⟨rfl, rfl⟩ := List.cons.inj hs
        cases s with
        | nil => exact ht (by simp)
        | cons y s =>
          obtain ⟨rfl, -⟩ := List.cons_prefix_cons.mp hpre
          exact hc (by simp)
    have hmore := ih fun hin => ht (hin.trans (List.infix_cons (List.infix_refl t)))
    rw [List.cons_append, cut?, if_neg (by simpa [List.isPrefixOf_iff_prefix] using hprefix), hmore]
    rfl

/-- A text is cut in one way at the last of its marks. -/
theorem append_mark_inj {mark : Char} {front front' field field' : Text} (hfield : mark ∉ field)
    (hfield' : mark ∉ field') :
    front ++ mark :: field = front' ++ mark :: field' ↔ front = front' ∧ field = field' := by
  constructor
  · intro h
    rcases List.append_eq_append_iff.mp h with ⟨more, rfl, hmore⟩ | ⟨more, rfl, hmore⟩
    all_goals
      cases more with
      | nil => simp_all
      | cons c more => simp_all
  · rintro ⟨rfl, rfl⟩
    rfl

end Stencil.Text
