import Stencil.Proofs.Longest

/-!
# Tokens end at a slash and at a blank

Words, numbers and symbols never go over a slash or a blank. So the token at the front of a text is
the same whatever comes behind such a character, unless it is a string or a comment that does not
end before it.
-/

namespace Stencil

/-- What ends the tokens in front of it that are neither strings nor comments. -/
inductive Stop : Text → Prop
  | nothing : Stop []
  | slash (z : Text) : Stop ('/' :: z)
  | blank {e : Char} (h : isBlank e = true) (z : Text) : Stop (e :: z)

/-! ## Texts that reach up to a stop -/

variable {follow : Text}

theorem prefix_of_stop {u x : Text} (h : u <+: x ++ follow) (hx : x ≠ [])
    (hu : ∀ e ∈ follow.head?, e ∉ u.tail) : u <+: x := by
  rcases List.prefix_or_prefix_of_prefix h (List.prefix_append x _) with hin | ⟨v, rfl⟩
  · exact hin
  · cases v with
    | nil => simp
    | cons c v =>
      rw [List.prefix_append_right_inj] at h
      obtain ⟨z, rfl⟩ := h
      rw [List.tail_append_of_ne_nil hx] at hu
      exact absurd (by simp) (hu c rfl)

theorem Longest.stop {P : Text → Prop} (hP : ∀ u, P u → ∀ e ∈ follow.head?, e ∉ u.tail)
    {t x y : Text} (h : Longest P t (x ++ y)) (ht : t <+: x) (hx : x ≠ []) :
    Longest P t (x ++ follow) where
  holds := h.holds
  front := ht.trans (List.prefix_append _ _)
  longest u hu hfront :=
    h.longest u hu ((prefix_of_stop hfront hx (hP u hu)).trans (List.prefix_append _ _))

theorem isNumberPart_of_isDigits {u : Text} (h : isDigits u = true) {c : Char} (hc : c ∈ u) :
    isNumberPart c = true := by
  obtain ⟨x, rest, rfl, hx, hrest⟩ := exists_cons_of_isDigits h
  rcases List.mem_cons.mp hc with rfl | hc
  · simp [isNumberPart, hx]
  · simp [isNumberPart, hrest c hc]

theorem isNumberPart_of_mem {u : Text} (h : IsNumber u) {c : Char} (hc : c ∈ u) :
    isNumberPart c = true := by
  rcases h with hdigits | ⟨d, rfl⟩
  · exact isNumberPart_of_isDigits hdigits hc
  · simp only [Decimal.text, List.mem_append] at hc
    rcases hc with hc | hc | hc
    · exact isNumberPart_of_isDigits d.isDigits_whole hc
    · unfold Decimal.fractionText at hc
      split at hc
      · simp at hc
      · rename_i digits _
        rcases List.mem_cons.mp hc with rfl | hc
        · decide
        · exact isNumberPart_of_isDigits digits.property hc
    · unfold Decimal.powerText at hc
      cases hp : d.power with
      | none => simp [hp] at hc
      | some p =>
        simp only [hp, Option.map_some, Option.getD_some, Power.text, List.mem_cons,
          List.mem_append] at hc
        rcases hc with rfl | hc | hc
        · unfold Power.mark
          split <;> decide
        · unfold Power.signText at hc
          split at hc <;> simp at hc <;> rw [hc] <;> decide
        · exact isNumberPart_of_isDigits p.isDigits_digits hc

namespace Stop

theorem not_head (hf : Stop follow) {p : Char → Bool} (hslash : p '/' = false)
    (hblank : ∀ c, isBlank c = true → p c = false) : ∀ e ∈ follow.head?, p e = false := by
  intro e he
  cases hf with
  | nothing => cases he
  | slash z =>
    cases he
    exact hslash
  | blank h z =>
    cases he
    exact hblank _ h

theorem notMem_of_forall (hf : Stop follow) {p : Char → Bool} (hslash : p '/' = false)
    (hblank : ∀ c, isBlank c = true → p c = false) {u : Text} (hu : ∀ c ∈ u, p c = true) :
    ∀ e ∈ follow.head?, e ∉ u.tail := by
  intro e he hmem
  have hclass := hf.not_head hslash hblank e he
  rw [hu e (List.mem_of_mem_tail hmem)] at hclass
  cases hclass

theorem notMem_word (hf : Stop follow) {u : Text} (h : isWord u = true) :
    ∀ e ∈ follow.head?, e ∉ u.tail :=
  hf.notMem_of_forall (p := isWordPart) (by decide) (fun _ => not_isWordPart_of_isBlank)
    fun _ hc => isWordPart_of_mem h hc

theorem notMem_number (hf : Stop follow) {u : Text} (h : IsNumber u) :
    ∀ e ∈ follow.head?, e ∉ u.tail :=
  hf.notMem_of_forall (p := isNumberPart) (by decide) (fun _ => not_of_isWithin (by decide))
    fun _ hc => isNumberPart_of_mem h hc

theorem notMem_spelling (hf : Stop follow) {u : Text} (h : u ∈ Symbol.spellings) :
    ∀ e ∈ follow.head?, e ∉ u.tail := by
  have hslash : ∀ u ∈ Symbol.spellings, '/' ∉ u.tail := by decide
  intro e he hmem
  cases hf with
  | nothing => cases he
  | slash z =>
    cases he
    exact hslash u h hmem
  | blank hblank z =>
    cases he
    rw [Lexeme.not_isBlank_of_mem_spelling u h e (List.mem_of_mem_tail hmem)] at hblank
    cases hblank

theorem commentStart (hf : Stop follow) {x y : Text} (h : ¬ commentStart <+: x ++ y)
    (hx : x ≠ []) : ¬ Stencil.commentStart <+: x ++ follow := by
  have hstar : ∀ e ∈ follow.head?, (e == '*') = false :=
    hf.not_head (p := (· == '*')) (by decide) fun _ =>
      not_of_isWithin (p := (· == '*')) (by decide)
  have htail : ∀ e ∈ follow.head?, e ∉ Stencil.commentStart.tail := by
    intro e he
    simpa [Stencil.commentStart] using hstar e he
  exact fun hstart => h ((prefix_of_stop hstart hx htail).trans (List.prefix_append _ _))

end Stop

/-! ## Tokens in front of a stop -/

theorem Complete.stop (hf : Stop follow) {x y : Text} {k : Kind} {t : Text}
    (h : Complete (x ++ y) k t) (ht : t <+: x) (hx : x ≠ []) : Complete (x ++ follow) k t := by
  cases h with
  | @dollar name after hrest h =>
    obtain ⟨c, x, rfl⟩ := List.exists_cons_of_ne_nil hx
    obtain ⟨rfl, rfl⟩ := List.cons.inj hrest
    have hname : name <+: x := (List.cons_prefix_cons.mp ht).2
    have hx' : x ≠ [] := by
      rintro rfl
      obtain rfl := List.prefix_nil.mp hname
      exact absurd h.holds (by decide)
    exact .dollar rfl (h.stop (fun _ => hf.notMem_word) hname hx')
  | name h hword => exact .name (h.stop (fun _ => hf.notMem_word) ht hx) hword
  | word h hword => exact .word (h.stop (fun _ => hf.notMem_word) ht hx) hword
  | integer h hdigits =>
    exact .integer (h.stop (fun _ => hf.notMem_number) ht hx) hdigits
  | float d h => exact .float d (h.stop (fun _ => hf.notMem_number) ht hx)
  | quoted l h => exact .quoted l (ht.trans (List.prefix_append _ _))
  | comment h hinside => exact .comment (ht.trans (List.prefix_append _ _)) hinside
  | symbol h hcomment =>
    exact .symbol (h.stop (fun _ => hf.notMem_spelling) ht hx)
      (hf.commentStart hcomment hx)

theorem not_complete_stop (hf : Stop follow) {c : Char} {x y : Text}
    (h : ∀ k t, ¬ Complete (c :: (x ++ y)) k t) (hquote : c ≠ '"' ∧ c ≠ '\x27')
    (hcomment : ¬ commentStart <+: c :: (x ++ y)) :
    ∀ k t, ¬ Complete (c :: (x ++ follow)) k t := by
  intro k t hcomplete
  have hword : isWordStart c ≠ true := by
    intro hc
    by_cases hmem : c :: (x ++ y).takeWhile isWordPart ∈ Symbol.words
    · exact h _ _ (.word (Lexeme.longest_word hc (x ++ y)) hmem)
    · exact h _ _ (.name (Lexeme.longest_word hc (x ++ y)) hmem)
  have hdigit : c.isDigit ≠ true := by
    intro hc
    have hlongest := Lexeme.longest_number hc (x ++ y)
    rcases Lexeme.number_form hc (x ++ y) with ⟨-, hdigits⟩ | ⟨-, d, hd⟩
    · exact h _ _ (.integer hlongest hdigits)
    · exact h _ _ (.float d (hd ▸ hlongest))
  cases hcomplete with
  | @dollar name after hrest hname =>
    obtain ⟨rfl, rfl⟩ := List.cons.inj hrest
    cases x with
    | nil =>
      -- The name would start with what stops the dollar sign.
      have hstart : ∀ e ∈ follow.head?, isWordPart e = false :=
        hf.not_head (by decide) fun _ => not_isWordPart_of_isBlank
      cases follow with
      | nil =>
        obtain rfl := List.prefix_nil.mp hname.front
        exact absurd hname.holds (by decide)
      | cons e z =>
        have he := isWordPart_of_isWordStart (Lexeme.isWordStart_of_longest hname)
        rw [hstart e rfl] at he
        cases he
    | cons d x =>
      have hd := Lexeme.isWordStart_of_longest hname
      exact h _ _ (.dollar rfl (Lexeme.longest_word hd (x ++ y)))
  | name hlongest _ => exact hword (Lexeme.isWordStart_of_longest hlongest)
  | word hlongest _ => exact hword (Lexeme.isWordStart_of_longest hlongest)
  | integer hlongest _ => exact hdigit (Lexeme.isDigit_of_longest hlongest)
  | float d hlongest => exact hdigit (Lexeme.isDigit_of_longest hlongest)
  | quoted l hfront =>
    obtain ⟨hc, -⟩ := List.cons_prefix_cons.mp hfront
    have hopen : l.quote = '"' ∨ l.quote = '\x27' := by
      unfold Literal.quote
      split <;> simp
    rw [hc] at hopen
    exact hopen.elim hquote.1 hquote.2
  | comment hfront _ =>
    have hstart := (List.prefix_append _ _).trans hfront
    exact hf.commentStart (x := c :: x) hcomment (by simp) hstart
  | symbol hlongest _ =>
    have hfront : t <+: c :: x :=
      prefix_of_stop hlongest.front (by simp) (hf.notMem_spelling hlongest.holds)
    have hfits : t.isPrefixOf (c :: (x ++ y)) = true :=
      List.isPrefixOf_iff_prefix.mpr (hfront.trans (List.prefix_append _ _))
    obtain ⟨s, hs⟩ := Option.isSome_iff_exists.mp
      (List.find?_isSome (p := (·.isPrefixOf (c :: (x ++ y)))).mpr ⟨t, hlongest.holds, hfits⟩)
    exact h _ _ (.symbol (Lexeme.longest_symbol hs) hcomment)

theorem Decided.stop (hf : Stop follow) {x y : Text} {k : Kind} {t : Text}
    (h : Decided (x ++ y) k t) (ht : t <+: x) (hx : x ≠ []) (hpart : t ≠ x ++ y) :
    Decided (x ++ follow) k t := by
  cases h with
  | complete h => exact .complete (h.stop hf ht hx)
  | openString => exact absurd rfl hpart
  | openComment => exact absurd rfl hpart
  | lone hrest h hquote hcomment =>
    obtain ⟨c, x, rfl⟩ := List.exists_cons_of_ne_nil hx
    obtain ⟨rfl, rfl⟩ := List.cons.inj hrest
    exact .lone rfl (not_complete_stop hf h hquote hcomment) hquote
      (hf.commentStart (x := c :: x) hcomment hx)

end Stencil
