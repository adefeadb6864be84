import Mathlib.Data.List.Forall2
import Stencil.Proofs.Pieces
import Stencil.Proofs.Words

/-!
# Templates in parts

A template as a list of texts and tags, each tag given by its words. Written down, it is cut into
the same parts again.
-/

namespace Stencil

open Segment

inductive Part where
  | text (value : Text)
  | tag (words : List Word)

namespace Part

/-- The part as it stands in a template. -/
def source : Part → Text
  | .text value => value
  | .tag words => '\x7b' :: (Word.join words ++ ['\x7d'])

/-- The segment is what the part is cut out as. -/
def Fits : Part → Segment → Prop
  | .text value, segment => segment = .literal value
  | .tag words, segment => ∃ line, segment = .tag line (Word.join words)

def isText : Part → Bool
  | .text _ => true
  | .tag _ => false

end Part

/-! ## Literal text -/

/-- Every opening brace has white space behind it. -/
def isLiteral : Text → Bool
  | [] => true
  | c :: rest => (c ≠ '\x7b' || rest.head?.any isBlank) && isLiteral rest

theorem isLiteral_append {s t : Text} (h : isLiteral (s ++ t) = true) : isLiteral t = true := by
  induction s with
  | nil => exact h
  | cons c s ih =>
    rw [List.cons_append, isLiteral, Bool.and_eq_true] at h
    exact ih h.2

namespace Segment

/-! ## Steps of the scan -/

theorem isPrefixOf_openTag (c : Char) (t : Text) : openTag.isPrefixOf (c :: t) = ('\x7b' == c) := by
  simp [openTag, List.isPrefixOf]

theorem cut?_openTag_append_of_some {t plain after : Text} (h : Text.cut? openTag t = some (plain, after))
    (rest : Text) : Text.cut? openTag (t ++ rest) = some (plain, after ++ rest) := by
  induction t generalizing plain with
  | nil => simp [Text.cut?] at h
  | cons c t ih =>
    rw [Text.cut?, isPrefixOf_openTag] at h
    rw [List.cons_append, Text.cut?, isPrefixOf_openTag]
    split at h
    · rename_i hc
      obtain ⟨rfl, rfl⟩ := Prod.mk.inj (Option.some.inj h)
      simp [hc, openTag]
    · rename_i hc
      obtain ⟨⟨before, after'⟩, hcut, heq⟩ := Option.map_eq_some_iff.mp h
      obtain ⟨rfl, rfl⟩ := Prod.mk.inj heq
      rw [if_neg hc, ih hcut]
      rfl

theorem cut?_openTag_append_of_none {t : Text} (h : Text.cut? openTag t = none) (rest : Text) :
    Text.cut? openTag (t ++ '\x7b' :: rest) = some (t, rest) := by
  induction t with
  | nil => simp [Text.cut?, openTag]
  | cons c t ih =>
    rw [Text.cut?, isPrefixOf_openTag] at h
    rw [List.cons_append, Text.cut?, isPrefixOf_openTag]
    split at h
    · cases h
    · rename_i hc
      rw [if_neg hc, ih (by simpa using h)]
      rfl

/-- How the scan goes on behind a piece on `line`. -/
def scanBehind (line : Nat) (pending : Pile) (rest : Text) : Piece → Scan
  | .brace => scanFrom line (pending.add openTag) rest
  | .comment inside => scanFrom (line + Text.newlines inside) pending rest
  | .raw body inside =>
    scanFrom (line + (Text.newlines body + Text.newlines inside)) (pending.add inside) rest
  | .tag body =>
    (scanFrom (line + Text.newlines body) {} rest).after (literals pending.text ++ [.tag line body])

section Steps

variable {line : Nat} {p : Pile} {t plain after rest : Text}

theorem scanFrom_none (h : Text.cut? openTag t = none) :
    scanFrom line p t = { segments := literals (p.text ++ t) } := by
  rw [scanFrom.eq_def]
  split
  · simp
  · simp_all

theorem scanFrom_piece {found : Piece} (h : Text.cut? openTag t = some (plain, after))
    (hpiece : piece (line + Text.newlines plain) after = .ok (found, rest)) :
    scanFrom line p t = scanBehind (line + Text.newlines plain) (p.add plain) rest found := by
  rw [scanFrom.eq_def]
  split
  · simp_all
  · rename_i hcut
    obtain ⟨rfl, rfl⟩ := Prod.mk.inj (Option.some.inj (hcut.symm.trans h))
    dsimp only
    split
    · simp_all
    · rename_i hok
      obtain ⟨rfl, rfl⟩ := Prod.mk.inj (Except.ok.inj (hok.symm.trans hpiece))
      unfold scanBehind
      split <;> rfl

theorem scanFrom_fault {fault : Fault} (h : Text.cut? openTag t = some (plain, after))
    (hpiece : piece (line + Text.newlines plain) after = .error fault) :
    scanFrom line p t = { segments := [], fault? := some (line + Text.newlines plain, fault) } := by
  rw [scanFrom.eq_def]
  split
  · simp_all
  · rename_i hcut
    obtain ⟨rfl, rfl⟩ := Prod.mk.inj (Option.some.inj (hcut.symm.trans h))
    dsimp only
    split
    · rename_i herror
      cases herror.symm.trans hpiece
      rfl
    · simp_all

end Steps

/-- Literal text is gathered, whatever the scan comes to behind text without braces. -/
theorem scanFrom_literal (rest : Text) (scan : Nat → Text → Scan)
    (hrest : ∀ line p plain, Text.cut? openTag plain = none →
      ∃ line', scanFrom line p (plain ++ rest) = scan line' (p.text ++ plain))
    (t : Text) (ht : isLiteral t = true) (line : Nat) (p : Pile) :
    ∃ line', scanFrom line p (t ++ rest) = scan line' (p.text ++ t) := by
  induction hn : t.length using Nat.strongRecOn generalizing t line p with
  | ind n ih =>
    cases hcut : Text.cut? openTag t with
    | none => exact hrest line p t hcut
    | some cut =>
      obtain ⟨plain, after⟩ := cut
      have hjoin : plain ++ openTag ++ after = t := Text.cut?_append hcut
      have hlit : isLiteral ('\x7b' :: after) = true := by
        apply isLiteral_append (s := plain)
        rw [← hjoin] at ht
        simpa [openTag] using ht
      obtain ⟨b, more, rfl, hb⟩ : ∃ b more, after = b :: more ∧ isBlank b = true := by
        cases after with
        | nil => simp [isLiteral] at hlit
        | cons b more => exact ⟨b, more, rfl, by simp [isLiteral] at hlit; exact hlit.1⟩
      have hpiece : piece (line + Text.newlines plain) (b :: more ++ rest) =
          .ok (.brace, b :: more ++ rest) := by
        simp [piece, hb]
      rw [scanFrom_piece (cut?_openTag_append_of_some hcut rest) hpiece]
      have hlen := length_lt_of_cut hcut
      obtain ⟨line', hscan⟩ := ih _ (hn ▸ hlen) (b :: more)
        (isLiteral_append (s := ['\x7b']) hlit) (line + Text.newlines plain)
        ((p.add plain).add openTag) rfl
      refine ⟨line', hscan.trans ?_⟩
      simp [← hjoin]

/-! ## The end of a tag -/

/-- A character that neither opens a string nor opens or closes a tag. -/
def isQuiet (c : Char) : Bool := c ∉ ['"', '\x27', '\x7b', '\x7d']

theorem ne_of_isQuiet {c : Char} (h : isQuiet c = true) :
    c ≠ '"' ∧ c ≠ '\x27' ∧ c ≠ '\x7b' ∧ c ≠ '\x7d' := by
  simpa [isQuiet] using h

/-- The end of a tag is not looked for inside the text, and as many braces are open behind it. -/
def Passable (t : Text) : Prop :=
  ∀ depth rest, tagEnd? .plain depth (t ++ rest) =
    (tagEnd? .plain depth rest).map fun (body, rest) => (t ++ body, rest)

namespace Passable

theorem nil : Passable [] := by
  intro depth rest
  simp

theorem append {s t : Text} (hs : Passable s) (ht : Passable t) : Passable (s ++ t) := by
  intro depth rest
  rw [List.append_assoc, hs, ht]
  simp [Function.comp_def]

theorem of_isQuiet {t : Text} (h : t.all isQuiet = true) : Passable t := by
  rw [List.all_eq_true] at h
  induction t with
  | nil => exact nil
  | cons c t ih =>
    intro depth rest
    have hc := ne_of_isQuiet (h c (by simp))
    have hdepth : depthAfter c .plain depth = depth := by
      unfold depthAfter
      split <;> simp_all
    have htail := ih (fun x hx => h x (by simp [hx])) depth rest
    rw [List.cons_append, tagEnd?]
    simp [hc, Mode.next, hdepth, htail, Function.comp_def]

end Passable

theorem tagEnd?_parts (quote : Char) (parts : List (Bool × Char))
    (h : ∀ c, (false, c) ∈ parts → c ≠ '\\' ∧ c ≠ quote) (depth : Nat) (rest : Text) :
    tagEnd? (.quoted quote) depth (parts.flatMap Literal.partText ++ rest) =
      (tagEnd? (.quoted quote) depth rest).map fun (body, rest) =>
        (parts.flatMap Literal.partText ++ body, rest) := by
  induction parts with
  | nil => simp
  | cons part parts ih =>
    have ih := ih fun c hc => h c (by simp [hc])
    obtain ⟨escaped, c⟩ := part
    cases escaped with
    | true =>
      simp [Literal.partText, tagEnd?, Mode.next, depthAfter, ih, Function.comp_def]
    | false =>
      obtain ⟨hslash, hquote⟩ := h c (by simp)
      simp [Literal.partText, tagEnd?, Mode.next, depthAfter, hslash, hquote, ih, Function.comp_def]

theorem passable_literal (l : Literal) : Passable l.text := by
  intro depth rest
  have hquote : l.quote = '"' ∨ l.quote = '\x27' := by
    unfold Literal.quote
    split <;> simp
  have hinside := tagEnd?_parts l.quote l.inside l.closed depth (l.quote :: rest)
  rw [Literal.text, List.cons_append, List.append_assoc, List.singleton_append, Literal.insideText]
  -- The opening quote is read in plain mode, the closing one leads back to it.
  rcases hquote with hq | hq <;> rw [hq] at hinside ⊢ <;>
    simp [tagEnd?, Mode.next, depthAfter, hinside, Function.comp_def]

theorem all_isQuiet {p : Char → Bool} (hp : ['"', '\x27', '\x7b', '\x7d'].any p = false) {t : Text}
    (h : ∀ c ∈ t, p c = true) : t.all isQuiet = true := by
  refine List.all_eq_true.mpr fun c hc => ?_
  rw [isQuiet, decide_eq_true_eq]
  intro hloud
  have hany := List.any_eq_true.mpr ⟨c, hloud, h c hc⟩
  rw [hp] at hany
  cases hany

theorem passable_digits {t : Text} (h : isDigits t = true) : Passable t := by
  refine .of_isQuiet (all_isQuiet (p := Char.isDigit) (by decide) ?_)
  simp only [isDigits, Bool.and_eq_true, List.all_eq_true] at h
  exact h.2

theorem passable_word {t : Text} (h : isWord t = true) : Passable t :=
  .of_isQuiet (all_isQuiet (by decide) fun _ hc => isWordPart_of_mem h hc)

theorem passable_decimal (d : Decimal) : Passable d.text := by
  refine (passable_digits d.isDigits_whole).append (.append ?_ ?_)
  · unfold Decimal.fractionText
    split
    · exact .nil
    · rename_i digits _
      exact Passable.append (s := ['.']) (.of_isQuiet (by decide)) (passable_digits digits.property)
  · unfold Decimal.powerText
    cases d.power with
    | none => exact .nil
    | some power =>
      refine Passable.append (s := [power.mark]) (.of_isQuiet ?_) (.append (.of_isQuiet ?_) ?_)
      · unfold Power.mark
        split <;> decide
      · unfold Power.signText
        split <;> decide
      · exact passable_digits power.isDigits_digits

theorem passable_of_spells {k : Kind} {t : Text} (h : Spells k t) : Passable t := by
  cases h with
  | dollar h => exact Passable.append (s := ['$']) (.of_isQuiet (by decide)) (passable_word h)
  | name h => exact passable_word (Bool.and_eq_true_iff.mp h).1
  | integer h => exact passable_digits h
  | float d => exact passable_decimal d
  | quoted l => exact passable_literal l
  | word h =>
    have hall : ∀ s ∈ Symbol.words, s.all isQuiet = true := by decide
    exact .of_isQuiet (hall _ h)
  | symbol h =>
    have hall : ∀ s ∈ innerSymbols, s.all isQuiet = true := by decide
    exact .of_isQuiet (hall _ h)

theorem passable_join {words : List Word} (h : Word.Apart words) : Passable (Word.join words) := by
  induction h with
  | nil => exact .nil
  | @cons w words h hspace _ _ ih =>
    have hblank : Passable w.space := .of_isQuiet (all_isQuiet (by decide) hspace)
    rw [Word.join_cons]
    exact (passable_of_spells h).append (hblank.append ih)
  | slash _ _ ih => exact Passable.append (s := ['/']) (.of_isQuiet (by decide)) ih

/-! ## Tags -/

/-- The words of a tag, which neither start a comment nor open a raw region. -/
structure IsTag (words : List Word) : Prop where
  apart : Word.Apart words
  ne_nil : words ≠ []
  not_comment : ∀ c ∈ (Word.join words).head?, c ≠ openComment
  not_raw : ∀ space, words ≠ [⟨.name, rawTag, space⟩]

theorem IsTag.trimEnd_ne {words : List Word} (h : IsTag words) :
    (Word.join words).trimEnd ≠ rawTag := by
  intro heq
  obtain ⟨space, hspace, hjoin⟩ := exists_blank_of_trimEnd (Word.join words)
  rw [heq] at hjoin
  have hraw : Word.Apart [⟨.name, rawTag, space⟩] := by
    have hname : isName rawTag = true := by decide
    refine .cons (.name hname) hspace ?_ .nil
    cases space with
    | nil => rfl
    | cons c space => exact breaks_of_blank (hspace c (by simp))
  -- The same text cannot be cut into other words.
  have hwords := words_tokenize h.apart 1
  have hother := words_tokenize hraw 1
  simp only [Word.join_cons, Word.join_nil, List.append_nil] at hother
  rw [hjoin, hother] at hwords
  exact h.not_raw space hwords.symm

theorem IsTag.valid {words : List Word} (h : IsTag words) (rest : Text) :
    (Piece.tag (Word.join words)).Valid rest := by
  refine ⟨?_, h.trimEnd_ne, fun c hc => ⟨h.apart.not_isBlank_head c hc, h.not_comment c hc⟩⟩
  rw [Closes, passable_join h.apart]
  simp [tagEnd?]

theorem IsTag.piece_eq {words : List Word} (h : IsTag words) (line : Nat) (rest : Text) :
    piece line (Word.join words ++ '\x7d' :: rest) = .ok (.tag (Word.join words), rest) := by
  simpa [Piece.source] using (h.valid rest).piece_eq line

/-- The parts can be told apart: no text is empty or follows another one. -/
def Separate : List Part → Prop
  | [] => True
  | .text value :: more =>
    value ≠ [] ∧ isLiteral value = true ∧ (more.head?.any Part.isText = false) ∧ Separate more
  | .tag words :: more => IsTag words ∧ Separate more

theorem scanFrom_tag_part {words : List Word} (h : IsTag words) (line : Nat) (p : Pile)
    (plain : Text) (hplain : Text.cut? openTag plain = none) (rest : Text) :
    ∃ line', scanFrom line p (plain ++ ((Part.tag words).source ++ rest)) =
      (scanFrom (line' + Text.newlines (Word.join words)) {} rest).after
        (literals (p.text ++ plain) ++ [.tag line' (Word.join words)]) := by
  refine ⟨line + Text.newlines plain, ?_⟩
  have hcut := cut?_openTag_append_of_none hplain (Word.join words ++ '\x7d' :: rest)
  simp only [Part.source, List.cons_append, List.append_assoc, List.nil_append]
  rw [scanFrom_piece hcut (h.piece_eq _ rest), scanBehind, Pile.text_add]

theorem literals_eq {t : Text} (h : t ≠ []) : literals t = [.literal t] := by
  simp [literals, h]

theorem scanFrom_parts (line : Nat) : ∀ parts, Separate parts →
    ∃ segments, scanFrom line {} (parts.flatMap Part.source) = { segments } ∧
      List.Forall₂ Part.Fits parts segments
  | [], _ => ⟨[], scanFrom_none rfl, .nil⟩
  | .tag words :: more, h => by
    obtain ⟨line', hscan⟩ := scanFrom_tag_part h.1 line {} [] rfl (more.flatMap Part.source)
    obtain ⟨segments, hmore, hfits⟩ :=
      scanFrom_parts (line' + Text.newlines (Word.join words)) more h.2
    refine ⟨.tag line' (Word.join words) :: segments, ?_, .cons ⟨line', rfl⟩ hfits⟩
    rw [hmore] at hscan
    simpa [Scan.after, literals] using hscan
  | [.text value], h => by
    have hend (line : Nat) (p : Pile) (plain : Text) (hplain : Text.cut? openTag plain = none) :
        ∃ line' : Nat, scanFrom line p (plain ++ []) = { segments := literals (p.text ++ plain) } :=
      ⟨line, by rw [List.append_nil, scanFrom_none hplain]⟩
    obtain ⟨-, hscan⟩ := scanFrom_literal [] (fun _ text => { segments := literals text })
      hend value h.2.1 line {}
    refine ⟨[.literal value], ?_, .cons rfl .nil⟩
    rw [← literals_eq h.1]
    simpa [Part.source] using hscan
  | .text value :: .text _ :: _, h => by simp [Separate, Part.isText] at h
  | .text value :: .tag words :: more, h => by
    obtain ⟨line', hscan⟩ := scanFrom_literal ((Part.tag words).source ++ more.flatMap Part.source)
      (fun line' text => (scanFrom (line' + Text.newlines (Word.join words)) {}
        (more.flatMap Part.source)).after (literals text ++ [.tag line' (Word.join words)]))
      (fun line p plain hplain => scanFrom_tag_part h.2.2.2.1 line p plain hplain _) value h.2.1 line {}
    obtain ⟨segments, hmore, hfits⟩ :=
      scanFrom_parts (line' + Text.newlines (Word.join words)) more h.2.2.2.2
    refine ⟨.literal value :: .tag line' (Word.join words) :: segments, ?_,
      .cons rfl (.cons ⟨line', rfl⟩ hfits)⟩
    rw [hmore, Pile.text_empty, List.nil_append, literals_eq h.1] at hscan
    simpa [Scan.after, Part.source] using hscan

theorem scan_parts {parts : List Part} (h : Separate parts) :
    ∃ segments, scan (parts.flatMap Part.source) = { segments } ∧
      List.Forall₂ Part.Fits parts segments :=
  scanFrom_parts 1 parts h

end Segment

end Stencil
