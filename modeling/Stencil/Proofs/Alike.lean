import Stencil.Proofs.Gives

/-!
# Tokens that differ in their contents

What a literal, a number, a variable or an accessor name holds is only copied. `Shadows` puts two
readers side by side, on tokens that differ in nothing else: where the first succeeds, so does the
second. Along the way it collects the strings that the tokens of the first stand for.
-/

namespace Stencil

open Grammar Reading

/-! ## Contents of tokens -/

/-- A name after this token names a part of a value. -/
def Kind.isAccess (k : Kind) : Bool := k = .symbol "." || k = .symbol "->"

namespace Token

/-- The strings that a token stands for: an accessor name or the value of a literal. -/
def strings (access : Bool) (t : Token) : List Text :=
  if access && t.kind = .name then [t.text] else t.unquote?.toList

/-- The strings that some tokens stand for; `access` belongs to the first of them. -/
def stringsFrom (access : Bool) : List Token → List Text
  | [] => []
  | t :: more => t.strings access ++ stringsFrom t.kind.isAccess more

/-- A name after these tokens names a part of a value. -/
def accessAfter (access : Bool) (tokens : List Token) : Bool :=
  tokens.foldl (fun _ t => t.kind.isAccess) access

theorem stringsFrom_append (access : Bool) (ts us : List Token) :
    stringsFrom access (ts ++ us) =
      stringsFrom access ts ++ stringsFrom (accessAfter access ts) us := by
  induction ts generalizing access with
  | nil => rfl
  | cons t ts ih => simp [stringsFrom, ih, accessAfter]

/-- Kinds of tokens whose text is copied, whatever it is. -/
def copied : List Kind := [.quoted, .integer, .float, .variable]

/-- The tokens differ in nothing but what is copied; accessor names are. -/
structure Alike (access : Bool) (t u : Token) : Prop where
  kind : u.kind = t.kind
  space : u.space.isEmpty = t.space.isEmpty
  text : t.kind ∉ copied → ¬ (access = true ∧ t.kind = .name) → u.text = t.text

inductive AlikeFrom : Bool → List Token → List Token → Prop
  | nil {access : Bool} : AlikeFrom access [] []
  | cons {access : Bool} {t u : Token} {ts us : List Token} (h : t.Alike access u)
      (hmore : AlikeFrom t.kind.isAccess ts us) : AlikeFrom access (t :: ts) (u :: us)

instance {access : Bool} {t u : Token} : Decidable (Alike access t u) :=
  decidable_of_iff (u.kind = t.kind ∧ u.space.isEmpty = t.space.isEmpty ∧
      (t.kind ∉ copied → ¬ (access = true ∧ t.kind = .name) → u.text = t.text))
    ⟨fun ⟨hkind, hspace, htext⟩ => ⟨hkind, hspace, htext⟩,
      fun ⟨hkind, hspace, htext⟩ => ⟨hkind, hspace, htext⟩⟩

instance decidableAlikeFrom :
    (access : Bool) → (ts us : List Token) → Decidable (AlikeFrom access ts us)
  | _, [], [] => isTrue .nil
  | _, [], _ :: _ => isFalse nofun
  | _, _ :: _, [] => isFalse nofun
  | access, t :: ts, u :: us =>
    have := decidableAlikeFrom t.kind.isAccess ts us
    decidable_of_iff (t.Alike access u ∧ AlikeFrom t.kind.isAccess ts us)
      ⟨fun ⟨h, hmore⟩ => .cons h hmore, fun | .cons h hmore => ⟨h, hmore⟩⟩

theorem AlikeFrom.refl (access : Bool) (ts : List Token) : AlikeFrom access ts ts := by
  induction ts generalizing access with
  | nil => exact .nil
  | cons t ts ih => exact .cons ⟨rfl, rfl, fun _ _ => rfl⟩ (ih _)

theorem AlikeFrom.length_eq {access : Bool} {ts us : List Token} (h : AlikeFrom access ts us) :
    us.length = ts.length := by
  induction h with
  | nil => rfl
  | cons _ _ ih => simp [ih]

end Token

namespace Cursor

/-- From here on the tokens differ in nothing but what is copied. -/
structure Alike (access : Bool) (c d : Cursor) : Prop where
  ahead : Token.AlikeFrom access c.ahead d.ahead
  spaced : d.spaced = c.spaced

instance {access : Bool} {c d : Cursor} : Decidable (Alike access c d) :=
  decidable_of_iff (Token.AlikeFrom access c.ahead d.ahead ∧ d.spaced = c.spaced)
    ⟨fun ⟨hahead, hspaced⟩ => ⟨hahead, hspaced⟩, fun ⟨hahead, hspaced⟩ => ⟨hahead, hspaced⟩⟩

theorem Alike.refl (c : Cursor) : Alike false c c := ⟨.refl false c.ahead, rfl⟩

/-- The literals ahead can be decoded. -/
def Decodes (c : Cursor) : Prop := ∀ t ∈ c.ahead, t.kind = .quoted → t.unquote?.isSome = true

/-- From one place to the other the tokens stand for these strings. -/
def Yields (access last : Bool) (c c' : Cursor) (strings : List Text) : Prop :=
  ∃ tokens, c.ahead = tokens ++ c'.ahead ∧ Token.accessAfter access tokens = last ∧
    Token.stringsFrom access tokens = strings

theorem Yields.refl (access : Bool) (c : Cursor) : Yields access access c c [] :=
  ⟨[], rfl, rfl, rfl⟩

theorem Yields.trans {access middle last : Bool} {c c' c'' : Cursor} {strings more : List Text}
    (h : Yields access middle c c' strings) (h' : Yields middle last c' c'' more) :
    Yields access last c c'' (strings ++ more) := by
  obtain ⟨ts, hts, rfl, rfl⟩ := h
  obtain ⟨us, hus, rfl, rfl⟩ := h'
  refine ⟨ts ++ us, ?_, ?_, Token.stringsFrom_append access ts us⟩
  · rw [hts, hus, List.append_assoc]
  · simp [Token.accessAfter]

theorem Yields.decodes {access last : Bool} {c c' : Cursor} {strings : List Text}
    (h : Yields access last c c' strings) (hc : c.Decodes) : c'.Decodes := by
  obtain ⟨tokens, htokens, -, -⟩ := h
  intro t ht
  exact hc t (by rw [htokens]; exact List.mem_append_right _ ht)

theorem Alike.advance {access : Bool} {c d : Cursor} (h : c.Alike access d) {t : Token}
    (ht : c.current? = some t) :
    ∃ u, d.current? = some u ∧ t.Alike access u ∧
      c.advance.Alike t.kind.isAccess d.advance ∧
      Yields access t.kind.isAccess c c.advance (t.strings access) := by
  obtain ⟨behind, ahead, endLine⟩ := c
  obtain ⟨behind', ahead', endLine'⟩ := d
  cases h.ahead with
  | nil => cases ht
  | @cons _ t' u ts us htoken hmore =>
    cases ht
    refine ⟨u, rfl, htoken, ⟨hmore, ?_⟩, [t], rfl, rfl, ?_⟩
    · simp only [Cursor.advance, spaced_cons, htoken.space]
    · simp [Token.stringsFrom]

end Cursor

/-! ## Steps -/

theorem Token.strings_symbol {t : Token} {s : Text} (h : t.kind = .symbol s) (access : Bool) :
    t.strings access = [] := by
  simp [strings, unquote?, h]

theorem Cursor.Alike.nextKind_eq {access : Bool} {c d : Cursor} (h : c.Alike access d) :
    nextKind d.ahead = nextKind c.ahead := by
  obtain ⟨behind, ahead, endLine⟩ := c
  obtain ⟨behind', ahead', endLine'⟩ := d
  cases h.ahead with
  | nil => rfl
  | cons htoken _ => simp [htoken.kind]

theorem Cursor.Alike.seesNext_eq {access : Bool} {c d : Cursor} (h : c.Alike access d) (s : Text) :
    d.seesNext (mark s) = c.seesNext (mark s) := by
  obtain ⟨behind, ahead, endLine⟩ := c
  obtain ⟨behind', ahead', endLine'⟩ := d
  cases h.ahead with
  | nil => rfl
  | cons _ hmore =>
    cases hmore with
    | nil => rfl
    | cons htoken _ => simp [Cursor.seesNext, Cursor.next?, mark, Token.fits, Want.symbol,
        Want.accepts, htoken.kind]

theorem kind_of_operatorOf {role : Role} {k : Option Kind} {s : Text}
    (h : operatorOf role k = some s) :
    k = some (.symbol s) ∧ Kind.isAccess (.symbol s) = false := by
  obtain ⟨hkind, hrole⟩ := operatorOf_eq_some.mp h
  have hall : ∀ s ∈ roleSpellings, Kind.isAccess (.symbol s) = false := by decide
  exact ⟨hkind, hall s (mem_roleSpellings hrole)⟩

theorem kind_of_binaryOperator? {c : Cursor} {least : Nat} {found : Text × Nat}
    (h : binaryOperator? c least = some found) :
    nextKind c.ahead = some (.symbol found.1) ∧ Kind.isAccess (.symbol found.1) = false :=
  kind_of_operatorOf (operatorOf_of_binaryOperator? h)

/-! ## Two runs side by side -/

/--
Where the first reader succeeds, the second one does so on every cursor that is alike, and `R` holds
of the strings that were passed and of both results.
-/
def Shadows {α : Type} (access last : Bool) (read read' : Reading α)
    (R : List Text → α → α → Prop) : Prop :=
  ∀ c d a c', c.Decodes → c.Alike access d → read c = .ok a c' →
    ∃ a' d' strings, read' d = .ok a' d' ∧ c'.Alike last d' ∧ c.Yields access last c' strings ∧
      R strings a a'

namespace Shadows

variable {α β : Type} {access middle last : Bool} {read read' : Reading α}
  {R : List Text → α → α → Prop} {S : List Text → β → β → Prop}

theorem pure {a a' : α} (h : R [] a a') : Shadows access access (pure a) (pure a') R := by
  intro c d b c' _ halike hrun
  cases hrun
  exact ⟨a', d, [], rfl, halike, .refl access c, h⟩

theorem refuse (wants : List Want) : Shadows access last (refuse wants) read' R := by
  intro c d a c' _ _ hrun
  cases hrun

theorem throw (fault : Fault) : Shadows access last (throw fault) read' R := by
  intro c d a c' _ _ hrun
  cases hrun

theorem mono {R' : List Text → α → α → Prop} (h : Shadows access last read read' R)
    (hR : ∀ strings a a', R strings a a' → R' strings a a') :
    Shadows access last read read' R' := by
  intro c d a c' hdecodes halike hrun
  obtain ⟨a', d', strings, hrun', halike', hyields, hresult⟩ := h c d a c' hdecodes halike hrun
  exact ⟨a', d', strings, hrun', halike', hyields, hR strings a a' hresult⟩

theorem bind {f f' : α → Reading β} (h : Shadows access middle read read' R)
    (hf : ∀ strings a a', R strings a a' →
      Shadows middle last (f a) (f' a') fun more b b' => S (strings ++ more) b b') :
    Shadows access last (read >>= f) (read' >>= f') S := by
  intro c d b c'' hdecodes halike hrun
  obtain ⟨a, c', hread, hrest⟩ := bind_eq_ok hrun
  obtain ⟨a', d', strings, hread', halike', hyields, hresult⟩ :=
    h c d a c' hdecodes halike hread
  obtain ⟨b', d'', more, hrest', halike'', hyields', hresult'⟩ :=
    hf strings a a' hresult c' d' b c'' (hyields.decodes hdecodes) halike' hrest
  refine ⟨b', d'', strings ++ more, ?_, halike'', hyields.trans hyields', hresult'⟩
  rw [bind_of_ok hread', hrest']

theorem seq {f f' : α → Reading β}
    (h : Shadows access middle read read' fun strings a a' => strings = [] ∧ a' = a)
    (hf : ∀ a, Shadows middle last (f a) (f' a) S) :
    Shadows access last (read >>= f) (read' >>= f') S := by
  refine h.bind ?_
  rintro _ _ a ⟨rfl, rfl⟩
  exact hf a

/-! ### Steps -/

theorem behind {c d c' : Cursor} {t : Token} {f f' : Reading β} {b : β} (ht : c.current? = some t)
    (hdecodes : c.Decodes) (halike : c.Alike access d)
    (h : Shadows t.kind.isAccess last f f' fun more b b' => S (t.strings access ++ more) b b')
    (hrun : f c.advance = .ok b c') :
    ∃ b' d' strings, f' d.advance = .ok b' d' ∧ c'.Alike last d' ∧
      c.Yields access last c' strings ∧ S strings b b' := by
  obtain ⟨u, -, -, halike', hyields⟩ := halike.advance ht
  obtain ⟨b', d', more, hrun', hlast, hmore, hresult⟩ :=
    h c.advance d.advance b c' (hyields.decodes hdecodes) halike' hrun
  exact ⟨b', d', t.strings access ++ more, hrun', hlast, hyields.trans hmore, hresult⟩

theorem done {c d : Cursor} {t : Token} {a a' : α} (ht : c.current? = some t)
    (halike : c.Alike access d) (hplain : t.kind.isAccess = false)
    (h : R (t.strings access) a a') :
    ∃ b d' strings, (.ok a' d.advance : EStateM.Result Fault Cursor α) = .ok b d' ∧
      c.advance.Alike false d' ∧ c.Yields access false c.advance strings ∧ R strings a b := by
  obtain ⟨u, -, -, halike', hyields⟩ := halike.advance ht
  rw [hplain] at halike' hyields
  exact ⟨a', d.advance, t.strings access, rfl, halike', hyields, h⟩

theorem skip {s : Text} {after : Bool} {yes yes' no no' : Reading β}
    (hs : Kind.isAccess (.symbol s) = after) (hyes : Shadows after last yes yes' S)
    (hno : Shadows access last no no' S) :
    Shadows access last (skip (mark s) >>= fun found => if found = true then yes else no)
      (skip (mark s) >>= fun found => if found = true then yes' else no') S := by
  intro c d b c' hdecodes halike hrun
  rw [skip_bind] at hrun ⊢
  rw [halike.nextKind_eq]
  split at hrun
  · rename_i hkind
    obtain ⟨t, ht, htk⟩ := exists_current hkind
    rw [if_pos hkind]
    refine behind ht hdecodes halike ?_ hrun
    rw [htk, hs]
    simpa [Token.strings_symbol htk] using hyes
  · rename_i hkind
    rw [if_neg hkind]
    exact hno c d b c' hdecodes halike hrun

theorem sees {s : Text} {f f' : Bool → Reading β}
    (h : ∀ seen, Shadows access last (f seen) (f' seen) S) :
    Shadows access last (sees (mark s) >>= f) (sees (mark s) >>= f') S := by
  intro c d b c' hdecodes halike hrun
  rw [bind_of_ok (sees_eq _ s)] at hrun ⊢
  rw [halike.nextKind_eq]
  exact h _ c d b c' hdecodes halike hrun

theorem operator {role : Role} {f f' : Option Text → Reading β}
    (hsome : ∀ op, Shadows false last (f (some op)) (f' (some op)) S)
    (hnone : Shadows access last (f none) (f' none) S) :
    Shadows access last (takeOperator? role >>= f) (takeOperator? role >>= f') S := by
  intro c d b c' hdecodes halike hrun
  rw [operator_bind] at hrun ⊢
  rw [halike.nextKind_eq]
  cases hop : operatorOf role (nextKind c.ahead) with
  | none =>
    rw [hop] at hrun
    exact hnone c d b c' hdecodes halike hrun
  | some op =>
    rw [hop] at hrun
    obtain ⟨hkind, hplain⟩ := kind_of_operatorOf hop
    obtain ⟨t, ht, htk⟩ := exists_current hkind
    refine behind ht hdecodes halike ?_ hrun
    rw [htk, hplain]
    simpa [Token.strings_symbol htk] using hsome op

theorem get {f f' : Cursor → Reading β}
    (h : ∀ c d, c.Alike access d → Shadows access last (f c) (f' d) S) :
    Shadows access last (get >>= f) (get >>= f') S := by
  intro c d b c' hdecodes halike hrun
  rw [get_bind] at hrun ⊢
  exact h c d halike c d b c' hdecodes halike hrun

theorem binary {least : Nat} {stop stop' : Reading β} {go go' : Text → Nat → Reading β}
    (hstop : Shadows access last stop stop' S)
    (hgo : ∀ op power, Shadows false last (go op power) (go' op power) S) :
    Shadows access last
      (MonadState.get >>= fun c => match binaryOperator? c least with
        | none => stop
        | some (op, power) => advance >>= fun _ => go op power)
      (MonadState.get >>= fun c => match binaryOperator? c least with
        | none => stop'
        | some (op, power) => advance >>= fun _ => go' op power) S := by
  intro c d b c' hdecodes halike hrun
  rw [get_bind] at hrun ⊢
  have hsame : binaryOperator? d least = binaryOperator? c least := by
    simp [binaryOperator?, operator?_eq, halike.nextKind_eq]
  rw [hsame]
  cases hop : binaryOperator? c least with
  | none =>
    rw [hop] at hrun
    exact hstop c d b c' hdecodes halike hrun
  | some found =>
    rw [hop] at hrun
    obtain ⟨hkind, hplain⟩ := kind_of_binaryOperator? hop
    obtain ⟨t, ht, htk⟩ := exists_current hkind
    have hbehind : Shadows t.kind.isAccess last (go found.1 found.2) (go' found.1 found.2)
        fun more b b' => S (t.strings access ++ more) b b' := by
      rw [htk, hplain, Token.strings_symbol htk]
      exact hgo found.1 found.2
    exact hbehind.behind ht hdecodes halike hrun

theorem token {k : Kind} {f f' : Token → Reading β}
    (h : ∀ t u : Token, t.kind = k → t.Alike access u →
      Shadows k.isAccess last (f t) (f' u) fun more b b' => S (t.strings access ++ more) b b') :
    Shadows access last (need [.kind k] >>= fun t => advance >>= fun _ => f t)
      (need [.kind k] >>= fun t => advance >>= fun _ => f' t) S := by
  intro c d b c' hdecodes halike hrun
  obtain ⟨t, c₁, hneed, hrest⟩ := bind_eq_ok hrun
  obtain ⟨ht, rfl, rfl⟩ := need_eq_ok hneed
  obtain ⟨u, hu, htu, -, -⟩ := halike.advance ht
  rw [bind_of_ok (need_of_current hu htu.kind)]
  exact behind ht hdecodes halike (h t u rfl htu) hrest

theorem accessor : Shadows true false (take [.kind .name]) (take [.kind .name])
    fun strings name _ => strings = [name] := by
  refine token fun t u hkind _ => .pure ?_
  simp [Token.strings, hkind]

theorem name : Shadows false false (take [.kind .name]) (take [.kind .name])
    fun strings name name' => strings = [] ∧ name' = name := by
  refine token fun t u hkind halike => .pure ⟨?_, ?_⟩
  · simp [Token.strings, hkind, Token.unquote?]
  · exact halike.text (by rw [hkind]; decide) (by simp)

theorem expect {s : Text} {after : Bool} {f f' : Unit → Reading β}
    (hs : Kind.isAccess (.symbol s) = after) (h : Shadows after last (f ()) (f' ()) S) :
    Shadows access last (discard (take (mark s)) >>= f) (discard (take (mark s)) >>= f') S := by
  rw [discard_bind, discard_bind]
  refine token fun t u hkind _ => ?_
  rw [hs]
  simpa [Token.strings_symbol hkind] using h

end Shadows

end Stencil
