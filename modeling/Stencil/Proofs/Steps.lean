import Stencil.Expr.Grammar

/-!
# Reading steps

What a step does on a cursor whose next token is known. Most steps look only at the kind of that
token, which `nextKind` gives.
-/

namespace Stencil

open Grammar

/-- The kind of the next token. -/
def nextKind (ahead : List Token) : Option Kind := ahead.head?.map Token.kind

@[simp] theorem nextKind_nil : nextKind [] = none := rfl

@[simp] theorem nextKind_cons (t : Token) (ahead : List Token) :
    nextKind (t :: ahead) = some t.kind := rfl

theorem exists_current {c : Cursor} {k : Kind} (h : nextKind c.ahead = some k) :
    ∃ t, c.current? = some t ∧ t.kind = k :=
  Option.map_eq_some_iff.mp h

theorem nextKind_of_current {c : Cursor} {t : Token} (h : c.current? = some t) :
    nextKind c.ahead = some t.kind := by
  rw [nextKind, show c.ahead.head? = some t from h, Option.map_some]

namespace Reading

theorem bind_of_ok {α β : Type} {m : Reading α} {f : α → Reading β} {c c' : Cursor} {a : α}
    (h : m c = .ok a c') : (m >>= f) c = f a c' := by
  simp [bind, EStateM.bind, h]

theorem bind_of_error {α β : Type} {m : Reading α} {f : α → Reading β} {c c' : Cursor}
    {fault : Fault} (h : m c = .error fault c') : (m >>= f) c = .error fault c' := by
  simp [bind, EStateM.bind, h]

theorem bind_eq_ok {α β : Type} {m : Reading α} {f : α → Reading β} {c c'' : Cursor} {b : β}
    (h : (m >>= f) c = .ok b c'') : ∃ a c', m c = .ok a c' ∧ f a c' = .ok b c'' := by
  simp only [Bind.bind, EStateM.bind] at h
  split at h
  · rename_i a c' hm
    exact ⟨a, c', hm, h⟩
  · cases h

theorem map_of_ok {α β : Type} {m : Reading α} {f : α → β} {c c' : Cursor} {a : α}
    (h : m c = .ok a c') : (f <$> m) c = .ok (f a) c' := by
  simp [Functor.map, EStateM.map, h]

theorem get_bind {α : Type} (f : Cursor → Reading α) (c : Cursor) : (get >>= f) c = f c c := rfl

theorem pure_apply {α : Type} (a : α) (c : Cursor) : (pure a : Reading α) c = .ok a c := rfl

variable {behind ahead : List Token} {endLine : Nat} {t : Token} {s : Text} {c : Cursor}

theorem advance_cons (t : Token) :
    advance ⟨behind, t :: ahead, endLine⟩ = .ok () ⟨t :: behind, ahead, endLine⟩ :=
  rfl

theorem sees_mark (c : Cursor) (s : Text) :
    c.sees (mark s) = decide (nextKind c.ahead = some (.symbol s)) := by
  rcases c with ⟨behind, _ | ⟨t, ahead⟩, endLine⟩ <;>
    simp [Cursor.sees, Cursor.current?, mark, Token.fits, Want.symbol, Want.accepts]

theorem skip_cons (h : t.kind = .symbol s) :
    skip (mark s) ⟨behind, t :: ahead, endLine⟩ = .ok true ⟨t :: behind, ahead, endLine⟩ := by
  simp [skip, sees_mark, h, Cursor.advance]

theorem skip_of_ne (h : nextKind c.ahead ≠ some (.symbol s)) : skip (mark s) c = .ok false c := by
  simp [skip, sees_mark, h]

theorem skip_bind {α : Type} (s : Text) (f : Bool → Reading α) (c : Cursor) :
    (skip (mark s) >>= f) c =
      if nextKind c.ahead = some (.symbol s) then f true c.advance else f false c := by
  by_cases h : nextKind c.ahead = some (.symbol s) <;>
    simp [bind, EStateM.bind, skip, sees_mark, h]

theorem sees_eq (c : Cursor) (s : Text) :
    sees (mark s) c = .ok (decide (nextKind c.ahead = some (.symbol s))) c := by
  simp [sees, sees_mark]

theorem need_cons {k : Kind} (h : t.kind = k) :
    need [.kind k] ⟨behind, t :: ahead, endLine⟩ = .ok t ⟨behind, t :: ahead, endLine⟩ := by
  simp [need, Cursor.current?, Token.fits, Want.accepts, h]

theorem need_of_current {k : Kind} (ht : c.current? = some t) (hk : t.kind = k) :
    need [.kind k] c = .ok t c := by
  simp [need, ht, hk, Token.fits, Want.accepts]

theorem need_of_ne {k : Kind} (h : nextKind c.ahead ≠ some k) :
    need [.kind k] c = .error (.unexpected (c.unexpected [.kind k])) c := by
  rcases c with ⟨behind, _ | ⟨t, ahead⟩, endLine⟩
  · rfl
  · have hk : t.kind ≠ k := by simpa using h
    simp [need, Cursor.current?, Token.fits, Want.accepts, hk, refuse]

theorem need_eq_ok {k : Kind} {c' : Cursor} (h : need [.kind k] c = .ok t c') :
    c.current? = some t ∧ t.kind = k ∧ c' = c := by
  unfold need at h
  split at h
  · rename_i token htoken
    split at h
    · rename_i hfits
      cases h
      exact ⟨htoken, by simpa [Token.fits, Want.accepts] using hfits, rfl⟩
    · cases h
  · cases h

theorem take_cons {k : Kind} (h : t.kind = k) :
    take [.kind k] ⟨behind, t :: ahead, endLine⟩ = .ok t.text ⟨t :: behind, ahead, endLine⟩ := by
  rw [take, bind_of_ok (need_cons h), bind_of_ok (advance_cons t)]
  rfl

theorem discard_bind {α : Type} (s : Text) (f : Unit → Reading α) :
    (discard (take (mark s)) >>= f) =
      (need [.kind (.symbol s)] >>= fun _ => advance >>= fun _ => f ()) := by
  show (((fun _ => ()) <$> take (mark s)) >>= f) = _
  simp [take, mark, Want.symbol]

/-- The operator that a token of the kind is, in the role. -/
def operatorOf (role : Role) : Option Kind → Option Text
  | some (.symbol s) => if role ∈ Symbol.roles s then some s else none
  | _ => none

theorem operatorOf_eq_some {role : Role} {k : Option Kind} :
    operatorOf role k = some s ↔ k = some (.symbol s) ∧ role ∈ Symbol.roles s := by
  unfold operatorOf
  split
  · split
    · rename_i spelling hrole
      constructor
      · rintro ⟨⟩
        exact ⟨rfl, hrole⟩
      · rintro ⟨⟨⟩, -⟩
        rfl
    · rename_i spelling hrole
      refine iff_of_false nofun ?_
      rintro ⟨⟨⟩, hrole'⟩
      exact hrole hrole'
  · rename_i hsymbol
    refine iff_of_false nofun ?_
    rintro ⟨rfl, -⟩
    exact hsymbol s rfl

theorem operator?_eq (c : Cursor) (role : Role) :
    c.operator? role = operatorOf role (nextKind c.ahead) := by
  rcases c with ⟨behind, _ | ⟨⟨kind, text, space, line⟩, ahead⟩, endLine⟩
  · rfl
  · cases kind <;> rfl

theorem takeOperator?_cons {role : Role} (h : t.kind = .symbol s) (hr : role ∈ Symbol.roles s) :
    takeOperator? role ⟨behind, t :: ahead, endLine⟩ =
      .ok (some s) ⟨t :: behind, ahead, endLine⟩ := by
  simp [takeOperator?, operator?_eq, h, operatorOf, hr, Cursor.advance]

theorem takeOperator?_of_none {role : Role} (h : operatorOf role (nextKind c.ahead) = none) :
    takeOperator? role c = .ok none c := by
  simp [takeOperator?, operator?_eq, h]

theorem operator_bind {α : Type} (role : Role) (f : Option Text → Reading α) (c : Cursor) :
    (takeOperator? role >>= f) c =
      match operatorOf role (nextKind c.ahead) with
      | some s => f (some s) c.advance
      | none => f none c := by
  cases h : operatorOf role (nextKind c.ahead) <;>
    simp [bind, EStateM.bind, takeOperator?, operator?_eq, h]

theorem operatorOf_of_binaryOperator? {least : Nat} {found : Text × Nat}
    (h : binaryOperator? c least = some found) :
    operatorOf .binary (nextKind c.ahead) = some found.1 := by
  unfold binaryOperator? at h
  rw [operator?_eq] at h
  simp only [Option.bind_eq_bind, Option.bind_eq_some_iff] at h
  obtain ⟨s, hs, power, -, h⟩ := h
  split at h <;> cases h
  exact hs

theorem spaced_cons (t : Token) (behind ahead : List Token) (endLine : Nat) :
    Cursor.spaced ⟨t :: behind, ahead, endLine⟩ = !t.space.isEmpty := by
  simp [Cursor.spaced, Cursor.previous?]

/-! ## Where loops of the grammar end -/

section Loops

variable {scope : Scope} {inner : Inner}

theorem accesses_of_ne
    (h : ∀ s ∈ [['.'], ['['], ['-', '>']], nextKind c.ahead ≠ some (.symbol s)) (bound : Nat)
    (base : Expr) : accesses scope inner bound base c = .ok base c := by
  cases bound with
  | zero => rfl
  | succ bound =>
    rw [accesses]
    dsimp only [String.reduceToList]
    rw [bind_of_ok (skip_of_ne (h _ (by decide))), if_neg (by decide),
      bind_of_ok (skip_of_ne (h _ (by decide))), if_neg (by decide),
      bind_of_ok (skip_of_ne (h _ (by decide)))]
    rfl

theorem modifierArguments_of_ne (h : nextKind c.ahead ≠ some (.symbol [':'])) (inBranch : Bool)
    (bound : Nat) : modifierArguments scope inner inBranch bound c = .ok [] c := by
  cases bound with
  | zero => rfl
  | succ bound =>
    rw [modifierArguments]
    dsimp only [String.reduceToList]
    rw [get_bind, bind_of_ok (sees_eq _ _), decide_eq_false h, Bool.and_false,
      if_neg Bool.false_ne_true, bind_of_ok (skip_of_ne h)]
    rfl

theorem modifiers_of_ne (h : nextKind c.ahead ≠ some (.symbol ['|'])) (inBranch : Bool)
    (bound : Nat) (value : Expr) : modifiers scope inner inBranch bound value c = .ok value c := by
  cases bound with
  | zero => rfl
  | succ bound =>
    rw [modifiers]
    dsimp only [String.reduceToList]
    rw [bind_of_ok (skip_of_ne h)]
    rfl

theorem climb_of_none {next : Reading Expr} {least : Nat} (h : binaryOperator? c least = none)
    (bound : Nat) (left : Expr) : climb next bound least left c = .ok left c := by
  cases bound with
  | zero => rfl
  | succ bound =>
    rw [climb, get_bind, h]
    rfl

theorem binaryOperator?_of_plain (h : ∀ s, nextKind c.ahead ≠ some (.symbol s)) (least : Nat) :
    binaryOperator? c least = none := by
  cases hop : binaryOperator? c least with
  | none => rfl
  | some found => exact absurd (operatorOf_eq_some.mp (operatorOf_of_binaryOperator? hop)).1 (h _)

end Loops

end Reading

end Stencil
