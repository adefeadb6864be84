import Stencil.Proofs.Onward

/-!
# White space that gets lost between two tokens

Readers look at the kinds and the texts of tokens. White space counts in one place only: in the
first branch of a choice, a colon with white space before it ends the arguments of a modifier. So
two runs over the same tokens agree, even if white space is lost at some place in the second, unless
that place is in front of such a colon.
-/

namespace Stencil

open Grammar Reading

/-! ## Tokens side by side -/

namespace Token

/-- The tokens differ at most in their lines and in the white space behind them. -/
structure Same (t u : Token) : Prop where
  kind : u.kind = t.kind
  text : u.text = t.text

namespace Same

variable {t u : Token}

theorem fits (h : t.Same u) (wants : List Want) : u.fits wants = t.fits wants := by
  have haccepts : ∀ want : Want, want.accepts u = want.accepts t := by
    intro want
    cases want <;> simp [Want.accepts, roles, h.kind]
  simp [Token.fits, haccepts]

theorem name (h : t.Same u) : u.name = t.name := by simp [Token.name, h.kind, h.text]

theorem isConstant (h : t.Same u) : u.isConstant = t.isConstant := by
  simp [Token.isConstant, h.kind, h.text]

theorem unquote? (h : t.Same u) : u.unquote? = t.unquote? := by
  simp [Token.unquote?, h.kind, h.text]

end Same

end Token

/-- A place between two tokens of a tag. -/
structure Seam where
  scope : Scope
  /-- The cursor at the start of the tag. -/
  origin : Cursor
  /-- The cursor at the place. -/
  place : Cursor

namespace Seam

/-- White space in front of the last `left` tokens is kept, or lost at the place of the seam. -/
def Keeps (s : Seam) (left : Nat) (spaced spaced' : Bool) : Prop :=
  spaced' = spaced ∨ left = s.place.ahead.length ∧ spaced = true

/-- The same tokens, white space at the seam apart. -/
inductive AlignedFrom (s : Seam) : List Token → List Token → Prop
  | nil : AlignedFrom s [] []
  | cons {t u : Token} {ts us : List Token} (h : t.Same u)
      (hspace : s.Keeps ts.length (!t.space.isEmpty) (!u.space.isEmpty))
      (hmore : AlignedFrom s ts us) : AlignedFrom s (t :: ts) (u :: us)

/-- The cursors stand at the same place of the same tokens, white space at the seam apart. -/
structure Aligned (s : Seam) (c d : Cursor) : Prop where
  ahead : s.AlignedFrom c.ahead d.ahead
  spaced : s.Keeps c.ahead.length c.spaced d.spaced

variable {s : Seam} {c d : Cursor}

theorem AlignedFrom.length_eq {ts us : List Token} (h : s.AlignedFrom ts us) :
    us.length = ts.length := by
  induction h with
  | nil => rfl
  | cons _ _ _ ih => simp [ih]

namespace Aligned

theorem nextKind_eq (h : s.Aligned c d) : nextKind d.ahead = nextKind c.ahead := by
  obtain ⟨behind, ahead, endLine⟩ := c
  obtain ⟨behind', ahead', endLine'⟩ := d
  cases h.ahead with
  | nil => rfl
  | cons htoken _ _ => simp [htoken.kind]

theorem current (h : s.Aligned c d) {t : Token} (ht : c.current? = some t) :
    ∃ u, d.current? = some u ∧ t.Same u := by
  obtain ⟨behind, ahead, endLine⟩ := c
  obtain ⟨behind', ahead', endLine'⟩ := d
  cases h.ahead with
  | nil => cases ht
  | cons htoken _ _ =>
    cases ht
    exact ⟨_, rfl, htoken⟩

theorem sees_eq (h : s.Aligned c d) (wants : List Want) : d.sees wants = c.sees wants := by
  obtain ⟨behind, ahead, endLine⟩ := c
  obtain ⟨behind', ahead', endLine'⟩ := d
  cases h.ahead with
  | nil => rfl
  | cons htoken _ _ => simp [Cursor.sees, Cursor.current?, htoken.fits]

theorem seesNext_eq (h : s.Aligned c d) (wants : List Want) :
    d.seesNext wants = c.seesNext wants := by
  obtain ⟨behind, ahead, endLine⟩ := c
  obtain ⟨behind', ahead', endLine'⟩ := d
  cases h.ahead with
  | nil => rfl
  | cons _ _ hmore =>
    cases hmore with
    | nil => rfl
    | cons htoken _ _ => simp [Cursor.seesNext, Cursor.next?, htoken.fits]

theorem advance (h : s.Aligned c d) : s.Aligned c.advance d.advance := by
  obtain ⟨behind, ahead, endLine⟩ := c
  obtain ⟨behind', ahead', endLine'⟩ := d
  cases h.ahead with
  | nil => exact h
  | cons _ hspace hmore =>
    refine ⟨hmore, ?_⟩
    simp only [Cursor.advance, spaced_cons]
    exact hspace

end Aligned

end Seam

theorem Cursor.Onward.eq_of_length {c c' c'' : Cursor} (h : c.Onward c') (h' : c.Onward c'')
    (hlength : c'.ahead.length = c''.ahead.length) : c' = c'' := by
  obtain ⟨passed, hahead, hbehind, hline⟩ := h
  obtain ⟨passed', hahead', hbehind', hline'⟩ := h'
  obtain ⟨rfl, hsame⟩ := List.append_inj' (hahead.symm.trans hahead') hlength
  obtain ⟨behind, ahead, endLine⟩ := c'
  obtain ⟨behind', ahead', endLine'⟩ := c''
  cases hsame
  cases hbehind.trans hbehind'.symm
  cases hline.trans hline'.symm
  rfl

/-! ## Two runs -/

namespace Seam

/-- A colon comes next at the seam. -/
def Colon (s : Seam) : Prop := nextKind s.place.ahead = some (.symbol ":")

/--
Where the first run succeeds, so does the second, with the same result and at the same place; or
else the first stops at the seam, in front of a colon, and `E` holds of its start.
-/
def Twins {α : Type} (s : Seam) (E : Cursor → Prop) (read : Reading α) : Prop :=
  ∀ c d a c', s.origin.Onward c → s.Aligned c d → read c = .ok a c' → c.Onward c' ∧
    ((∃ d', read d = .ok a d' ∧ s.Aligned c' d') ∨ E c ∧ s.Colon ∧ c' = s.place)

/-- What holds of a cursor holds of all before it. -/
def Persists (E : Cursor → Prop) : Prop := ∀ c c', c.Onward c' → E c' → E c

/-- The runs always agree. -/
abbrev Agrees {α : Type} (s : Seam) (read : Reading α) : Prop := s.Twins (fun _ => False) read

/-- In front of a colon at the seam the reader stays there. -/
def Stays {α : Type} (s : Seam) (read : Reading α) : Prop :=
  ∀ a c, s.Colon → read s.place = .ok a c → c = s.place

variable {s : Seam}

theorem Stays.pure {α : Type} (a : α) : s.Stays (pure a) := by
  rintro _ _ _ ⟨⟩
  rfl

theorem Stays.bind {α β : Type} {read : Reading α} {f : α → Reading β} (h : s.Stays read)
    (hf : ∀ a, s.Stays (f a)) : s.Stays (read >>= f) := by
  intro b c hcolon hrun
  obtain ⟨a, c', hread, hrest⟩ := bind_eq_ok hrun
  obtain rfl := h a c' hcolon hread
  exact hf a b c hcolon hrest

namespace Twins

variable {α β : Type} {E : Cursor → Prop} {read : Reading α} {f : α → Reading β}

theorem mono {E' : Cursor → Prop} (h : s.Twins E read) (hE : ∀ c, E c → E' c) :
    s.Twins E' read := by
  intro c d a c' honward haligned hrun
  obtain ⟨hfirst, hsame⟩ := h c d a c' honward haligned hrun
  exact ⟨hfirst, hsame.imp_right (.imp_left (hE c))⟩

theorem pure (a : α) : s.Twins E (pure a) := by
  rintro c d _ _ _ haligned ⟨⟩
  exact ⟨.refl c, .inl ⟨d, rfl, haligned⟩⟩

theorem refuse (wants : List Want) : s.Twins E (refuse wants : Reading α) := by
  rintro c d a c' _ _ ⟨⟩

theorem throw (fault : Fault) : s.Twins E (throw fault : Reading α) := by
  rintro c d a c' _ _ ⟨⟩

theorem after {read : Reading β} (hE : Persists E) (h : s.Twins E read) {c c' c'' d' : Cursor}
    {b : β} (honward : s.origin.Onward c) (hpassed : c.Onward c') (haligned : s.Aligned c' d')
    (hrun : read c' = .ok b c'') : c.Onward c'' ∧
      ((∃ d'', read d' = .ok b d'' ∧ s.Aligned c'' d'') ∨ E c ∧ s.Colon ∧ c'' = s.place) := by
  obtain ⟨hmore, hsame⟩ := h c' d' b c'' (honward.trans hpassed) haligned hrun
  exact ⟨hpassed.trans hmore, hsame.imp_right (.imp_left (hE c c' hpassed))⟩

theorem seq (hE : Persists E) (h : s.Agrees read) (hf : ∀ a, s.Twins E (f a)) :
    s.Twins E (read >>= f) := by
  intro c d b c'' honward haligned hrun
  obtain ⟨a, c', hread, hrest⟩ := bind_eq_ok hrun
  obtain ⟨hpassed, ⟨d', hread', haligned'⟩ | ⟨hnever, -⟩⟩ := h c d a c' honward haligned hread
  · rw [bind_of_ok hread']
    exact (hf a).after hE honward hpassed haligned' hrest
  · exact hnever.elim

/-- The first part may stop at the seam if all that follows stays there. -/
theorem bind (hE : Persists E) (h : s.Twins E read) (hstays : ∀ a, s.Stays (f a))
    (hf : ∀ a, s.Twins E (f a)) : s.Twins E (read >>= f) := by
  intro c d b c'' honward haligned hrun
  obtain ⟨a, c', hread, hrest⟩ := bind_eq_ok hrun
  obtain ⟨hpassed, ⟨d', hread', haligned'⟩ | ⟨hstart, hcolon, rfl⟩⟩ :=
    h c d a c' honward haligned hread
  · rw [bind_of_ok hread']
    exact (hf a).after hE honward hpassed haligned' hrest
  · obtain rfl := hstays a b c'' hcolon hrest
    exact ⟨hpassed, .inr ⟨hstart, hcolon, rfl⟩⟩

end Twins

namespace Agrees

variable {α β : Type} {read : Reading α} {f : α → Reading β}

theorem bind (h : s.Agrees read) (hf : ∀ a, s.Agrees (f a)) : s.Agrees (read >>= f) :=
  Twins.seq (fun _ _ _ => id) h hf

theorem map (h : s.Agrees read) {g : α → β} : s.Agrees (g <$> read) := by
  rw [map_eq_pure_bind]
  exact bind h fun a => .pure _

theorem guard {p : Prop} [Decidable p] {fault : Fault} {g : PUnit → Reading α}
    (h : s.Agrees read) : s.Agrees (if p then MonadExcept.throw fault >>= g else read) := by
  split
  · rintro c d a c' _ _ ⟨⟩
  · exact h

theorem orThrow {p : Prop} [Decidable p] {fault : Fault} {g : PUnit → Reading α}
    (h : s.Agrees read) : s.Agrees (if p then read else MonadExcept.throw fault >>= g) := by
  split
  · exact h
  · rintro c d a c' _ _ ⟨⟩

/-! ### Steps -/

theorem done {c d : Cursor} (h : s.Aligned c d) (a : α) : c.Onward c.advance ∧
    ((∃ d', (.ok a d.advance : EStateM.Result Fault Cursor α) = .ok a d' ∧
      s.Aligned c.advance d') ∨ False ∧ s.Colon ∧ c.advance = s.place) :=
  ⟨.advance c, .inl ⟨_, rfl, h.advance⟩⟩

theorem advance : s.Agrees advance := by
  rintro c d _ _ _ haligned ⟨⟩
  exact done haligned ()

theorem remaining : s.Agrees remaining := by
  rintro c d _ _ _ haligned ⟨⟩
  refine ⟨.refl c, .inl ⟨d, ?_, haligned⟩⟩
  rw [Reading.remaining, haligned.ahead.length_eq]

theorem sees (wants : List Want) : s.Agrees (sees wants) := by
  rintro c d _ _ _ haligned ⟨⟩
  refine ⟨.refl c, .inl ⟨d, ?_, haligned⟩⟩
  rw [Reading.sees, haligned.sees_eq]

theorem skip (wants : List Want) : s.Agrees (skip wants) := by
  intro c d found c' _ haligned hrun
  unfold Reading.skip at hrun ⊢
  rw [haligned.sees_eq]
  split at hrun
  · rename_i hsees
    cases hrun
    exact ⟨.advance c, .inl ⟨_, if_pos hsees, haligned.advance⟩⟩
  · rename_i hsees
    cases hrun
    exact ⟨.refl c, .inl ⟨_, if_neg hsees, haligned⟩⟩

theorem takeOperator (role : Role) : s.Agrees (takeOperator? role) := by
  intro c d found c' _ haligned hrun
  unfold Reading.takeOperator? at hrun ⊢
  rw [operator?_eq] at hrun ⊢
  rw [haligned.nextKind_eq]
  split at hrun
  · cases hrun
    exact ⟨.advance c, .inl ⟨_, rfl, haligned.advance⟩⟩
  · cases hrun
    exact ⟨.refl c, .inl ⟨_, rfl, haligned⟩⟩

theorem token (wants : List Want) {g : Token → Reading β}
    (hsame : ∀ t u : Token, t.Same u → g u = g t) (h : ∀ t, s.Agrees (g t)) :
    s.Agrees (need wants >>= fun t => Reading.advance >>= fun _ => g t) := by
  intro c d b c' honward haligned hrun
  obtain ⟨t, c₁, hneed, hrest⟩ := bind_eq_ok hrun
  unfold need at hneed
  split at hneed
  · rename_i token htoken
    split at hneed
    · rename_i hfits
      cases hneed
      obtain ⟨u, hu, hsame'⟩ := haligned.current htoken
      have hneed' : need wants d = .ok u d := by
        simp [need, hu, hsame'.fits, hfits]
      rw [bind_of_ok hneed', hsame t u hsame']
      exact advance.bind (fun _ => h t) c d b c' honward haligned hrest
    · cases hneed
  · cases hneed

theorem take (wants : List Want) : s.Agrees (take wants) := by
  unfold Reading.take
  exact token wants (fun t u hsame => by rw [hsame.text]) fun t => .pure _

theorem discard (wants : List Want) : s.Agrees (discard (Reading.take wants)) := (take wants).map

end Agrees

/-! ## Parts of expressions -/

section Parts

variable {scope : Scope} {inner : Inner}

theorem agrees_argumentsFrom (h : s.Agrees inner.read) (bound : Nat) :
    s.Agrees (argumentsFrom inner bound) := by
  induction bound with
  | zero => exact .refuse _
  | succ bound ih =>
    unfold argumentsFrom
    refine h.bind fun first => (Agrees.skip _).bind fun found => ?_
    split
    · exact .pure _
    · exact (Agrees.discard _).bind fun _ => ih.bind fun _ => .pure _

theorem agrees_arguments (h : s.Agrees inner.read) : s.Agrees (arguments inner) := by
  unfold arguments
  refine (Agrees.discard _).bind fun _ => (Agrees.skip _).bind fun found => ?_
  split
  · exact .pure _
  · exact agrees_argumentsFrom h _

theorem agrees_itemsFrom (h : s.Agrees inner.read) (bound : Nat) :
    s.Agrees (itemsFrom inner bound) := by
  induction bound with
  | zero => exact .refuse _
  | succ bound ih =>
    unfold itemsFrom
    refine (Agrees.skip _).bind fun closed => ?_
    split
    · exact .pure _
    · refine h.bind fun first => (Agrees.sees _).bind fun last => ?_
      have hrest : s.Agrees (do return first :: (← itemsFrom inner bound)) :=
        ih.bind fun more => .pure _
      dsimp only
      split
      · exact hrest
      · exact (Agrees.discard _).bind fun _ => hrest

theorem agrees_items (h : s.Agrees inner.read) : s.Agrees (items inner) := by
  unfold items
  exact (Agrees.discard _).bind fun _ => agrees_itemsFrom h _

theorem agrees_dotted (base : Expr) : s.Agrees (dotted base) := by
  intro c d e c' _ haligned hrun
  unfold dotted at hrun ⊢
  cases hcurrent : c.current? with
  | none =>
    rw [hcurrent] at hrun
    cases hrun
  | some t =>
    obtain ⟨u, hu, hsame⟩ := haligned.current hcurrent
    rw [hcurrent] at hrun
    simp only [hu, hsame.kind, hsame.text, hsame.name]
    dsimp only at hrun
    split at hrun
    · cases hrun
      exact Agrees.done haligned _
    · cases hrun
      exact Agrees.done haligned _
    · cases hrun
      exact Agrees.done haligned _
    · cases hrun

theorem agrees_arrowed (h : s.Agrees inner.read) (base : Expr) :
    s.Agrees (arrowed scope inner base) := by
  unfold arrowed
  refine (Agrees.take _).bind fun name => (Agrees.sees _).bind fun called => ?_
  dsimp only
  split
  · exact .guard ((agrees_arguments h).bind fun _ => .pure _)
  · exact .pure _

theorem agrees_accesses (h : s.Agrees inner.read) (bound : Nat) (base : Expr) :
    s.Agrees (accesses scope inner bound base) := by
  induction bound generalizing base with
  | zero => exact .pure _
  | succ bound ih =>
    unfold accesses
    refine (Agrees.skip _).bind fun point => ?_
    split
    · exact (agrees_dotted base).bind ih
    refine (Agrees.skip _).bind fun bracket => ?_
    split
    · exact h.bind fun key => (Agrees.discard _).bind fun _ => ih _
    refine (Agrees.skip _).bind fun arrow => ?_
    split
    · exact (agrees_arrowed h base).bind ih
    · exact .pure _

theorem agrees_targetWith (h : s.Agrees inner.read) : s.Agrees (targetWith scope inner) := by
  have hvariable : s.Agrees loopVariable :=
    Agrees.token _ (fun t u hsame => by rw [hsame.name]) fun t => .pure _
  unfold targetWith
  exact hvariable.bind fun name => agrees_accesses h _ _

theorem agrees_counted (h : s.Agrees inner.read) : s.Agrees (counted scope inner) := by
  unfold counted
  refine (agrees_targetWith h).bind fun place => (Agrees.takeOperator _).bind fun op => ?_
  split <;> exact .pure _

theorem agrees_call (h : s.Agrees inner.read) : s.Agrees (call scope inner) := by
  unfold call
  refine (Agrees.take _).bind fun name => ?_
  exact .orThrow ((agrees_arguments h).bind fun _ => .pure _)

theorem agrees_parenthesised (h : s.Agrees inner.read) : s.Agrees (parenthesised inner) := by
  unfold parenthesised
  exact Agrees.advance.bind fun _ => h.bind fun e => (Agrees.discard _).bind fun _ => .pure _

theorem agrees_word (h : s.Agrees inner.read) {t u : Token} (hsame : t.Same u) {c d c' : Cursor}
    {e : Expr} (honward : s.origin.Onward c) (haligned : s.Aligned c d)
    (hrun : word scope inner t c = .ok e c') :
    c.Onward c' ∧ ((∃ d', word scope inner u d = .ok e d' ∧ s.Aligned c' d') ∨
      False ∧ s.Colon ∧ c' = s.place) := by
  unfold word at hrun ⊢
  rw [hsame.isConstant, hsame.text, haligned.seesNext_eq]
  split at hrun
  · rename_i hconstant
    cases hrun
    exact ⟨.advance c, .inl ⟨_, if_pos hconstant, haligned.advance⟩⟩
  rename_i hconstant
  rw [if_neg hconstant]
  split at hrun
  · rename_i hcalled
    rw [if_pos hcalled]
    exact agrees_call h c d e c' honward haligned hrun
  · cases hrun

theorem agrees_term (h : s.Agrees inner.read) : s.Agrees (term scope inner) := by
  intro c d e c' honward haligned hrun
  unfold term at hrun ⊢
  cases hcurrent : c.current? with
  | none =>
    rw [hcurrent] at hrun
    cases hrun
  | some t =>
    obtain ⟨u, hu, hsame⟩ := haligned.current hcurrent
    rw [hcurrent] at hrun
    simp only [hu, hsame.kind, hsame.text, hsame.unquote?]
    dsimp only at hrun
    split at hrun
    · cases hrun
      exact Agrees.done haligned _
    · cases hrun
      exact Agrees.done haligned _
    · cases hrun
      exact Agrees.done haligned _
    · exact agrees_counted h c d e c' honward haligned hrun
    · exact agrees_word h hsame honward haligned hrun
    · exact agrees_parenthesised h c d e c' honward haligned hrun
    · exact (agrees_items h).map c d e c' honward haligned hrun
    · cases hrun

theorem agrees_modifierArgument (h : s.Agrees inner.read) :
    s.Agrees (modifierArgument scope inner) := by
  unfold modifierArgument
  refine (Agrees.takeOperator _).bind fun op => ?_
  split
  · exact (agrees_term h).bind fun _ => .pure _
  · exact agrees_term h

end Parts

/-! ## Modifiers -/

/-- How the expressions inside of one are read. -/
def innerAt (scope : Scope) (depth : Nat) : Inner :=
  { read := expressionWithin scope depth false, bound := depth + 1 }

/-- A modifier in a first branch, read from behind its bar at `c` or later, ends at the seam. -/
def EndsModifier (s : Seam) (c : Cursor) : Prop :=
  ∃ b depth value e, c.Onward b ∧ b.seesPrevious (mark "|") = true ∧
    modifier s.scope (innerAt s.scope depth) true value b = .ok e s.place

/--
The seam stands in front of the colon of a choice: what is read as the first branch from behind a
question mark ends there, and so does a modifier in it.
-/
def Cuts (s : Seam) : Prop :=
  s.Colon ∧ ∃ q depth e, s.origin.Onward q ∧ q.seesPrevious (mark "?") = true ∧
    expressionWithin s.scope depth true q = .ok e s.place ∧ s.EndsModifier q

/-- The excuse of what is read in a branch. -/
def Branch (s : Seam) (inBranch : Bool) (c : Cursor) : Prop := inBranch = true ∧ s.EndsModifier c

theorem persists_branch (inBranch : Bool) : Persists (s.Branch inBranch) := by
  rintro c c' honward ⟨hbranch, b, depth, value, e, hbar, hrest⟩
  exact ⟨hbranch, b, depth, value, e, honward.trans hbar, hrest⟩

theorem seesPrevious_advance {c : Cursor} {t : Text} (h : nextKind c.ahead = some (.symbol t)) :
    c.advance.seesPrevious (mark t) = true := by
  rcases c with ⟨behind, _ | ⟨u, ahead⟩, endLine⟩
  · cases h
  · have hkind : u.kind = .symbol t := Option.some.inj h
    simp [Cursor.advance, Cursor.seesPrevious, Cursor.previous?, mark, Token.fits, Want.symbol,
      Want.accepts, hkind]

section Modifiers

variable {scope : Scope} {inner : Inner} {inBranch : Bool} {bound depth : Nat}

theorem twins_modifierArguments (h : s.Agrees inner.read) (hplace : s.origin.Onward s.place)
    (inBranch : Bool) (bound : Nat) :
    s.Twins (fun _ => inBranch = true) (modifierArguments scope inner inBranch bound) := by
  induction bound with
  | zero => exact .pure _
  | succ bound ih =>
    have hpersists : Persists fun _ => inBranch = true := fun _ _ _ => id
    have hrest : s.Twins (fun _ => inBranch = true) (do
        unless ← skip (mark ":") do return []
        let first ← modifierArgument scope inner
        return first :: (← modifierArguments scope inner inBranch bound)) := by
      refine .seq hpersists (Agrees.skip _) fun found => ?_
      split
      · refine .seq hpersists (agrees_modifierArgument h) fun first => ?_
        exact ih.bind hpersists (fun _ => .pure _) fun _ => .pure _
      · exact .pure _
    have hnone : s.Twins (fun _ => inBranch = true) (pure [] : Reading (List Expr)) := .pure _
    intro c d es c' honward haligned hrun
    unfold modifierArguments at hrun ⊢
    rw [get_bind, bind_of_ok (Reading.sees_eq _ _)] at hrun ⊢
    rw [haligned.nextKind_eq]
    rcases haligned.spaced with hsame | ⟨hleft, hspaced⟩
    · rw [hsame]
      split at hrun
      · rename_i hends
        rw [if_pos hends]
        exact hnone c d es c' honward haligned hrun
      · rename_i hends
        rw [if_neg hends]
        exact hrest c d es c' honward haligned hrun
    by_cases hends : inBranch = true ∧ nextKind c.ahead = some (.symbol ":")
    · -- The first run takes the colon for the end of the branch.
      rw [if_pos (by simp [hends, hspaced])] at hrun
      cases hrun
      have hseam : c = s.place := honward.eq_of_length hplace hleft
      rw [hseam] at hends
      exact ⟨.refl c, .inr ⟨hends.1, hends.2, hseam⟩⟩
    · have hgo (spaced : Bool) : ¬ (inBranch && spaced &&
          decide (nextKind c.ahead = some (.symbol ":"))) = true := by
        simp only [Bool.and_eq_true, decide_eq_true_eq]
        exact fun hall => hends ⟨hall.1.1, hall.2⟩
      rw [if_neg (hgo _)] at hrun ⊢
      exact hrest c d es c' honward haligned hrun

theorem twins_modifier (h : s.Agrees inner.read) (hplace : s.origin.Onward s.place)
    (inBranch : Bool) (value : Expr) :
    s.Twins (fun _ => inBranch = true) (modifier scope inner inBranch value) := by
  have hpersists : Persists fun _ => inBranch = true := fun _ _ _ => id
  unfold modifier
  refine .seq hpersists (Agrees.take _) fun name => ?_
  split
  · exact .throw _
  · exact (twins_modifierArguments h hplace inBranch _).bind hpersists (fun _ => .pure _)
      fun _ => .pure _

theorem stays_skip {α : Type} {t : Text} (ht : t ≠ ":") {f : Bool → Reading α}
    (h : s.Stays (f false)) : s.Stays (skip (mark t) >>= f) := by
  intro a c hcolon hrun
  have hne : nextKind s.place.ahead ≠ some (.symbol t) := by
    rw [show nextKind s.place.ahead = _ from hcolon]
    simpa using Ne.symm ht
  rw [skip_bind, if_neg hne] at hrun
  exact h a c hcolon hrun

theorem stays_modifiers (bound : Nat) (value : Expr) :
    s.Stays (modifiers scope inner inBranch bound value) := by
  cases bound with
  | zero => exact .pure _
  | succ bound =>
    unfold modifiers
    exact stays_skip (by decide) (.pure _)

theorem twins_modifiers (h : s.Agrees (expressionWithin s.scope depth false))
    (hplace : s.origin.Onward s.place) (inBranch : Bool) (bound : Nat) (value : Expr) :
    s.Twins (s.Branch inBranch)
      (modifiers s.scope (innerAt s.scope depth) inBranch bound value) := by
  induction bound generalizing value with
  | zero => exact .pure _
  | succ bound ih =>
    intro c d e c' honward haligned hrun
    unfold modifiers at hrun ⊢
    rw [skip_bind] at hrun ⊢
    rw [haligned.nextKind_eq]
    split at hrun
    · rename_i hbar
      rw [if_pos hbar]
      simp only [if_true] at hrun ⊢
      have hstep := Cursor.Onward.advance c
      obtain ⟨v, c₁, hmodifier, hmore⟩ := bind_eq_ok hrun
      obtain ⟨hpassed, ⟨d₁, hmodifier', haligned'⟩ | ⟨rfl, hcolon, rfl⟩⟩ :=
        twins_modifier h hplace inBranch value _ _ _ _ (honward.trans hstep) haligned.advance
          hmodifier
      · rw [bind_of_ok hmodifier']
        exact (ih v).after (persists_branch inBranch) honward (hstep.trans hpassed) haligned' hmore
      · obtain rfl := stays_modifiers bound v e c' hcolon hmore
        refine ⟨hstep.trans hpassed, .inr ⟨⟨rfl, c.advance, depth, value, v, hstep, ?_, ?_⟩,
          hcolon, rfl⟩⟩
        · exact seesPrevious_advance hbar
        · exact hmodifier
    · rename_i hbar
      rw [if_neg hbar]
      exact Twins.pure value c d e c' honward haligned hrun

theorem twins_operand (h : s.Agrees (expressionWithin s.scope depth false))
    (hplace : s.origin.Onward s.place) (inBranch : Bool) (bound : Nat) :
    s.Twins (s.Branch inBranch) (operand s.scope (innerAt s.scope depth) inBranch bound) := by
  have hpersists := s.persists_branch inBranch
  induction bound with
  | zero => exact .refuse _
  | succ bound ih =>
    unfold operand
    refine .seq hpersists (Agrees.takeOperator _) fun sign => ?_
    split
    · exact ih.bind hpersists (fun _ => .pure _) fun _ => .pure _
    refine .seq hpersists (Agrees.takeOperator _) fun step => ?_
    split
    · exact .seq hpersists (agrees_targetWith h) fun _ => .pure _
    · exact .seq hpersists (agrees_term h) fun value => twins_modifiers h hplace inBranch _ value

end Modifiers

/-! ## Operators and choices -/

section Choices

variable {E : Cursor → Prop} {next : Reading Expr} {depth : Nat}

theorem stays_climb (bound least : Nat) (left : Expr) : s.Stays (climb next bound least left) := by
  cases bound with
  | zero => exact .pure _
  | succ bound =>
    intro a c hcolon hrun
    have hnone : binaryOperator? s.place least = none := by
      rw [binaryOperator?, operator?_eq, show nextKind s.place.ahead = _ from hcolon]
      rfl
    unfold climb at hrun
    rw [get_bind, hnone] at hrun
    cases hrun
    rfl

theorem twins_climb (hE : Persists E) (h : s.Twins E next) (bound least : Nat) (left : Expr) :
    s.Twins E (climb next bound least left) := by
  induction bound generalizing least left with
  | zero => exact .pure _
  | succ bound ih =>
    intro c d e c' honward haligned hrun
    unfold climb at hrun ⊢
    have hsame : binaryOperator? d least = binaryOperator? c least := by
      simp [binaryOperator?, operator?_eq, haligned.nextKind_eq]
    rw [get_bind] at hrun ⊢
    rw [hsame]
    cases hop : binaryOperator? c least with
    | none =>
      rw [hop] at hrun
      exact Twins.pure left c d e c' honward haligned hrun
    | some found =>
      rw [hop] at hrun
      have hgo : s.Twins E (do
          advance
          let first ← next
          let right ← climb next bound (found.2 + 1) first
          climb next bound least (.binary found.1 left right)) := by
        refine .seq hE Agrees.advance fun _ => h.bind hE (fun first => ?_) fun first => ?_
        · exact (stays_climb _ _ _).bind fun _ => stays_climb _ _ _
        · exact (ih _ first).bind hE (fun _ => stays_climb _ _ _) fun _ => ih _ _
      exact hgo c d e c' honward haligned hrun

theorem twins_operation (h : s.Agrees (expressionWithin s.scope depth false))
    (hplace : s.origin.Onward s.place) (inBranch : Bool) :
    s.Twins (s.Branch inBranch) (operation s.scope (innerAt s.scope depth) inBranch) := by
  have hpersists := s.persists_branch inBranch
  have hoperand := twins_operand h hplace inBranch (innerAt s.scope depth).bound
  unfold operation
  exact hoperand.bind hpersists (fun _ => stays_climb _ _ _) fun first =>
    twins_climb hpersists hoperand _ _ first

theorem agrees_yes (hcuts : ¬ s.Cuts)
    (h : s.Twins (s.Branch true) (expressionWithin s.scope depth true)) {c d c' : Cursor} {e : Expr}
    (honward : s.origin.Onward c) (haligned : s.Aligned c d)
    (hmark : c.seesPrevious (mark "?") = true)
    (hrun : expressionWithin s.scope depth true c = .ok e c') :
    c.Onward c' ∧ ∃ d', expressionWithin s.scope depth true d = .ok e d' ∧ s.Aligned c' d' := by
  obtain ⟨hpassed, hsame | ⟨⟨-, hmodifier⟩, hcolon, rfl⟩⟩ := h c d e c' honward haligned hrun
  · exact ⟨hpassed, hsame⟩
  · exact absurd ⟨hcolon, c, depth, e, honward, hmark, hrun, hmodifier⟩ hcuts

theorem twins_choice (hcuts : ¬ s.Cuts) (hplace : s.origin.Onward s.place)
    (h : ∀ inBranch, s.Twins (s.Branch inBranch) (expressionWithin s.scope depth inBranch))
    (inBranch : Bool) :
    s.Twins (s.Branch inBranch)
      (choice s.scope (expressionWithin s.scope depth) (depth + 1) inBranch) := by
  have hpersists := s.persists_branch inBranch
  have hinner : s.Agrees (expressionWithin s.scope depth false) :=
    (h false).mono fun _ hbranch => Bool.false_ne_true hbranch.1
  have hlast (make : Expr → Expr) : s.Twins (s.Branch inBranch)
      (do return make (← expressionWithin s.scope depth inBranch)) :=
    (h inBranch).bind hpersists (fun _ => .pure _) fun _ => .pure _
  unfold choice
  refine (twins_operation hinner hplace inBranch).bind hpersists (fun condition => ?_)
    fun condition => ?_
  · exact stays_skip (by decide) (.pure _)
  intro c d e c' honward haligned hrun
  rw [skip_bind] at hrun ⊢
  rw [haligned.nextKind_eq]
  split at hrun
  · rename_i hmark
    rw [if_pos hmark]
    have hstep := Cursor.Onward.advance c
    simp only [if_true] at hrun ⊢
    rw [skip_bind] at hrun ⊢
    rw [haligned.advance.nextKind_eq]
    split at hrun
    · rename_i hshort
      rw [if_pos hshort]
      exact (hlast _).after hpersists honward (hstep.trans (.advance _)) haligned.advance.advance
        hrun
    · rename_i hshort
      rw [if_neg hshort]
      obtain ⟨yes, c₁, hyes, hrest⟩ := bind_eq_ok hrun
      obtain ⟨hpassed, d₁, hyes', haligned'⟩ := agrees_yes hcuts (h true) (honward.trans hstep)
        haligned.advance (seesPrevious_advance hmark) hyes
      have hno : s.Twins (s.Branch inBranch) (do
          discard <| take (mark ":")
          return Expr.choice condition yes (← expressionWithin s.scope depth inBranch)) :=
        .seq hpersists (Agrees.discard _) fun _ => hlast _
      rw [if_neg Bool.false_ne_true, bind_of_ok hyes']
      exact hno.after hpersists honward (hstep.trans hpassed) haligned' hrest
  · rename_i hmark
    rw [if_neg hmark]
    exact Twins.pure condition c d e c' honward haligned hrun

theorem twins_expressionWithin (hcuts : ¬ s.Cuts) (hplace : s.origin.Onward s.place) (depth : Nat)
    (inBranch : Bool) : s.Twins (s.Branch inBranch) (expressionWithin s.scope depth inBranch) := by
  induction depth generalizing inBranch with
  | zero => exact .refuse _
  | succ depth ih =>
    unfold expressionWithin
    exact twins_choice hcuts hplace ih inBranch

/-- Unless the seam cuts off a branch, both runs read the same expression. -/
theorem agrees_expression (hcuts : ¬ s.Cuts) (hplace : s.origin.Onward s.place) :
    s.Agrees (expression s.scope) := by
  unfold expression
  refine Agrees.remaining.bind fun n => ?_
  exact (twins_expressionWithin hcuts hplace n false).mono
    fun _ hbranch => Bool.false_ne_true hbranch.1

end Choices

end Seam

end Stencil
