import Stencil.Proofs.Progress
import Stencil.Proofs.Seams

/-!
# Tokens with others behind them

What stands behind an expression ends it as the end of the tokens does, if it starts with no symbol.
Two runs of a reader are put side by side, the second one with a sequel behind the tokens of the
first. They agree as long as the first succeeds; where it fails, the second one fails too or has
gone into the sequel. The bounds of loops may differ: a run never uses more than the tokens it has.
-/

namespace Stencil

open Grammar Reading

/-! ## Cursors side by side -/

/-- Tokens that begin with no symbol. -/
structure Sequel where
  tokens : List Token
  plain : ∀ s, nextKind tokens ≠ some (.symbol s)

namespace Sequel

/--
The second tokens are the first with the sequel behind them. The white space behind the last of the
first may change. A token at their end that is no word of any kind may swallow the sequel.
-/
inductive Extends (q : Sequel) : List Token → List Token → Prop
  | done : Extends q [] q.tokens
  | swallowed {t u : Token} (ht : t.kind = .stray) (hu : u.kind = .stray) : Extends q [t] [u]
  | cons {t u : Token} {ts us : List Token} (h : t.Same u)
      (hspace : ts ≠ [] → u.space.isEmpty = t.space.isEmpty) (hmore : Extends q ts us) :
      Extends q (t :: ts) (u :: us)

/-- The cursors stand at the same place, the second one with the sequel behind. -/
structure Beside (q : Sequel) (c d : Cursor) : Prop where
  position : d.position = c.position
  ahead : q.Extends c.ahead d.ahead
  spaced : c.ahead ≠ [] → d.spaced = c.spaced

variable {q : Sequel} {c d : Cursor}

namespace Extends

variable {ts us : List Token}

theorem eq_of_nil (h : q.Extends [] us) : us = q.tokens := by
  cases h
  rfl

theorem length_le (h : q.Extends ts us) : ts.length ≤ us.length := by
  induction h with
  | done => exact Nat.zero_le _
  | swallowed => exact Nat.le_refl _
  | cons _ _ _ ih => exact Nat.succ_le_succ ih

theorem length_eq (h : q.Extends ts us) : us.length = ts.length + q.tokens.length ∨
    ∃ u ∈ us.getLast?, u.kind = .stray := by
  induction h with
  | done => exact .inl (Nat.zero_add _).symm
  | swallowed _ hu => exact .inr ⟨_, rfl, hu⟩
  | @cons t u ts us _ _ _ ih =>
    refine ih.imp (fun hlength => ?_) fun ⟨last, hlast, hstray⟩ => ⟨last, ?_, hstray⟩
    · rw [List.length_cons, List.length_cons, hlength]
      omega
    · rw [List.getLast?_cons, Option.mem_def.mp hlast]
      rfl

theorem nextKind_eq (h : q.Extends ts us) (hts : ts ≠ []) : nextKind us = nextKind ts := by
  cases h with
  | done => exact absurd rfl hts
  | swallowed ht hu => simp [ht, hu]
  | cons h _ _ => simp [h.kind]

theorem symbol_iff (h : q.Extends ts us) (s : Text) :
    nextKind us = some (.symbol s) ↔ nextKind ts = some (.symbol s) := by
  by_cases hts : ts = []
  · subst hts
    rw [h.eq_of_nil]
    exact iff_of_false (q.plain s) nofun
  · rw [h.nextKind_eq hts]

theorem operatorOf_eq (h : q.Extends ts us) (role : Role) :
    operatorOf role (nextKind us) = operatorOf role (nextKind ts) := by
  refine Option.ext fun s => ?_
  rw [operatorOf_eq_some, operatorOf_eq_some, h.symbol_iff]

end Extends

namespace Beside

/-- The current token is the same in both runs and passed in the same way, or it is the one that
swallows the sequel. -/
theorem current (h : q.Beside c d) {t : Token} (ht : c.current? = some t) :
    ∃ u, d.current? = some u ∧
      (t.Same u ∧ q.Beside c.advance d.advance ∨ t.kind = .stray ∧ u.kind = .stray) := by
  obtain ⟨behind, ahead, endLine⟩ := c
  obtain ⟨behind', ahead', endLine'⟩ := d
  cases h.ahead with
  | done => cases ht
  | swallowed hstray hstray' =>
    cases ht
    exact ⟨_, rfl, .inr ⟨hstray, hstray'⟩⟩
  | cons hsame hspace hmore =>
    cases ht
    refine ⟨_, rfl, .inl ⟨hsame, congrArg (· + 1) h.position, hmore, fun hnext => ?_⟩⟩
    simp only [Cursor.advance, spaced_cons, hspace hnext]

theorem seesNext_eq (h : q.Beside c d) {t : Token} (ht : c.current? = some t) (s : Text) :
    d.seesNext (mark s) = c.seesNext (mark s) := by
  have hnext (e : Cursor) : e.seesNext (mark s) =
      decide (nextKind e.ahead.tail = some (.symbol s)) :=
    sees_mark ⟨[], e.ahead.tail, 0⟩ s
  rw [hnext, hnext, decide_eq_decide]
  obtain ⟨behind, ahead, endLine⟩ := c
  obtain ⟨behind', ahead', endLine'⟩ := d
  cases h.ahead with
  | done => cases ht
  | swallowed _ _ => rfl
  | cons _ _ hmore => exact hmore.symbol_iff s

theorem advance (h : q.Beside c d) {s : Text} (hs : nextKind c.ahead = some (.symbol s)) :
    q.Beside c.advance d.advance := by
  obtain ⟨t, ht, hk⟩ := exists_current hs
  obtain ⟨u, -, ⟨-, hnext⟩ | ⟨hstray, -⟩⟩ := h.current ht
  · exact hnext
  · cases hk.symm.trans hstray

end Beside

/-! ## Two runs -/

/-- What came of both runs: the same, or else the first failed and the second is in the sequel. -/
def Agree {α : Type} (q : Sequel) :
    EStateM.Result Fault Cursor α → EStateM.Result Fault Cursor α → Prop
  | .ok a c, .ok a' d => a' = a ∧ q.Beside c d
  | .ok _ _, .error _ _ => False
  | .error _ _, .ok _ d => d.ahead.length < q.tokens.length
  | .error _ _, .error _ _ => True

theorem Agree.ok {α : Type} {a : α} {r : EStateM.Result Fault Cursor α} (h : q.Agree (.ok a c) r) :
    ∃ d, r = .ok a d ∧ q.Beside c d := by
  cases r with
  | ok a' d =>
    obtain ⟨rfl, hbeside⟩ := h
    exact ⟨d, rfl, hbeside⟩
  | error fault d => exact h.elim

/-- A second run that did not go into the sequel had the first beside it. -/
theorem Agree.of_ok {α : Type} {a : α} {r : EStateM.Result Fault Cursor α} (h : q.Agree r (.ok a d))
    (hleft : q.tokens.length ≤ d.ahead.length) : ∃ c, r = .ok a c ∧ q.Beside c d := by
  cases r with
  | ok a' c =>
    obtain ⟨rfl, hbeside⟩ := h
    exact ⟨c, rfl, hbeside⟩
  | error fault c => exact absurd hleft (Nat.not_le.mpr h)

/-- The readers agree where the first has at most `n` tokens left. -/
structure Mates {α : Type} (q : Sequel) (n : Nat) (read read' : Reading α) : Prop where
  forward : Forward read
  forward' : Forward read'
  agree : ∀ c d, q.Beside c d → c.ahead.length ≤ n → q.Agree (read c) (read' d)

/-- At the end of the first tokens the second run goes into the sequel, or fails. -/
theorem agree_of_consumes {α : Type} {read' : Reading α} (h : Consumes read')
    (hbeside : q.Beside c d) (hend : c.ahead = []) (fault : Fault) (c' : Cursor) :
    q.Agree (.error fault c') (read' d) := by
  cases hread : read' d with
  | ok a d' =>
    have hahead := hbeside.ahead
    rw [hend] at hahead
    have hlength := h d a d' hread
    rwa [hahead.eq_of_nil] at hlength
  | error fault' d' => trivial

theorem agree_of_current {α : Type} {read read' : Reading α} (h : Consumes read')
    (hbeside : q.Beside c d) (hend : c.current? = none → ∃ fault, read c = .error fault c)
    (hsame : ∀ t u, c.current? = some t → d.current? = some u → t.Same u →
      q.Beside c.advance d.advance → q.Agree (read c) (read' d))
    (hstray : ∀ t u, c.current? = some t → d.current? = some u → t.kind = .stray →
      u.kind = .stray → q.Agree (read c) (read' d)) : q.Agree (read c) (read' d) := by
  cases hcurrent : c.current? with
  | none =>
    obtain ⟨fault, hread⟩ := hend hcurrent
    rw [hread]
    exact agree_of_consumes h hbeside (List.head?_eq_none_iff.mp hcurrent) fault c
  | some t =>
    obtain ⟨u, hu, ⟨htoken, hnext⟩ | ⟨ht, hu'⟩⟩ := hbeside.current hcurrent
    · exact hsame t u hcurrent hu htoken hnext
    · exact hstray t u hcurrent hu ht hu'

namespace Mates

variable {α β : Type} {n m : Nat} {read read' : Reading α} {f f' : α → Reading β}

theorem mono (h : q.Mates n read read') (hm : m ≤ n) : q.Mates m read read' where
  forward := h.forward
  forward' := h.forward'
  agree c d hbeside hc := h.agree c d hbeside (Nat.le_trans hc hm)

theorem pure (a : α) : q.Mates n (pure a) (pure a) where
  forward := .pure a
  forward' := .pure a
  agree _ _ hbeside _ := ⟨rfl, hbeside⟩

theorem refuse (wants : List Want) :
    q.Mates n (refuse wants : Reading α) (Reading.refuse wants) where
  forward := .refuse wants
  forward' := .refuse wants
  agree _ _ _ _ := trivial

theorem throw {fault : Fault} (hfault : fault.line? = none) :
    q.Mates n (throw fault : Reading α) (MonadExcept.throw fault) where
  forward := .throw hfault
  forward' := .throw hfault
  agree _ _ _ _ := trivial

theorem zero (wants : List Want) (h : Consumes read') (hforward : Forward read') :
    q.Mates 0 (Reading.refuse wants) read' where
  forward := .refuse wants
  forward' := hforward
  agree _ _ hbeside hc :=
    agree_of_consumes h hbeside (List.eq_nil_of_length_eq_zero (Nat.le_zero.mp hc)) _ _

theorem ended (a : α) (hforward : Forward read')
    (h : ∀ d : Cursor, (∀ s, nextKind d.ahead ≠ some (.symbol s)) → read' d = .ok a d) :
    q.Mates 0 (Pure.pure a) read' where
  forward := .pure a
  forward' := hforward
  agree c d hbeside hc := by
    have hend : c.ahead = [] := List.eq_nil_of_length_eq_zero (Nat.le_zero.mp hc)
    rw [h d fun s => by simp [hbeside.ahead.symbol_iff, hend]]
    exact ⟨rfl, hbeside⟩

theorem seq (h : q.Mates n read read')
    (hleft : ∀ c a c', read c = .ok a c' → c.ahead.length ≤ n → c'.ahead.length ≤ m)
    (hf : ∀ a, q.Mates m (f a) (f' a)) : q.Mates n (read >>= f) (read' >>= f') where
  forward := h.forward.bind fun a => (hf a).forward
  forward' := h.forward'.bind fun a => (hf a).forward'
  agree c d hbeside hc := by
    have hfirst := h.agree c d hbeside hc
    cases hread : read c with
    | ok a c' =>
      rw [hread] at hfirst
      rw [bind_of_ok hread]
      cases hread' : read' d with
      | ok a' d' =>
        rw [hread'] at hfirst
        rw [bind_of_ok hread']
        obtain ⟨rfl, hbeside'⟩ := hfirst
        exact (hf a').agree c' d' hbeside' (hleft c a' c' hread hc)
      | error fault d' =>
        rw [hread'] at hfirst
        exact hfirst.elim
    | error fault c' =>
      rw [hread] at hfirst
      rw [bind_of_error hread]
      cases hread' : read' d with
      -- The second run went into the sequel, and readers never go back.
      | ok a' d' =>
        rw [hread'] at hfirst
        rw [bind_of_ok hread']
        cases hrest : f' a' d' with
        | ok b d'' => exact Nat.lt_of_le_of_lt ((hf a').forward'.ok hrest).length_le hfirst
        | error fault' d'' => trivial
      | error fault' d' =>
        rw [bind_of_error hread']
        trivial

theorem bind (h : q.Mates n read read') (hf : ∀ a, q.Mates n (f a) (f' a)) :
    q.Mates n (read >>= f) (read' >>= f') :=
  h.seq (fun _ _ _ hread hc => Nat.le_trans (h.forward.ok hread).length_le hc) hf

theorem next (h : q.Mates n read read') (hread : Consumes read)
    (hf : ∀ a, q.Mates (n - 1) (f a) (f' a)) : q.Mates n (read >>= f) (read' >>= f') := by
  refine h.seq (fun c a c' hrun hc => ?_) hf
  have hpassed := hread c a c' hrun
  omega

theorem map (h : q.Mates n read read') {g : α → β} : q.Mates n (g <$> read) (g <$> read') := by
  rw [map_eq_pure_bind, map_eq_pure_bind]
  exact h.bind fun a => .pure _

/-! ### Steps -/

theorem token {k : Kind} (hk : k ≠ .stray) {f f' : Token → Reading β}
    (h : ∀ t u : Token, t.Same u → q.Mates (n - 1) (f t) (f' u)) :
    q.Mates n (need [.kind k] >>= fun t => advance >>= fun _ => f t)
      (need [.kind k] >>= fun t => advance >>= fun _ => f' t) where
  forward :=
    (Forward.need _).bind fun t => Forward.advance.bind fun _ => (h t t ⟨rfl, rfl⟩).forward
  forward' :=
    (Forward.need _).bind fun t => Forward.advance.bind fun _ => (h t t ⟨rfl, rfl⟩).forward'
  agree c d hbeside hc := by
    refine agree_of_current (.token _ fun t => (h t t ⟨rfl, rfl⟩).forward') hbeside ?_ ?_ ?_
    · intro hnone
      exact ⟨_, bind_of_error (need_of_ne (by simp [List.head?_eq_none_iff.mp hnone]))⟩
    · intro t u ht hu hsame hnext
      by_cases hkind : t.kind = k
      · rw [bind_of_ok (need_of_current ht hkind),
          bind_of_ok (need_of_current hu (hsame.kind.trans hkind))]
        have hstep := c.length_advance_lt (nextKind_of_current ht)
        exact (h t u hsame).agree c.advance d.advance hnext (by omega)
      · rw [bind_of_error (need_of_ne (by simpa [nextKind_of_current ht] using hkind)),
          bind_of_error (need_of_ne (by simpa [nextKind_of_current hu, hsame.kind] using hkind))]
        trivial
    · intro t u ht hu hstray hstray'
      rw [bind_of_error (need_of_ne (by simpa [nextKind_of_current ht, hstray] using hk.symm)),
        bind_of_error (need_of_ne (by simpa [nextKind_of_current hu, hstray'] using hk.symm))]
      trivial

theorem take {k : Kind} (hk : k ≠ .stray) :
    q.Mates n (take [.kind k]) (Reading.take [.kind k]) :=
  token hk fun t u hsame => by
    rw [hsame.text]
    exact .pure _

theorem takeWord (word : Text) : q.Mates n (takeWord word) (Reading.takeWord word) where
  forward := .takeWord word
  forward' := .takeWord word
  agree c d hbeside _ := by
    refine agree_of_current (.takeWord word) hbeside ?_ ?_ ?_
    · intro hnone
      exact ⟨_, by rw [Reading.takeWord, hnone]⟩
    · intro t u ht hu hsame hnext
      simp only [Reading.takeWord, ht, hu, hsame.kind, hsame.text]
      split
      · exact ⟨rfl, hnext⟩
      · trivial
    · intro t u ht hu hstray hstray'
      simp [Reading.takeWord, ht, hu, hstray, hstray', Agree]

theorem mark (s : Text) :
    q.Mates n (discard (Reading.take (mark s))) (discard (Reading.take (Grammar.mark s))) :=
  (take (by simp)).map

theorem skip (s : Text) {f f' : Bool → Reading α} (htrue : q.Mates (n - 1) (f true) (f' true))
    (hfalse : q.Mates n (f false) (f' false)) :
    q.Mates n (skip (Grammar.mark s) >>= f) (Reading.skip (Grammar.mark s) >>= f') where
  forward := (Forward.skip _).bind fun found => by
    cases found
    · exact hfalse.forward
    · exact htrue.forward
  forward' := (Forward.skip _).bind fun found => by
    cases found
    · exact hfalse.forward'
    · exact htrue.forward'
  agree c d hbeside hc := by
    rw [skip_bind, skip_bind]
    simp only [hbeside.ahead.symbol_iff]
    split
    · rename_i hs
      refine htrue.agree _ _ (hbeside.advance hs) ?_
      have hstep := c.length_advance_lt hs
      omega
    · exact hfalse.agree c d hbeside hc

theorem operator (role : Role) {f f' : Option Text → Reading α}
    (hsome : ∀ op, q.Mates (n - 1) (f (some op)) (f' (some op)))
    (hnone : q.Mates n (f none) (f' none)) :
    q.Mates n (takeOperator? role >>= f) (takeOperator? role >>= f') where
  forward := (Forward.takeOperator _).bind fun found => by
    cases found with
    | none => exact hnone.forward
    | some op => exact (hsome op).forward
  forward' := (Forward.takeOperator _).bind fun found => by
    cases found with
    | none => exact hnone.forward'
    | some op => exact (hsome op).forward'
  agree c d hbeside hc := by
    rw [operator_bind, operator_bind, hbeside.ahead.operatorOf_eq]
    cases hop : operatorOf role (nextKind c.ahead) with
    | none => exact hnone.agree c d hbeside hc
    | some op =>
      obtain ⟨hs, -⟩ := operatorOf_eq_some.mp hop
      refine (hsome op).agree _ _ (hbeside.advance hs) ?_
      have hstep := c.length_advance_lt hs
      omega

theorem sees (s : Text) :
    q.Mates n (sees (Grammar.mark s)) (Reading.sees (Grammar.mark s)) where
  forward := .sees _
  forward' := .sees _
  agree c d hbeside _ := by
    rw [sees_eq, sees_eq]
    exact ⟨by simp only [hbeside.ahead.symbol_iff], hbeside⟩

theorem orThrow {p : Prop} [Decidable p] {fault : Fault} {g : PUnit → Reading α}
    (hfault : fault.line? = none) (h : q.Mates n read read') :
    q.Mates n (if p then read else MonadExcept.throw fault >>= g)
      (if p then read' else MonadExcept.throw fault >>= g) where
  forward := .orThrow hfault h.forward
  forward' := .orThrow hfault h.forward'
  agree c d hbeside hc := by
    split
    · exact h.agree c d hbeside hc
    · trivial

theorem guard {p : Prop} [Decidable p] {fault : Fault} {g : PUnit → Reading α}
    (hfault : fault.line? = none) (h : q.Mates n read read') :
    q.Mates n (if p then MonadExcept.throw fault >>= g else read)
      (if p then MonadExcept.throw fault >>= g else read') where
  forward := .guard hfault h.forward
  forward' := .guard hfault h.forward'
  agree c d hbeside hc := by
    split
    · trivial
    · exact h.agree c d hbeside hc

end Mates

/-! ## Parts of expressions -/

/-- How both runs read the expressions inside another one, where that starts with `n + 1` tokens. -/
structure InnerMates (q : Sequel) (n : Nat) (inner inner' : Inner) : Prop where
  read : q.Mates n inner.read inner'.read
  consumes : Consumes inner.read
  bound : n < inner.bound
  bound_le : inner.bound ≤ inner'.bound

section Parts

variable {scope : Scope} {inner inner' : Inner} {n m bound bound' : Nat}

theorem mates_argumentsFrom (h : q.InnerMates n inner inner') (hbound : bound ≤ bound') (hm : m ≤ n)
    (hleft : m ≤ bound) : q.Mates m (argumentsFrom inner bound) (argumentsFrom inner' bound') := by
  induction bound generalizing m bound' with
  | zero =>
    obtain rfl := Nat.le_zero.mp hleft
    exact .zero _ (consumes_argumentsFrom h.read.forward' _)
      (forward_argumentsFrom h.read.forward' _)
  | succ bound ih =>
    obtain ⟨bound', rfl⟩ := Nat.exists_eq_add_of_le' (Nat.le_trans (Nat.succ_pos _) hbound)
    unfold argumentsFrom
    refine (h.read.mono hm).bind fun first => .skip _ (.pure _) ?_
    refine (Mates.mark _).next (.discard _) fun _ => ?_
    exact (ih (by omega) (by omega) (by omega)).bind fun _ => .pure _

theorem mates_arguments (h : q.InnerMates n inner inner') :
    q.Mates (n + 1) (arguments inner) (arguments inner') := by
  unfold arguments
  have hbound := h.bound
  refine (Mates.mark _).next (.discard _) fun _ => .skip _ (.pure _) ?_
  exact mates_argumentsFrom h h.bound_le (by omega) (by omega)

theorem mates_itemsFrom (h : q.InnerMates n inner inner') (hbound : bound ≤ bound') (hm : m ≤ n)
    (hleft : m ≤ bound) : q.Mates m (itemsFrom inner bound) (itemsFrom inner' bound') := by
  induction bound generalizing m bound' with
  | zero =>
    obtain rfl := Nat.le_zero.mp hleft
    exact .zero _ (consumes_itemsFrom h.read.forward' _) (forward_itemsFrom h.read.forward' _)
  | succ bound ih =>
    obtain ⟨bound', rfl⟩ := Nat.exists_eq_add_of_le' (Nat.le_trans (Nat.succ_pos _) hbound)
    unfold itemsFrom
    -- An item that stands in front of the bracket is what leaves fewer tokens.
    refine .skip _ (.pure _) ((h.read.mono hm).next h.consumes fun first => ?_)
    have hrest : q.Mates (m - 1) (do return first :: (← itemsFrom inner bound))
        (do return first :: (← itemsFrom inner' bound')) :=
      (ih (by omega) (by omega) (by omega)).bind fun _ => .pure _
    refine (Mates.sees _).bind fun last => ?_
    dsimp only
    split
    · exact hrest
    · exact (Mates.mark _).bind fun _ => hrest

theorem mates_items (h : q.InnerMates n inner inner') :
    q.Mates (n + 1) (items inner) (items inner') := by
  unfold items
  have hbound := h.bound
  refine (Mates.mark _).next (.discard _) fun _ => ?_
  exact mates_itemsFrom h h.bound_le (by omega) (by omega)

theorem mates_dotted (base : Expr) : q.Mates n (dotted base) (dotted base) where
  forward := forward_dotted base
  forward' := forward_dotted base
  agree c d hbeside hc := by
    refine agree_of_current (consumes_dotted base) hbeside ?_ ?_ ?_
    · intro hnone
      exact ⟨_, by rw [dotted, hnone]; rfl⟩
    · intro t u ht hu hsame hnext
      simp only [dotted, ht, hu, hsame.kind, hsame.text, hsame.name]
      split
      · exact ⟨rfl, hnext⟩
      · exact ⟨rfl, hnext⟩
      · exact ⟨rfl, hnext⟩
      · trivial
    · intro t u ht hu hstray hstray'
      simp only [dotted, ht, hu, hstray, hstray']
      trivial

theorem mates_arrowed (h : q.InnerMates n inner inner') (base : Expr) :
    q.Mates (n + 1) (arrowed scope inner base) (arrowed scope inner' base) := by
  unfold arrowed
  refine (Mates.take (by simp)).bind fun name => (Mates.sees _).bind fun called => ?_
  dsimp only
  split
  · exact .guard rfl ((mates_arguments h).bind fun _ => .pure _)
  · exact .pure _

theorem mates_accesses (h : q.InnerMates n inner inner') (hbound : bound ≤ bound') (hm : m ≤ n + 1)
    (hleft : m ≤ bound) (base : Expr) :
    q.Mates m (accesses scope inner bound base) (accesses scope inner' bound' base) := by
  induction bound generalizing m bound' base with
  | zero =>
    obtain rfl := Nat.le_zero.mp hleft
    exact .ended _ (forward_accesses h.read.forward' _ _)
      fun d hd => accesses_of_ne (fun s _ => hd s) _ _
  | succ bound ih =>
    obtain ⟨bound', rfl⟩ := Nat.exists_eq_add_of_le' (Nat.le_trans (Nat.succ_pos _) hbound)
    have hrest (base : Expr) :
        q.Mates (m - 1) (accesses scope inner bound base) (accesses scope inner' bound' base) :=
      ih (by omega) (by omega) (by omega) base
    unfold accesses
    refine .skip _ ((mates_dotted base).bind hrest) ?_
    refine .skip _ ?_ ?_
    · exact (h.read.mono (by omega)).bind fun key => (Mates.mark _).bind fun _ => hrest _
    · exact .skip _ (((mates_arrowed h base).mono (by omega)).bind hrest) (.pure _)

theorem mates_loopVariable : q.Mates n loopVariable loopVariable :=
  .token (by simp) fun t u hsame => by
    rw [hsame.name]
    exact .pure _

theorem mates_targetWith (h : q.InnerMates n inner inner') :
    q.Mates (n + 1) (targetWith scope inner) (targetWith scope inner') := by
  have hbound := h.bound
  unfold targetWith
  exact mates_loopVariable.bind fun name => mates_accesses h h.bound_le (by omega) (by omega) _

theorem mates_counted (h : q.InnerMates n inner inner') :
    q.Mates (n + 1) (counted scope inner) (counted scope inner') := by
  unfold counted
  exact (mates_targetWith h).bind fun place => .operator _ (fun op => .pure _) (.pure _)

theorem mates_call (h : q.InnerMates n inner inner') :
    q.Mates (n + 1) (call scope inner) (call scope inner') := by
  unfold call
  refine (Mates.take (by simp)).bind fun name => ?_
  exact .orThrow rfl ((mates_arguments h).bind fun _ => .pure _)

theorem agree_parenthesised (h : q.InnerMates n inner inner') {c d : Cursor}
    (hbeside : q.Beside c d) (hc : c.ahead.length ≤ n + 1)
    (hopen : nextKind c.ahead = some (.symbol ['('])) :
    q.Agree (parenthesised inner c) (parenthesised inner' d) := by
  have hrest : q.Mates n (do
      let e ← inner.read
      discard <| take (mark ")")
      return e) (do
      let e ← inner'.read
      discard <| take (mark ")")
      return e) := h.read.bind fun e => (Mates.mark _).bind fun _ => .pure _
  have hstep := c.length_advance_lt hopen
  exact hrest.agree _ _ (hbeside.advance hopen) (by omega)

theorem agree_word (h : q.InnerMates n inner inner') {t u : Token} (hsame : t.Same u) {c d : Cursor}
    (hbeside : q.Beside c d) (hcurrent : c.current? = some t) (hnext : q.Beside c.advance d.advance)
    (hc : c.ahead.length ≤ n + 1) :
    q.Agree (word scope inner t c) (word scope inner' u d) := by
  unfold word
  rw [hsame.isConstant, hsame.text, hbeside.seesNext_eq hcurrent]
  split
  · exact ⟨rfl, hnext⟩
  split
  · exact (mates_call h).agree c d hbeside hc
  · trivial

theorem mates_term (h : q.InnerMates n inner inner') :
    q.Mates (n + 1) (term scope inner) (term scope inner') where
  forward := forward_term h.read.forward
  forward' := forward_term h.read.forward'
  agree c d hbeside hc := by
    refine agree_of_current (consumes_term h.read.forward') hbeside ?_ ?_ ?_
    · intro hnone
      exact ⟨_, by rw [term, hnone]; rfl⟩
    · intro t u ht hu hsame hnext
      simp only [term, ht, hu, hsame.kind, hsame.text, hsame.unquote?]
      split
      · exact ⟨rfl, hnext⟩
      · exact ⟨rfl, hnext⟩
      · exact ⟨rfl, hnext⟩
      · exact (mates_counted h).agree c d hbeside hc
      · exact agree_word h hsame hbeside ht hnext hc
      · rename_i hopen
        refine agree_parenthesised h hbeside hc ?_
        rw [nextKind_of_current ht, hopen]
      · exact (mates_items h).map.agree c d hbeside hc
      · trivial
    · intro t u ht hu hstray hstray'
      simp only [term, ht, hu, hstray, hstray']
      trivial

theorem mates_modifierArgument (h : q.InnerMates n inner inner') :
    q.Mates (n + 1) (modifierArgument scope inner) (modifierArgument scope inner') := by
  unfold modifierArgument
  refine .operator _ (fun op => ?_) (mates_term h)
  exact ((mates_term h).mono (by omega)).bind fun _ => .pure _

end Parts

/-! ## Modifiers and operators -/

section Operators

variable {scope : Scope} {inner inner' : Inner} {inBranch : Bool} {n m bound bound' : Nat}

/-- White space counts only in front of a colon, and the sequel is none. -/
theorem mates_modifierArguments (h : q.InnerMates n inner inner') (hbound : bound ≤ bound')
    (hm : m ≤ n + 1) (hleft : m ≤ bound) :
    q.Mates m (modifierArguments scope inner inBranch bound)
      (modifierArguments scope inner' inBranch bound') := by
  induction bound generalizing m bound' with
  | zero =>
    obtain rfl := Nat.le_zero.mp hleft
    exact .ended _ (forward_modifierArguments h.read.forward' _ _)
      fun d hd => modifierArguments_of_ne (hd _) _ _
  | succ bound ih =>
    obtain ⟨bound', rfl⟩ := Nat.exists_eq_add_of_le' (Nat.le_trans (Nat.succ_pos _) hbound)
    have hrest : q.Mates m (do
        unless ← skip (mark ":") do return []
        let first ← modifierArgument scope inner
        return first :: (← modifierArguments scope inner inBranch bound)) (do
        unless ← skip (mark ":") do return []
        let first ← modifierArgument scope inner'
        return first :: (← modifierArguments scope inner' inBranch bound')) := by
      refine .skip _ (((mates_modifierArgument h).mono (by omega)).bind fun first => ?_) (.pure _)
      exact (ih (by omega) (by omega) (by omega)).bind fun _ => .pure _
    refine ⟨forward_modifierArguments h.read.forward _ _,
      forward_modifierArguments h.read.forward' _ _, fun c d hbeside hc => ?_⟩
    have hsame : (d.spaced && decide (nextKind d.ahead = some (.symbol ":"))) =
        (c.spaced && decide (nextKind c.ahead = some (.symbol ":"))) := by
      simp only [hbeside.ahead.symbol_iff]
      by_cases hcolon : nextKind c.ahead = some (.symbol ":")
      · rw [hbeside.spaced fun hnil => by simp [hnil] at hcolon]
      · rw [decide_eq_false hcolon, Bool.and_false, Bool.and_false]
    unfold modifierArguments
    rw [get_bind, get_bind, bind_of_ok (sees_eq _ _), bind_of_ok (sees_eq _ _), Bool.and_assoc,
      Bool.and_assoc, hsame]
    split
    · exact ⟨rfl, hbeside⟩
    · exact hrest.agree c d hbeside hc

theorem mates_modifier (h : q.InnerMates n inner inner') (inBranch : Bool) (value : Expr) :
    q.Mates (n + 1) (modifier scope inner inBranch value)
      (modifier scope inner' inBranch value) := by
  have hbound := h.bound
  unfold modifier
  refine (Mates.take (by simp)).bind fun name => ?_
  cases hsymbol : scope.library.modifier scope.options name with
  | error fault => exact .throw (line?_of_modifier hsymbol)
  | ok symbol =>
    exact (mates_modifierArguments h h.bound_le (by omega) (by omega)).bind fun _ => .pure _

theorem mates_modifiers (h : q.InnerMates n inner inner') (hbound : bound ≤ bound') (hm : m ≤ n + 1)
    (hleft : m ≤ bound) (value : Expr) :
    q.Mates m (modifiers scope inner inBranch bound value)
      (modifiers scope inner' inBranch bound' value) := by
  induction bound generalizing m bound' value with
  | zero =>
    obtain rfl := Nat.le_zero.mp hleft
    exact .ended _ (forward_modifiers h.read.forward' _ _ _)
      fun d hd => modifiers_of_ne (hd _) _ _ _
  | succ bound ih =>
    obtain ⟨bound', rfl⟩ := Nat.exists_eq_add_of_le' (Nat.le_trans (Nat.succ_pos _) hbound)
    unfold modifiers
    refine .skip _ (((mates_modifier h inBranch value).mono (by omega)).bind fun v => ?_) (.pure _)
    exact ih (by omega) (by omega) (by omega) v

theorem mates_operand (h : q.InnerMates n inner inner') (hbound : bound ≤ bound') (hm : m ≤ n + 1)
    (hleft : m ≤ bound) :
    q.Mates m (operand scope inner inBranch bound) (operand scope inner' inBranch bound') := by
  induction bound generalizing m bound' with
  | zero =>
    obtain rfl := Nat.le_zero.mp hleft
    exact .zero _ (consumes_operand h.read.forward' _ _) (forward_operand h.read.forward' _ _)
  | succ bound ih =>
    obtain ⟨bound', rfl⟩ := Nat.exists_eq_add_of_le' (Nat.le_trans (Nat.succ_pos _) hbound)
    have hinner := h.bound
    unfold operand
    refine .operator _ (fun sign => ?_) (.operator _ (fun step => ?_) ?_)
    · exact (ih (by omega) (by omega) (by omega)).bind fun _ => .pure _
    · exact ((mates_targetWith h).mono (by omega)).bind fun _ => .pure _
    · refine ((mates_term h).mono hm).bind fun value => ?_
      exact mates_modifiers h h.bound_le hm (by omega) value

theorem mates_climb {next next' : Reading Expr} (h : q.Mates n next next') (hbound : bound ≤ bound')
    (hm : m ≤ n) (hleft : m ≤ bound) (least : Nat) (left : Expr) :
    q.Mates m (climb next bound least left) (climb next' bound' least left) := by
  induction bound generalizing m bound' least left with
  | zero =>
    obtain rfl := Nat.le_zero.mp hleft
    exact .ended _ (forward_climb h.forward' _ _ _)
      fun d hd => climb_of_none (binaryOperator?_of_plain hd _) _ _
  | succ bound ih =>
    obtain ⟨bound', rfl⟩ := Nat.exists_eq_add_of_le' (Nat.le_trans (Nat.succ_pos _) hbound)
    refine ⟨forward_climb h.forward _ _ _, forward_climb h.forward' _ _ _, fun c d hbeside hc => ?_⟩
    have hsame : binaryOperator? d least = binaryOperator? c least := by
      simp [binaryOperator?, operator?_eq, hbeside.ahead.operatorOf_eq]
    unfold climb
    rw [get_bind, get_bind, hsame]
    cases hop : binaryOperator? c least with
    | none => exact ⟨rfl, hbeside⟩
    | some found =>
      have hs := (operatorOf_eq_some.mp (operatorOf_of_binaryOperator? hop)).1
      have hrest (least : Nat) (left : Expr) :
          q.Mates (m - 1) (climb next bound least left) (climb next' bound' least left) :=
        ih (by omega) (by omega) (by omega) least left
      have hgo : q.Mates (m - 1) (do
          let first ← next
          let right ← climb next bound (found.2 + 1) first
          climb next bound least (.binary found.1 left right)) (do
          let first ← next'
          let right ← climb next' bound' (found.2 + 1) first
          climb next' bound' least (.binary found.1 left right)) :=
        (h.mono (by omega)).bind fun first => (hrest _ first).bind fun right => hrest _ _
      have hstep := c.length_advance_lt hs
      exact hgo.agree _ _ (hbeside.advance hs) (by omega)

theorem mates_operation (h : q.InnerMates n inner inner') (inBranch : Bool) :
    q.Mates (n + 1) (operation scope inner inBranch) (operation scope inner' inBranch) := by
  have hbound := h.bound
  have hoperand : q.Mates (n + 1) (operandHere scope inner inBranch)
      (operandHere scope inner' inBranch) :=
    mates_operand h h.bound_le (by omega) (by omega)
  unfold operation
  exact hoperand.bind fun first => mates_climb hoperand h.bound_le (by omega) (by omega) _ first

theorem mates_expressionWithin (hbound : bound ≤ bound') (inBranch : Bool) :
    q.Mates bound (expressionWithin scope bound inBranch)
      (expressionWithin scope bound' inBranch) := by
  induction bound generalizing bound' inBranch with
  | zero =>
    exact .zero _ (consumes_expressionWithin scope _ _) (forward_expressionWithin scope _ _)
  | succ bound ih =>
    obtain ⟨bound', rfl⟩ := Nat.exists_eq_add_of_le' (Nat.le_trans (Nat.succ_pos _) hbound)
    have hle : bound ≤ bound' := by omega
    have hinner : q.InnerMates bound
        { read := expressionWithin scope bound false, bound := bound + 1 }
        { read := expressionWithin scope bound' false, bound := bound' + 1 } :=
      ⟨ih hle false, consumes_expressionWithin scope _ _, Nat.lt_succ_self _, by omega⟩
    unfold expressionWithin choice
    refine (mates_operation hinner inBranch).bind fun condition => .skip _ ?_ (.pure _)
    refine .skip _ ?_ ?_
    · exact ((ih hle inBranch).mono (by omega)).bind fun _ => .pure _
    · refine (ih hle true).bind fun yes => (Mates.mark _).bind fun _ => ?_
      exact (ih hle inBranch).bind fun _ => .pure _

theorem mates_expression (scope : Scope) (n : Nat) :
    q.Mates n (expression scope) (expression scope) where
  forward := forward_expression scope
  forward' := forward_expression scope
  agree c d hbeside _ :=
    (mates_expressionWithin hbeside.ahead.length_le false).agree c d hbeside (Nat.le_refl _)

end Operators

end Sequel

end Stencil
