import Stencil.Proofs.Attempt
import Stencil.Proofs.Progress

/-!
# Reading without bounds

The readers of expressions once more, with nothing that counts tokens: each calls the others as the
grammar says. How deep the calls may go is given from outside, and a reader that is called deeper
gives nothing. Nothing is what a reader would give for ever that never came to an end; but all that
is read again is read with fewer tokens left, so a depth that grows with the tokens is enough, and
what the readers then give is what the bounded ones give.
-/

namespace Stencil

open Grammar Reading

namespace Unbounded

/-- The readers that call themselves, if only through others. -/
structure Readers where
  expression (inBranch : Bool) : Attempt Cursor Expr
  argumentsFrom : Attempt Cursor (List Expr)
  itemsFrom : Attempt Cursor (List Expr)
  accesses (base : Expr) : Attempt Cursor Expr
  modifierArguments (inBranch : Bool) : Attempt Cursor (List Expr)
  modifiers (inBranch : Bool) (value : Expr) : Attempt Cursor Expr
  operand (inBranch : Bool) : Attempt Cursor Expr
  climb (inBranch : Bool) (least : Nat) (left : Expr) : Attempt Cursor Expr

/-- Readers that are not to be called. -/
def Readers.none : Readers where
  expression _ := Attempt.nothing
  argumentsFrom := Attempt.nothing
  itemsFrom := Attempt.nothing
  accesses _ := Attempt.nothing
  modifierArguments _ := Attempt.nothing
  modifiers _ _ := Attempt.nothing
  operand _ := Attempt.nothing
  climb _ _ _ := Attempt.nothing

section Parts

variable (scope : Scope) (calls : Readers)

def arguments : Attempt Cursor (List Expr) := do
  discard <| take (mark "(")
  if ← skip (mark ")") then return []
  calls.argumentsFrom

def items : Attempt Cursor (List Expr) := do
  discard <| take (mark "[")
  calls.itemsFrom

def arrowed (base : Expr) : Attempt Cursor Expr := do
  let name ← take [.kind .name]
  unless ← sees (mark "(") do return .property base name
  if scope.options.has .denyMethods then throw (.disallowedCall ("->" ++ name ++ "()"))
  return .method base name (← arguments calls)

def targetWith : Attempt Cursor Expr := do
  let name ← loopVariable
  calls.accesses (.variable name)

def counted : Attempt Cursor Expr := do
  let target ← targetWith calls
  match ← takeOperator? .step with
  | some op => return .count (if op = ['+', '+'] then .incrementAfter else .decrementAfter) target
  | none => return target

def call : Attempt Cursor Expr := do
  let name ← take [.kind .name]
  unless scope.library.permits scope.options name do throw (.disallowedCall name)
  return .call name (← arguments calls)

def parenthesised : Attempt Cursor Expr := do
  advance
  let e ← calls.expression false
  discard <| take (mark ")")
  return e

def word (token : Token) : Attempt Cursor Expr := do
  if token.isConstant then
    advance
    return .constant (token.text.map Char.toLower)
  if (← get).seesNext (mark "(") then call scope calls
  else refuse (α := Expr) []

def term : Attempt Cursor Expr := do
  let some token := (← get).current? | refuse (α := Expr) []
  match token.kind with
  | .integer | .float => do
    advance
    return .number token.text
  | .quoted => do
    advance
    return .string (token.unquote?.getD [])
  | .variable => counted calls
  | .name => word scope calls token
  | .symbol ['('] => parenthesised calls
  | .symbol ['['] => Expr.list <$> items calls
  | _ => refuse (α := Expr) []

def modifierArgument : Attempt Cursor Expr := do
  match ← takeOperator? .unary with
  | some op => return .unary op (← term scope calls)
  | none => term scope calls

def modifier (inBranch : Bool) (value : Expr) : Attempt Cursor Expr := do
  let name ← take [.kind .name]
  match scope.library.modifier scope.options name with
  | .error fault => throw fault
  | .ok symbol => return .modified name symbol value (← calls.modifierArguments inBranch)

def operation (inBranch : Bool) (least : Nat) : Attempt Cursor Expr := do
  let first ← calls.operand inBranch
  calls.climb inBranch least first

/-- What each reader does with one call of itself or another. -/
def step : Readers where
  argumentsFrom := do
    let first ← calls.expression false
    if ← skip (mark ")") then return [first]
    discard <| take (mark ",")
    return first :: (← calls.argumentsFrom)
  itemsFrom := do
    if ← skip (mark "]") then return []
    let first ← calls.expression false
    unless ← sees (mark "]") do
      discard <| take (mark ",")
    return first :: (← calls.itemsFrom)
  accesses base := do
    if ← skip (mark ".") then calls.accesses (← dotted base)
    else if ← skip (mark "[") then
      let key ← calls.expression false
      discard <| take (mark "]")
      calls.accesses (.index base key)
    else if ← skip (mark "->") then calls.accesses (← arrowed scope calls base)
    else return base
  modifierArguments inBranch := do
    if inBranch && (← get).spaced && (← sees (mark ":")) then return []
    unless ← skip (mark ":") do return []
    let first ← modifierArgument scope calls
    return first :: (← calls.modifierArguments inBranch)
  modifiers inBranch value := do
    unless ← skip (mark "|") do return value
    calls.modifiers inBranch (← modifier scope calls inBranch value)
  operand inBranch := do
    if let some op ← takeOperator? .unary then
      return .unary op (← calls.operand inBranch)
    if let some op ← takeOperator? .step then
      let target ← targetWith calls
      return .count (if op = ['+', '+'] then .incrementFirst else .decrementFirst) target
    let value ← term scope calls
    calls.modifiers inBranch value
  climb inBranch least left := do
    match binaryOperator? (← get) least with
    | none => return left
    | some (op, power) =>
      advance
      let right ← operation calls inBranch (power + 1)
      calls.climb inBranch least (.binary op left right)
  expression inBranch := do
    let condition ← operation calls inBranch 0
    unless ← skip (mark "?") do return condition
    if ← skip (mark ":") then return .fallback condition (← calls.expression inBranch)
    let yes ← calls.expression true
    discard <| take (mark ":")
    return .choice condition yes (← calls.expression inBranch)

end Parts

/-- The readers, called no deeper than told. -/
def readers (scope : Scope) : Nat → Readers
  | 0 => .none
  | depth + 1 => step scope (readers scope depth)

def expression (scope : Scope) (depth : Nat) : Attempt Cursor Expr :=
  (readers scope depth).expression false

def target (scope : Scope) (depth : Nat) : Attempt Cursor Expr :=
  targetWith (readers scope depth)

def params (scope : Scope) (positional : Bool) : Nat → Attempt Cursor (List Param)
  | 0 => Attempt.nothing
  | depth + 1 => do
    let c ← get
    if c.atEnd then return []
    let first ←
      if c.sees [.kind .name] && c.seesNext (mark "=") then
        let name ← takeAny
        advance
        Param.named name <$> expression scope depth
      else if positional then Param.positional <$> expression scope depth
      else refuse (α := Param) [.kind .name]
    return first :: (← params scope positional depth)

end Unbounded

/-! ## Ending -/

/-- With at most `n` tokens left the run ends, and with what the reader gives. -/
def Meets {α : Type} (n : Nat) (run : Attempt Cursor α) (read : Reading α) : Prop :=
  ∀ c : Cursor, c.ahead.length ≤ n → run c = some (Attempt.outcome id (read c))

namespace Meets

variable {α β : Type} {n : Nat} {run : Attempt Cursor α} {read : Reading α}

theorem lift (read : Reading α) : Meets n (liftM read) read := fun _ _ => rfl

theorem pure (a : α) : Meets n (pure a) (pure a) := fun _ _ => rfl

theorem throw (fault : Fault) : Meets n (throw fault : Attempt Cursor α) (throw fault) :=
  fun _ _ => rfl

theorem bindAt {c : Cursor} {f : α → Attempt Cursor β} {g : α → Reading β}
    (h : run c = some (Attempt.outcome id (read c)))
    (hf : ∀ a c', read c = .ok a c' → f a c' = some (Attempt.outcome id (g a c'))) :
    (run >>= f) c = some (Attempt.outcome id ((read >>= g) c)) :=
  Attempt.bind_eq_outcome (c := c) h hf

theorem bind {f : α → Attempt Cursor β} {g : α → Reading β} (h : Meets n run read)
    (hread : Forward read) (hf : ∀ a, Meets n (f a) (g a)) : Meets n (run >>= f) (read >>= g) := by
  intro c hc
  refine bindAt (h c hc) fun a c' hok => hf a c' ?_
  exact Nat.le_trans (hread.ok hok).length_le hc

theorem past {f : α → Attempt Cursor β} {g : α → Reading β} (h : Meets n run read)
    (hread : Consumes read) (hf : ∀ a, ∀ m < n, Meets m (f a) (g a)) :
    Meets n (run >>= f) (read >>= g) := by
  intro c hc
  refine bindAt (h c hc) fun a c' hok => ?_
  have hlt := hread c a c' hok
  exact hf a c'.ahead.length (by omega) c' (Nat.le_refl _)

theorem map {f : α → β} (h : Meets n run read) : Meets n (f <$> run) (f <$> read) := by
  intro c hc
  rw [map_eq_pure_bind, map_eq_pure_bind]
  exact bindAt (h c hc) fun _ _ _ => rfl

theorem discard (wants : List Want) :
    Meets n (discard (liftM (take wants)) : Attempt Cursor Unit) (discard (take wants)) :=
  (lift _).map

theorem skip (s : Text) {f : Bool → Attempt Cursor α} {g : Bool → Reading α}
    (htrue : ∀ m < n, Meets m (f true) (g true)) (hfalse : Meets n (f false) (g false)) :
    Meets n (liftM (skip (mark s)) >>= f) (skip (mark s) >>= g) := by
  intro c hc
  refine bindAt rfl fun found c' hok => ?_
  unfold Reading.skip at hok
  split at hok
  · rename_i hsees
    cases hok
    have hlt := c.length_advance_lt (by simpa [sees_mark] using hsees)
    exact htrue c.advance.ahead.length (by omega) _ (Nat.le_refl _)
  · cases hok
    exact hfalse c hc

theorem operator (role : Role) {f : Option Text → Attempt Cursor α}
    {g : Option Text → Reading α} (hsome : ∀ op, ∀ m < n, Meets m (f (some op)) (g (some op)))
    (hnone : Meets n (f none) (g none)) :
    Meets n (liftM (takeOperator? role) >>= f) (takeOperator? role >>= g) := by
  intro c hc
  refine bindAt rfl fun found c' hok => ?_
  unfold takeOperator? at hok
  split at hok
  · rename_i op hop
    cases hok
    rw [operator?_eq] at hop
    have hlt := c.length_advance_lt (operatorOf_eq_some.mp hop).1
    exact hsome op c.advance.ahead.length (by omega) _ (Nat.le_refl _)
  · cases hok
    exact hnone c hc

theorem get {f : Cursor → Attempt Cursor α} {g : Cursor → Reading α}
    (h : ∀ c : Cursor, c.ahead.length ≤ n → f c c = some (Attempt.outcome id (g c c))) :
    Meets n (get >>= f) (get >>= g) :=
  fun c hc => h c hc

/--
A reader whose bound is used up has no tokens left, and would do no more with a greater one. One
that may be called at all does what its step says.
-/
theorem of_pos (run : Nat → Attempt Cursor α) {f : Nat → Reading α} {bound depth : Nat}
    (hbound : n ≤ bound) (hdepth : 0 < depth) (hend : ∀ c : Cursor, c.ahead = [] → f 0 c = f 1 c)
    (h : ∀ b d, n ≤ b + 1 → depth = d + 1 → Meets n (run (d + 1)) (f (b + 1))) :
    Meets n (run depth) (f bound) := by
  obtain ⟨d, rfl⟩ : ∃ d, depth = d + 1 := ⟨depth - 1, by omega⟩
  cases bound with
  | zero =>
    intro c hc
    rw [hend c (List.length_eq_zero_iff.mp (by omega))]
    exact h 0 d (by omega) rfl c hc
  | succ b => exact h b d hbound rfl

end Meets

/-! ## At the end of the tokens -/

section AtEnd

variable {scope : Scope} {inner : Inner} {c : Cursor}

theorem nextKind_ne_of_nil (h : c.ahead = []) (s : Text) :
    nextKind c.ahead ≠ some (.symbol s) := by
  simp [h]

theorem skip_of_nil (h : c.ahead = []) (s : Text) : skip (mark s) c = .ok false c :=
  skip_of_ne (nextKind_ne_of_nil h s)

theorem takeOperator?_of_nil (h : c.ahead = []) (role : Role) :
    takeOperator? role c = .ok none c :=
  takeOperator?_of_none (by simp [h, operatorOf])

theorem argumentsFrom_of_nil (h : inner.read c = refuse [] c) (bound : Nat) :
    argumentsFrom inner bound c = refuse [] c := by
  cases bound with
  | zero => rfl
  | succ bound => exact bind_of_error h

theorem itemsFrom_of_nil (hc : c.ahead = []) (h : inner.read c = refuse [] c) (bound : Nat) :
    itemsFrom inner bound c = refuse [] c := by
  cases bound with
  | zero => rfl
  | succ bound =>
    rw [itemsFrom, bind_of_ok (skip_of_nil hc _)]
    exact bind_of_error h

theorem term_of_nil (hc : c.ahead = []) : term scope inner c = refuse [] c := by
  simp [term, Cursor.current?, hc]

theorem operand_of_nil (hc : c.ahead = []) (inBranch : Bool) (bound : Nat) :
    operand scope inner inBranch bound c = refuse [] c := by
  cases bound with
  | zero => rfl
  | succ bound =>
    rw [operand, bind_of_ok (takeOperator?_of_nil hc _)]
    refine (bind_of_ok (takeOperator?_of_nil hc _)).trans ?_
    exact bind_of_error (term_of_nil hc)

theorem expressionWithin_of_nil (hc : c.ahead = []) (depth : Nat) (inBranch : Bool) :
    expressionWithin scope depth inBranch c = refuse [] c := by
  cases depth with
  | zero => rfl
  | succ depth =>
    unfold expressionWithin choice operation
    exact bind_of_error (bind_of_error (operand_of_nil hc inBranch _))

end AtEnd

/-! ## Expressions -/

/--
The reader of inner expressions is right where fewer than `n` tokens are left. A call needs three
levels for each token, and one of an expression two more.
-/
structure Suits (scope : Scope) (n : Nat) (inner : Inner) : Prop where
  meets : ∀ m depth, m < n → 3 * m + 2 ≤ depth →
    Meets m (Unbounded.expression scope depth) inner.read
  forward : Forward inner.read
  consumes : Consumes inner.read
  refuses : ∀ c : Cursor, c.ahead = [] → inner.read c = refuse [] c
  bound : n ≤ inner.bound

section Expressions

open Unbounded (readers)

variable {scope : Scope} {inner : Inner} {n depth : Nat}

theorem Suits.mono (h : Suits scope n inner) {m : Nat} (hm : m < n) : Suits scope m inner :=
  { h with
    meets := fun k depth hk => h.meets k depth (Nat.lt_trans hk hm)
    bound := Nat.le_trans (Nat.le_of_lt hm) h.bound }

theorem meets_argumentsFrom (h : Suits scope n inner) {m bound : Nat} (hm : m < n)
    (hbound : m ≤ bound) (hdepth : 3 * m + 3 ≤ depth) :
    Meets m (readers scope depth).argumentsFrom (argumentsFrom inner bound) := by
  induction m using Nat.strongRecOn generalizing bound depth with
  | ind m ih =>
    refine .of_pos (readers scope · |>.argumentsFrom) hbound (by omega) (fun c hc => ?_)
      fun b d hb hd => ?_
    · rw [argumentsFrom_of_nil (h.refuses c hc), argumentsFrom_of_nil (h.refuses c hc)]
    rw [argumentsFrom]
    refine (h.meets m d hm (by omega)).bind h.forward fun first => ?_
    refine .skip _ (fun _ _ => .pure _) ((Meets.discard _).past (.discard _) fun _ k hk => ?_)
    exact (ih k hk (by omega) (by omega) (by omega)).bind (forward_argumentsFrom h.forward _)
      fun _ => .pure _

theorem meets_arguments (h : Suits scope n inner) (hdepth : 3 * n ≤ depth) :
    Meets n (Unbounded.arguments (readers scope depth)) (arguments inner) := by
  rw [Unbounded.arguments, arguments]
  refine (Meets.discard _).past (.discard _) fun _ m hm => .skip _ (fun _ _ => .pure _) ?_
  exact meets_argumentsFrom h hm (Nat.le_trans (Nat.le_of_lt hm) h.bound) (by omega)

theorem meets_itemsFrom (h : Suits scope n inner) {m bound : Nat} (hm : m < n)
    (hbound : m ≤ bound) (hdepth : 3 * m + 3 ≤ depth) :
    Meets m (readers scope depth).itemsFrom (itemsFrom inner bound) := by
  induction m using Nat.strongRecOn generalizing bound depth with
  | ind m ih =>
    refine .of_pos (readers scope · |>.itemsFrom) hbound (by omega) (fun c hc => ?_)
      fun b d hb hd => ?_
    · rw [itemsFrom_of_nil hc (h.refuses c hc), itemsFrom_of_nil hc (h.refuses c hc)]
    rw [itemsFrom]
    refine .skip _ (fun _ _ => .pure _) ?_
    refine (h.meets m d hm (by omega)).past h.consumes fun first k hk => ?_
    refine (Meets.lift _).bind (.sees _) fun last => ?_
    have hrest := (ih k hk (by omega) (by omega : k ≤ b) (by omega : _ ≤ d)).bind
      (forward_itemsFrom h.forward _) fun more => .pure (first :: more)
    dsimp only
    split
    · exact hrest
    · exact (Meets.discard _).bind (.discard _) fun _ => hrest

theorem meets_items (h : Suits scope n inner) (hdepth : 3 * n ≤ depth) :
    Meets n (Unbounded.items (readers scope depth)) (items inner) := by
  rw [Unbounded.items, items]
  exact (Meets.discard _).past (.discard _) fun _ m hm =>
    meets_itemsFrom h hm (Nat.le_trans (Nat.le_of_lt hm) h.bound) (by omega)

theorem meets_arrowed (h : Suits scope n inner) (hdepth : 3 * n ≤ depth) (base : Expr) :
    Meets n (Unbounded.arrowed scope (readers scope depth) base) (arrowed scope inner base) := by
  rw [Unbounded.arrowed, arrowed]
  refine (Meets.lift _).bind (.take _) fun name => (Meets.lift _).bind (.sees _) fun called => ?_
  dsimp only
  split
  · split
    · exact fun _ _ => rfl
    · exact (meets_arguments h hdepth).bind (forward_arguments h.forward) fun _ => .pure _
  · exact .pure _

theorem meets_accesses (h : Suits scope n inner) {bound : Nat} (hbound : n ≤ bound)
    (hdepth : 3 * n + 1 ≤ depth) (base : Expr) :
    Meets n ((readers scope depth).accesses base) (accesses scope inner bound base) := by
  induction n using Nat.strongRecOn generalizing bound depth base with
  | ind n ih =>
    refine .of_pos (readers scope · |>.accesses base) (f := (accesses scope inner · base))
      hbound (by omega) (fun c hc => ?_) fun b d hb hd => ?_
    · have hne := nextKind_ne_of_nil hc
      rw [accesses_of_ne fun s _ => hne s, accesses_of_ne fun s _ => hne s]
    have hrest (m : Nat) (hm : m < n) (e : Expr) :
        Meets m ((readers scope d).accesses e) (accesses scope inner b e) :=
      ih m hm (h.mono hm) (by omega) (by omega) e
    rw [accesses]
    refine .skip _ (fun m hm => ?_) (.skip _ (fun m hm => ?_) (.skip _ (fun m hm => ?_) (.pure _)))
    · exact (Meets.lift _).bind (forward_dotted base) (hrest m hm)
    · exact (h.meets m d hm (by omega)).bind h.forward fun key =>
        (Meets.discard _).bind (.discard _) fun _ => hrest m hm _
    · exact (meets_arrowed (h.mono hm) (by omega) base).bind (forward_arrowed h.forward base)
        (hrest m hm)

theorem meets_targetWith (h : Suits scope n inner) (hdepth : 3 * n ≤ depth) :
    Meets n (Unbounded.targetWith (readers scope depth)) (targetWith scope inner) := by
  rw [Unbounded.targetWith, targetWith]
  refine (Meets.lift _).past consumes_loopVariable fun name m hm => ?_
  exact meets_accesses (h.mono hm) (h.mono hm).bound (by omega) _

theorem meets_counted (h : Suits scope n inner) (hdepth : 3 * n ≤ depth) :
    Meets n (Unbounded.counted (readers scope depth)) (counted scope inner) := by
  rw [Unbounded.counted, counted]
  refine (meets_targetWith h hdepth).bind (forward_targetWith h.forward) fun place => ?_
  exact .operator _ (fun _ _ _ => .pure _) (.pure _)

theorem meets_call (h : Suits scope n inner) (hdepth : 3 * n ≤ depth) :
    Meets n (Unbounded.call scope (readers scope depth)) (call scope inner) := by
  rw [Unbounded.call, call]
  refine (Meets.lift _).bind (.take _) fun name => ?_
  dsimp only
  split
  · exact (meets_arguments h hdepth).bind (forward_arguments h.forward) fun _ => .pure _
  · exact fun _ _ => rfl

theorem meets_word (h : Suits scope n inner) (hdepth : 3 * n ≤ depth) (token : Token) :
    Meets n (Unbounded.word scope (readers scope depth) token) (word scope inner token) := by
  intro c hc
  rw [Unbounded.word, word]
  by_cases hconstant : token.isConstant = true
  · rw [if_pos hconstant, if_pos hconstant]
    rfl
  rw [if_neg hconstant, if_neg hconstant, Attempt.get_bind]
  by_cases hcall : c.seesNext (mark "(") = true
  · rw [if_pos hcall, if_pos hcall]
    exact meets_call h hdepth c hc
  · rw [if_neg hcall, if_neg hcall]
    rfl

theorem meets_term (h : Suits scope n inner) (hdepth : 3 * n ≤ depth) :
    Meets n (Unbounded.term scope (readers scope depth)) (term scope inner) := by
  intro c hc
  rw [Unbounded.term, term, Attempt.get_bind]
  cases htoken : c.current? with
  | none => rfl
  | some token =>
    dsimp only
    cases token.kind with
    | «variable» => exact meets_counted h hdepth c hc
    | name => exact meets_word h hdepth token c hc
    | symbol s =>
      by_cases hopen : s = ['(']
      · subst hopen
        -- the parenthesis is a token, so fewer are left for the expression after it
        have hlt := c.length_advance_lt (nextKind_of_current htoken)
        have hinner := (h.meets c.advance.ahead.length depth (by omega) (by omega)).bind h.forward
          fun e => (Meets.discard (mark ")")).bind (.discard _) fun _ => .pure e
        exact hinner c.advance (Nat.le_refl _)
      by_cases hlist : s = ['[']
      · subst hlist
        exact (meets_items h hdepth).map c hc
      · simp only [Kind.symbol.injEq, hopen, hlist, imp_self]
        rfl
    | _ => rfl

theorem meets_modifierArgument (h : Suits scope n inner) (hdepth : 3 * n ≤ depth) :
    Meets n (Unbounded.modifierArgument scope (readers scope depth))
      (modifierArgument scope inner) := by
  rw [Unbounded.modifierArgument, modifierArgument]
  refine .operator _ (fun op m hm => ?_) (meets_term h hdepth)
  exact (meets_term (h.mono hm) (by omega)).bind (forward_term h.forward) fun _ => .pure _

theorem meets_modifierArguments (h : Suits scope n inner) (inBranch : Bool) {bound : Nat}
    (hbound : n ≤ bound) (hdepth : 3 * n + 1 ≤ depth) :
    Meets n ((readers scope depth).modifierArguments inBranch)
      (modifierArguments scope inner inBranch bound) := by
  induction n using Nat.strongRecOn generalizing bound depth with
  | ind n ih =>
    refine .of_pos (readers scope · |>.modifierArguments inBranch) hbound (by omega)
      (fun c hc => ?_) fun b d hb hd => ?_
    · have hne := nextKind_ne_of_nil hc
      rw [modifierArguments_of_ne (hne _), modifierArguments_of_ne (hne _)]
    rw [modifierArguments]
    refine .bind (fun _ _ => rfl) .get fun here => (Meets.lift _).bind (.sees _) fun colon => ?_
    split
    · exact .pure _
    refine .skip _ (fun m hm => ?_) (.pure _)
    refine (meets_modifierArgument (h.mono hm) (by omega)).bind
      (forward_modifierArgument h.forward) fun first => ?_
    exact (ih m hm (h.mono hm) (by omega) (by omega)).bind
      (forward_modifierArguments h.forward inBranch b) fun _ => .pure _

theorem meets_modifier (h : Suits scope n inner) (hdepth : 3 * n ≤ depth) (inBranch : Bool)
    (value : Expr) :
    Meets n (Unbounded.modifier scope (readers scope depth) inBranch value)
      (modifier scope inner inBranch value) := by
  rw [Unbounded.modifier, modifier]
  refine (Meets.lift _).past (.take _) fun name m hm => ?_
  cases scope.library.modifier scope.options name with
  | error fault => exact .throw _
  | ok symbol =>
    exact (meets_modifierArguments (h.mono hm) inBranch (h.mono hm).bound (by omega)).bind
      (forward_modifierArguments h.forward inBranch _) fun _ => .pure _

theorem meets_modifiers (h : Suits scope n inner) (inBranch : Bool) {bound : Nat}
    (hbound : n ≤ bound) (hdepth : 3 * n + 1 ≤ depth) (value : Expr) :
    Meets n ((readers scope depth).modifiers inBranch value)
      (modifiers scope inner inBranch bound value) := by
  induction n using Nat.strongRecOn generalizing bound depth value with
  | ind n ih =>
    refine .of_pos (readers scope · |>.modifiers inBranch value)
      (f := (modifiers scope inner inBranch · value)) hbound (by omega) (fun c hc => ?_)
      fun b d hb hd => ?_
    · have hne := nextKind_ne_of_nil hc
      rw [modifiers_of_ne (hne _), modifiers_of_ne (hne _)]
    rw [modifiers]
    refine .skip _ (fun m hm => ?_) (.pure _)
    exact (meets_modifier (h.mono hm) (by omega) inBranch value).bind
      (forward_modifier h.forward inBranch value) (ih m hm (h.mono hm) (by omega) (by omega))

theorem meets_operand (h : Suits scope n inner) (inBranch : Bool) {bound : Nat}
    (hbound : n ≤ bound) (hdepth : 3 * n + 1 ≤ depth) :
    Meets n ((readers scope depth).operand inBranch) (operand scope inner inBranch bound) := by
  induction n using Nat.strongRecOn generalizing bound depth with
  | ind n ih =>
    refine .of_pos (readers scope · |>.operand inBranch) hbound (by omega) (fun c hc => ?_)
      fun b d hb hd => ?_
    · rw [operand_of_nil hc, operand_of_nil hc]
    rw [operand]
    refine .operator _ (fun sign m hm => ?_) (.operator _ (fun step m hm => ?_) ?_)
    · exact (ih m hm (h.mono hm) (by omega) (by omega)).bind
        (forward_operand h.forward inBranch b) fun _ => .pure _
    · exact (meets_targetWith (h.mono hm) (by omega)).bind (forward_targetWith h.forward)
        fun _ => .pure _
    · refine (meets_term h (by omega)).past (consumes_term h.forward) fun value m hm => ?_
      exact meets_modifiers (h.mono hm) inBranch (h.mono hm).bound (by omega) value

theorem meets_climb (h : Suits scope n inner) (inBranch : Bool) {bound : Nat}
    (hbound : n ≤ bound) (hdepth : 3 * n + 1 ≤ depth) (least : Nat) (left : Expr) :
    Meets n ((readers scope depth).climb inBranch least left)
      (climb (operandHere scope inner inBranch) bound least left) := by
  induction n using Nat.strongRecOn generalizing bound depth least left with
  | ind n ih =>
    have hnext : Forward (operandHere scope inner inBranch) := forward_operand h.forward inBranch _
    refine .of_pos (readers scope · |>.climb inBranch least left)
      (f := (climb (operandHere scope inner inBranch) · least left)) hbound (by omega)
      (fun c hc => ?_) fun b d hb hd => ?_
    · have hnone := binaryOperator?_of_plain (nextKind_ne_of_nil hc)
      rw [climb_of_none (hnone _), climb_of_none (hnone _)]
    rw [climb]
    refine .get fun c hc => ?_
    cases hop : binaryOperator? c least with
    | none => rfl
    | some found =>
      have hkind := (operatorOf_eq_some.mp (operatorOf_of_binaryOperator? hop)).1
      have hlt := Nat.lt_of_lt_of_le (c.length_advance_lt hkind) hc
      have hsuits := h.mono hlt
      have hrest := ih _ hlt hsuits (by omega : _ ≤ b) (by omega : _ ≤ d)
      -- the right operand is a whole operation of its own, of operators that bind more tightly
      have hright := (meets_operand hsuits inBranch hsuits.bound (by omega : _ ≤ d)).bind hnext
        (hrest (found.2 + 1))
      have hafter := hright.bind (hnext.bind (forward_climb hnext b _)) fun right =>
        hrest least (.binary found.1 left right)
      rw [bind_assoc (operand scope inner inBranch inner.bound)] at hafter
      exact hafter c.advance (Nat.le_refl _)

theorem meets_operation (h : Suits scope n inner) (hdepth : 3 * n + 1 ≤ depth)
    (inBranch : Bool) :
    Meets n (Unbounded.operation (readers scope depth) inBranch 0)
      (operation scope inner inBranch) := by
  rw [Unbounded.operation, operation]
  exact (meets_operand h inBranch h.bound hdepth).bind (forward_operand h.forward inBranch _)
    fun first => meets_climb h inBranch h.bound hdepth 0 first

theorem Suits.expressionWithin {limit bound : Nat}
    (h : ∀ m depth, m < n → 3 * m + 2 ≤ depth →
      Meets m (Unbounded.expression scope depth) (expressionWithin scope limit false))
    (hbound : n ≤ bound) : Suits scope n ⟨expressionWithin scope limit false, bound⟩ where
  meets := h
  forward := forward_expressionWithin scope limit false
  consumes := consumes_expressionWithin scope limit false
  refuses _ hc := expressionWithin_of_nil hc limit false
  bound := hbound

theorem meets_expressionWithin (scope : Scope) {n limit depth : Nat} (hlimit : n ≤ limit)
    (hdepth : 3 * n + 2 ≤ depth) (inBranch : Bool) :
    Meets n ((readers scope depth).expression inBranch)
      (expressionWithin scope limit inBranch) := by
  induction n using Nat.strongRecOn generalizing limit depth inBranch with
  | ind n ih =>
    refine .of_pos (readers scope · |>.expression inBranch)
      (f := (expressionWithin scope · inBranch)) hlimit (by omega) (fun c hc => ?_)
      fun b d hb hd => ?_
    · rw [expressionWithin_of_nil hc, expressionWithin_of_nil hc]
    have hinner (m : Nat) (hm : m < n) := ih m hm (by omega : m ≤ b) (by omega : _ ≤ d)
    have hsuits : Suits scope n ⟨expressionWithin scope b false, b + 1⟩ :=
      .expressionWithin (fun m depth hm hdepth => ih m hm (by omega) hdepth false) hb
    have hforward := forward_expressionWithin scope b
    rw [expressionWithin, choice]
    refine (meets_operation hsuits (by omega) inBranch).bind
      (forward_operation (hforward false) inBranch)
      fun condition => .skip _ (fun m hm => .skip _ (fun k hk => ?_) ?_) (.pure _)
    · exact (hinner k (by omega) inBranch).bind (hforward inBranch) fun _ => .pure _
    · refine (hinner m hm true).bind (hforward true) fun yes => ?_
      exact (Meets.discard _).bind (.discard _) fun _ =>
        (hinner m hm inBranch).bind (hforward inBranch) fun _ => .pure _

theorem meets_expression (scope : Scope) (hdepth : 3 * n + 2 ≤ depth) :
    Meets n (Unbounded.expression scope depth) (expression scope) := by
  intro c hc
  exact meets_expressionWithin scope (Nat.le_refl c.ahead.length) (by omega) false c (Nat.le_refl _)

theorem meets_target (scope : Scope) (hdepth : 3 * n ≤ depth) :
    Meets n (Unbounded.target scope depth) (target scope) := by
  intro c hc
  have hsuits : Suits scope c.ahead.length
      ⟨expressionWithin scope c.ahead.length false, c.ahead.length⟩ :=
    .expressionWithin (fun m depth hm hdepth =>
      meets_expressionWithin scope (Nat.le_of_lt hm) hdepth false) (Nat.le_refl _)
  exact meets_targetWith hsuits (by omega) c (Nat.le_refl _)

end Expressions

/-! ## Arguments of tags -/

theorem paramsFrom_of_nil {scope : Scope} {c : Cursor} (hc : c.ahead = []) (positional : Bool)
    (bound : Nat) : paramsFrom scope positional bound c = .ok [] c := by
  cases bound with
  | zero => rfl
  | succ bound =>
    rw [paramsFrom, get_bind]
    simp [Cursor.atEnd, hc, pure_apply]

theorem meets_paramsFrom (scope : Scope) (positional : Bool) {n bound depth : Nat}
    (hbound : n ≤ bound) (hdepth : 3 * n + 3 ≤ depth) :
    Meets n (Unbounded.params scope positional depth) (paramsFrom scope positional bound) := by
  induction n using Nat.strongRecOn generalizing bound depth with
  | ind n ih =>
    refine .of_pos (Unbounded.params scope positional) hbound (by omega) (fun c hc => ?_)
      fun b d hb hd => ?_
    · rw [paramsFrom_of_nil hc, paramsFrom_of_nil hc]
    have hrest (first : Param) (m : Nat) (hm : m < n) :=
      (ih m hm (by omega : m ≤ b) (by omega : _ ≤ d)).bind (forward_paramsFrom positional b)
        fun more => .pure (first :: more)
    have hexpression : Meets n (Unbounded.expression scope d) (expression scope) :=
      meets_expression scope (by omega)
    rw [Unbounded.params, paramsFrom]
    refine .bind (fun _ _ => rfl) .get fun c => ?_
    dsimp only
    split
    · exact .pure _
    split
    · refine (Meets.lift _).bind .takeAny fun name => (Meets.lift _).bind .advance fun _ => ?_
      exact hexpression.map.past (consumes_expression scope).map hrest
    split
    · exact hexpression.map.past (consumes_expression scope).map hrest
    · exact (Meets.lift _).past (.refuse _) hrest

theorem meets_params (scope : Scope) (positional : Bool) {n depth : Nat}
    (hdepth : 3 * n + 3 ≤ depth) :
    Meets n (Unbounded.params scope positional depth) (params scope positional) := by
  intro c hc
  exact meets_paramsFrom scope positional (Nat.le_refl c.ahead.length) (by omega) c (Nat.le_refl _)

/-- Where it succeeds with at most `n` tokens left, the reader leaves none. -/
def Exhausts {α : Type} (n : Nat) (read : Reading α) : Prop :=
  ∀ c a c', c.ahead.length ≤ n → read c = .ok a c' → c'.ahead = []

namespace Exhausts

variable {α β : Type} {n : Nat} {read : Reading α}

theorem seq {f : α → β} (h : Exhausts n read) : Exhausts n (do return f (← read)) := by
  intro c b c'' hc hrun
  obtain ⟨a, c', hread, hpure⟩ := bind_eq_ok hrun
  cases hpure
  exact h c a _ hc hread

theorem after {f : α → Reading β} (h : Forward read) (hf : ∀ a, Exhausts n (f a)) :
    Exhausts n (read >>= f) := by
  intro c b c'' hc hrun
  obtain ⟨a, c', hread, hrest⟩ := bind_eq_ok hrun
  exact hf a c' b c'' (Nat.le_trans (h.ok hread).length_le hc) hrest

theorem past {f : α → Reading β} (h : Consumes read) (hf : ∀ a, Exhausts n (f a)) :
    Exhausts (n + 1) (read >>= f) := by
  intro c b c'' hc hrun
  obtain ⟨a, c', hread, hrest⟩ := bind_eq_ok hrun
  have hlt := h c a c' hread
  exact hf a c' b c'' (by omega) hrest

end Exhausts

theorem exhausts_paramsFrom (scope : Scope) (positional : Bool) (bound : Nat) :
    Exhausts bound (paramsFrom scope positional bound) := by
  induction bound with
  | zero =>
    rintro c _ _ hc ⟨⟩
    exact List.length_eq_zero_iff.mp (Nat.le_zero.mp hc)
  | succ bound ih =>
    have hfirst (f : Expr → Param) := (consumes_expression scope).map (f := f)
    have hrest (first : Param) := ih.seq (f := (first :: ·))
    intro c ps c' hc hrun
    rw [paramsFrom, get_bind] at hrun
    dsimp only at hrun
    split at hrun
    · rename_i hend
      cases hrun
      exact List.isEmpty_iff.mp hend
    split at hrun
    · refine Exhausts.after .takeAny (fun name => .after .advance fun _ => ?_) c ps c' hc hrun
      exact .past (hfirst (.named name)) hrest
    split at hrun
    · exact Exhausts.past (hfirst .positional) hrest c ps c' hc hrun
    · cases hrun

/-! ## Progress -/

/--
From every place the run comes to an end, as soon as it may call three levels deep for each token
left and three more, with what the reader gives and at the same place: among the same tokens and
not before the start. Where it succeeds it lands as told.
-/
def Halts {α : Type} (run : Nat → Attempt Cursor α) (read : Reading α)
    (Lands : Cursor → Cursor → Prop) : Prop :=
  ∀ c, ∃ result c', (∀ depth, 3 * c.ahead.length + 3 ≤ depth → run depth c = some (result, c')) ∧
    Attempt.outcome id (read c) = (result, c') ∧ c'.tokens = c.tokens ∧
    c.position ≤ c'.position ∧ (result.isOk = true → Lands c c')

theorem halts_of_meets {α : Type} {run : Nat → Attempt Cursor α} {read : Reading α}
    {Lands : Cursor → Cursor → Prop}
    (hmeets : ∀ n depth, 3 * n + 3 ≤ depth → Meets n (run depth) read) (hread : Forward read)
    (hlands : ∀ c a c', read c = .ok a c' → Lands c c') : Halts run read Lands := by
  intro c
  have hrun (depth : Nat) (hdepth : 3 * c.ahead.length + 3 ≤ depth) :=
    hmeets _ depth hdepth c (Nat.le_refl _)
  cases hok : read c with
  | ok a c' =>
    rw [hok] at hrun
    have honward := hread.ok hok
    exact ⟨.ok a, c', hrun, rfl, honward.tokens_eq, honward.position_le, fun _ => hlands c a c' hok⟩
  | error fault c' =>
    rw [hok] at hrun
    have honward := (hread.error hok).1
    exact ⟨.error fault, c', hrun, rfl, honward.tokens_eq, honward.position_le, nofun⟩

/-- Past at least one token and not past the last one. -/
def Cursor.Beyond (c c' : Cursor) : Prop := c.position < c'.position ∧ c'.position ≤ c'.length

theorem beyond_of_consumes {α : Type} {read : Reading α} (hread : Forward read)
    (hconsumes : Consumes read) {c c' : Cursor} {a : α} (h : read c = .ok a c') : c.Beyond c' :=
  ⟨(hread.ok h).position_lt (hconsumes c a c' h), Nat.le_add_right _ _⟩

/--
Without any bound the readers come to an end, whatever the tokens, the place, the library and the
options are. An expression and a target pass a token; the arguments of a tag are all that is left.
-/
theorem expressions_halt (scope : Scope) :
    Halts (Unbounded.expression scope) (expression scope) Cursor.Beyond ∧
    Halts (Unbounded.target scope) (target scope) Cursor.Beyond ∧
    ∀ positional, Halts (Unbounded.params scope positional) (params scope positional)
      fun _ c' => c'.position = c'.length := by
  refine ⟨?_, ?_, fun positional => ?_⟩
  · refine halts_of_meets (fun n depth hdepth => meets_expression scope (by omega))
      (forward_expression scope) fun _ _ _ => ?_
    exact beyond_of_consumes (forward_expression scope) (consumes_expression scope)
  · refine halts_of_meets (fun n depth hdepth => meets_target scope (by omega))
      (forward_target scope) fun _ _ _ => ?_
    exact beyond_of_consumes (forward_target scope) (consumes_target scope)
  · refine halts_of_meets (fun n depth => meets_params scope positional)
      (forward_params positional) ?_
    intro c ps c' hrun
    have hend := exhausts_paramsFrom scope positional c.ahead.length c ps c' (Nat.le_refl _) hrun
    simp [Cursor.position, Cursor.length, hend]

end Stencil
