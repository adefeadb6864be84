import Stencil.Proofs.Passing
import Stencil.Proofs.Written

/-!
# The levels of an expression

There is a reader for each place that a tree may be written for: a term, an operand with modifiers,
an operand, an operation of some binding power, and a whole expression. What is read back at one
level is read back at every looser one, and in parentheses at the tightest one again.
-/

namespace Stencil.Written

open Grammar Reading

/-! ## What may follow -/

/-- Nothing that belongs to a variable before it. -/
def EndsTarget (k : Option Kind) : Prop :=
  k ∉ [['.'], ['['], ['-', '>'], ['(']].map fun s => some (Kind.symbol s)

/-- Nothing that belongs to a term before it. -/
def EndsTerm (k : Option Kind) : Prop :=
  EndsTarget k ∧ k ∉ [['+', '+'], ['-', '-']].map fun s => some (Kind.symbol s)

/-- No term comes next and no colon that would start an argument of a modifier before it. -/
def EndsModified (inBranch : Bool) (after : Text) (k : Option Kind) : Prop :=
  EndsTerm k ∧ (k = some (.symbol [':']) → inBranch = true ∧ after ≠ [])

/-- Nothing that belongs to an operand of a binary operator. -/
def EndsOperand (inBranch : Bool) (after : Text) (k : Option Kind) : Prop :=
  EndsModified inBranch after k ∧ k ≠ some (.symbol ['|'])

/-- How tightly the next token binds as a binary operator. -/
def powerOf (k : Option Kind) : Option Nat := (operatorOf .binary k).bind Symbol.bindingPower?

/-- Nothing that belongs to an operation before it, if that binds no less than `power`. -/
def EndsOperation (power : Nat) (inBranch : Bool) (after : Text) (k : Option Kind) : Prop :=
  EndsOperand inBranch after k ∧ ∀ p ∈ powerOf k, p ≤ power

/-- Nothing that belongs to an expression. -/
def EndsExpression (inBranch : Bool) (after : Text) (k : Option Kind) : Prop :=
  EndsOperand inBranch after k ∧ powerOf k = none ∧ k ≠ some (.symbol ['?'])

instance : DecidablePred EndsTarget := fun k => inferInstanceAs (Decidable (k ∉ _))

instance : DecidablePred EndsTerm := fun _ => inferInstanceAs (Decidable (_ ∧ _))

instance (inBranch : Bool) (after : Text) : DecidablePred (EndsModified inBranch after) :=
  fun _ => inferInstanceAs (Decidable (_ ∧ _))

instance (inBranch : Bool) (after : Text) : DecidablePred (EndsOperand inBranch after) :=
  fun _ => inferInstanceAs (Decidable (_ ∧ _))

instance (inBranch : Bool) (after : Text) : DecidablePred (EndsExpression inBranch after) :=
  fun _ => inferInstanceAs (Decidable (_ ∧ _))

theorem EndsTarget.ne {k : Option Kind} (h : EndsTarget k) {s : Text}
    (hs : s ∈ [['.'], ['['], ['-', '>'], ['(']]) : k ≠ some (.symbol s) := by
  rintro rfl
  exact h (List.mem_map_of_mem hs)

theorem eq_of_step_mem_roles {s : Text} (h : Role.step ∈ Symbol.roles s) :
    s = ['+', '+'] ∨ s = ['-', '-'] := by
  unfold Symbol.roles at h
  split_ifs at h <;> simp_all

theorem EndsTerm.not_step {k : Option Kind} (h : EndsTerm k) : operatorOf .step k = none := by
  unfold operatorOf
  split
  · split
    next s hs =>
      exfalso
      apply h.2
      rcases eq_of_step_mem_roles hs with rfl | rfl <;> decide
    next => rfl
  · rfl

theorem EndsOperation.mono {power larger : Nat} {inBranch : Bool} {after : Text} {k : Option Kind}
    (h : EndsOperation power inBranch after k) (hle : power ≤ larger) :
    EndsOperation larger inBranch after k :=
  ⟨h.1, fun p hp => Nat.le_trans (h.2 p hp) hle⟩

theorem endsExpression_of_mem {s : Text} (hs : s ∈ [[')'], [']'], [',']]) (inBranch : Bool)
    (after : Text) : EndsExpression inBranch after (some (.symbol s)) := by
  have hall : ∀ s ∈ [[')'], [']'], [',']], EndsTerm (some (.symbol s)) ∧ s ≠ [':'] ∧ s ≠ ['|'] ∧
      powerOf (some (.symbol s)) = none ∧ s ≠ ['?'] := by decide
  obtain ⟨hterm, hcolon, hbar, hpower, hchoice⟩ := hall s hs
  refine ⟨⟨⟨hterm, fun h => ?_⟩, fun h => ?_⟩, hpower, fun h => ?_⟩
  · exact absurd (Kind.symbol.inj (Option.some.inj h)) hcolon
  · exact hbar (Kind.symbol.inj (Option.some.inj h))
  · exact hchoice (Kind.symbol.inj (Option.some.inj h))

/-! ## Binary operators -/

theorem BinaryOperator.bindingPower?_eq (op : BinaryOperator) :
    Symbol.bindingPower? op.val = some op.power := by
  simp [power]

theorem BinaryOperator.binary_mem_roles (op : BinaryOperator) :
    Role.binary ∈ Symbol.roles op.val := by
  have hall : ∀ e ∈ Symbol.powerTable, Role.binary ∈ Symbol.roles e.1 := by decide
  exact hall _ op.mem_powerTable

theorem BinaryOperator.powerOf_eq (op : BinaryOperator) :
    powerOf (some (.symbol op.val)) = some op.power := by
  simp [powerOf, operatorOf, op.binary_mem_roles, op.bindingPower?_eq]

theorem BinaryOperator.power_range (op : BinaryOperator) : 1 ≤ op.power ∧ op.power ≤ 12 := by
  have hall : ∀ e ∈ Symbol.powerTable, 1 ≤ e.2 ∧ e.2 ≤ 12 := by decide
  exact hall _ op.mem_powerTable

theorem BinaryOperator.endsOperation (op : BinaryOperator) (inBranch : Bool) (after : Text) :
    EndsOperation op.power inBranch after (some (.symbol op.val)) := by
  have hall : ∀ e ∈ Symbol.powerTable,
      EndsTerm (some (.symbol e.1)) ∧ e.1 ≠ [':'] ∧ e.1 ≠ ['|'] := by decide
  obtain ⟨hterm, hcolon, hbar⟩ := hall _ op.mem_powerTable
  refine ⟨⟨⟨hterm, fun h => ?_⟩, fun h => ?_⟩, ?_⟩
  · exact absurd (Kind.symbol.inj (Option.some.inj h)) hcolon
  · exact hbar (Kind.symbol.inj (Option.some.inj h))
  · simp [op.powerOf_eq]

theorem binaryOperator?_eq_none {c : Cursor} {least : Nat}
    (h : ∀ p ∈ powerOf (nextKind c.ahead), p < least) : binaryOperator? c least = none := by
  unfold binaryOperator?
  rw [operator?_eq]
  cases hop : operatorOf .binary (nextKind c.ahead) with
  | none => rfl
  | some op =>
    cases hp : Symbol.bindingPower? op with
    | none => simp [hp]
    | some p =>
      have hlt : p < least := h p (by simp [powerOf, hop, hp])
      simp [hp, hlt]

theorem binaryOperator?_of_operator {c : Cursor} {least : Nat} (op : BinaryOperator)
    (h : nextKind c.ahead = some (.symbol op.val)) (hleast : least ≤ op.power) :
    binaryOperator? c least = some (op.val, op.power) := by
  unfold binaryOperator?
  rw [operator?_eq, h]
  simp [operatorOf, op.binary_mem_roles, op.bindingPower?_eq, hleast]

/-! ## What the readers take for granted -/

/-- The readers inside get along with `n` tokens, less one if they start behind the first. -/
structure Ready (scope : Scope) (n : Nat) (inner : Inner) : Prop where
  le_bound : n ≤ inner.bound
  exists_depth : ∃ depth, n ≤ depth + 1 ∧ inner.read = expressionWithin scope depth false

theorem Ready.mono {scope : Scope} {n m : Nat} {inner : Inner} (h : Ready scope n inner)
    (hm : m ≤ n) : Ready scope m inner := by
  obtain ⟨depth, hdepth, hread⟩ := h.exists_depth
  exact ⟨Nat.le_trans hm h.le_bound, depth, Nat.le_trans hm hdepth, hread⟩

/-! ## The levels -/

section Levels

variable (scope : Scope) (words : Text → List Word) (e : Expr)

/-- The words make a term. -/
def AsTerm : Prop :=
  ∀ n inner after, Ready scope n inner →
    Passes (term scope inner) n (words after) EndsTerm e

/-- The words make a term with modifiers, to which more may be added. -/
def AsModified : Prop :=
  ∀ n inner inBranch bound after, Ready scope n inner → n ≤ bound →
    Leads (term scope inner >>= modifiers scope inner inBranch bound)
      (modifiers scope inner inBranch) n (words after) (EndsModified inBranch after) e

/-- The words make an operand. -/
def AsOperand : Prop :=
  ∀ n inner inBranch bound after, Ready scope n inner → n ≤ bound →
    Passes (operand scope inner inBranch bound) n (words after) (EndsOperand inBranch after) e

/-- The words make an operation that binds no less than `power`, to which more may be added. -/
def AsOperation (power : Nat) : Prop :=
  ∀ n inner inBranch bound least after, Ready scope n inner → n ≤ bound → least ≤ power →
    Leads
      (operandHere scope inner inBranch >>= climb (operandHere scope inner inBranch) bound least)
      (fun bound => climb (operandHere scope inner inBranch) bound least) n (words after)
      (EndsOperation power inBranch after) e

/-- The words make an expression. -/
def AsExpression : Prop :=
  ∀ n inBranch after,
    Passes (expressionWithin scope n inBranch) n (words after) (EndsExpression inBranch after) e

/-- The tree makes an argument of a modifier. -/
def AsArgument (t : Tree) : Prop :=
  ∀ n inner after, Ready scope n inner →
    Passes (modifierArgument scope inner) n (argument t after) EndsTerm (t.expr scope)

end Levels

/-! ## What comes first -/

/-- A term can start here. -/
def StartsTerm : Option Kind → Prop
  | some (.symbol s) => s = ['('] ∨ s = ['[']
  | some _ => True
  | none => False

/-- An expression can start here. -/
def StartsExpression (k : Option Kind) : Prop :=
  StartsTerm k ∨ k ∈ [['!'], ['~'], ['-'], ['+', '+'], ['-', '-']].map fun s => some (.symbol s)

theorem StartsTerm.not_operator {k : Option Kind} (h : StartsTerm k) {role : Role}
    (hrole : role = .unary ∨ role = .step) : operatorOf role k = none := by
  unfold operatorOf
  split
  · rcases h with rfl | rfl <;> rcases hrole with rfl | rfl <;> decide
  · rfl

theorem StartsExpression.ne {k : Option Kind} (h : StartsExpression k) {s : Text}
    (hs : s ∈ [[':'], [')'], [']'], ['/']]) : k ≠ some (.symbol s) := by
  rintro rfl
  simp only [List.mem_cons, List.not_mem_nil, or_false] at hs
  rcases hs with rfl | rfl | rfl | rfl <;> revert h <;> simp [StartsExpression, StartsTerm]

theorem Target.headKind_words (place : Target) (after : Text) (k : Option Kind) :
    headKind (place.words after) k = some .variable :=
  match place with
  | .variable _ => rfl
  | .member base _ | .item base _ | .selected base _ | .index base _ | .property base _
  | .method base .. => (headKind_append ..).trans (base.headKind_words [' '] _)

theorem headKind_enclosed {needed : Bool} {words : Text → List Word} {P : Option Kind → Prop}
    (hparen : P (some (.symbol ['(']))) (h : needed = false → ∀ after k, P (headKind (words after) k))
    (after : Text) (k : Option Kind) : P (headKind (enclosed needed words after) k) := by
  cases needed with
  | true => exact hparen
  | false => exact h rfl after k

theorem Tree.startsTerm (t : Tree) (hrank : 14 ≤ t.rank) (after : Text) (k : Option Kind) :
    StartsTerm (headKind (t.words after) k) :=
  match t with
  | .integer _ | .float _ | .string _ | .constant _ | .call .. => trivial
  | .list _ => Or.inr rfl
  | .target place => by rw [Tree.words, place.headKind_words]; trivial
  | .countAfter up place => by
    simp only [Tree.words, headKind_append, place.headKind_words]
    trivial
  | .modified value _ _ => by
    simp only [Tree.words, headKind_append]
    refine headKind_enclosed (Or.inl rfl) (fun hneeded => value.startsTerm ?_) [' '] _
    simpa using hneeded
  | .binary op _ _ => by
    have := op.power_range
    simp only [Tree.rank] at hrank
    omega
  | .unary .. | .countFirst .. | .choice .. | .fallback .. => by simp [Tree.rank] at hrank

theorem Tree.startsExpression (t : Tree) (after : Text) (k : Option Kind) :
    StartsExpression (headKind (t.words after) k) := by
  have hparen : StartsExpression (some (.symbol ['('])) := .inl (.inl rfl)
  by_cases hrank : 14 ≤ t.rank
  · exact .inl (t.startsTerm hrank after k)
  match t with
  | .unary op _ =>
    have hall : ∀ s ∈ [['!'], ['~'], ['-']], StartsExpression (some (.symbol s)) := by
      simp [StartsExpression]
    exact hall _ op.property
  | .countFirst up _ =>
    cases up <;> simp [Tree.words, StartsExpression, countSign, Word.spaced, Word.symbol]
  | .binary _ first _ | .choice first _ _ | .fallback first _ =>
    simp only [Tree.words, headKind_append]
    exact headKind_enclosed hparen (fun _ => first.startsExpression) [' '] _
  | .integer _ | .float _ | .string _ | .constant _ | .target _ | .countAfter .. | .call ..
  | .list _ | .modified .. => simp [Tree.rank] at hrank

/-! ## From one level to the next -/

section Lifts

variable {scope : Scope} {words : Text → List Word} {e : Expr}

theorem AsTerm.modified (h : AsTerm scope words e) : AsModified scope words e := by
  intro n inner inBranch bound after hready hn
  exact (Leads.of_passes _ (h n inner after hready) hn).mono fun _ hk => hk.1

theorem AsModified.operand (h : AsModified scope words e)
    (hstart : ∀ after k, StartsTerm (headKind (words after) k)) : AsOperand scope words e := by
  intro n inner inBranch bound after hready hn
  have hne : words after ≠ [] := by
    intro hnil
    have := hstart after none
    simp [hnil, StartsTerm] at this
  refine Passes.of_pos (Grammar.operand scope inner inBranch) hne hn fun b _ => ?_
  rw [Grammar.operand]
  refine Passes.look (Passes.not_takeOperator fun _ hk => hk)
    (fun k _ => (hstart after k).not_operator (.inl rfl)) ?_
  refine Passes.look (Passes.not_takeOperator fun _ hk => hk)
    (fun k _ => (hstart after k).not_operator (.inr rfl)) ?_
  exact (h n inner inBranch inner.bound after hready hready.le_bound).passes (fun _ hk => hk.1)
    fun bound c hk => modifiers_of_ne hk.2 _ _ _

theorem AsOperand.operation (h : AsOperand scope words e) (power : Nat) :
    AsOperation scope words e power := by
  intro n inner inBranch bound least after hready hn _
  have hfirst := h n inner inBranch inner.bound after hready hready.le_bound
  exact (Leads.of_passes (fun bound => climb (operandHere scope inner inBranch) bound least)
    hfirst hn).mono fun _ hk => hk.1

theorem AsOperation.mono {power smaller : Nat} (h : AsOperation scope words e power)
    (hle : smaller ≤ power) : AsOperation scope words e smaller := by
  intro n inner inBranch bound least after hready hn hleast
  exact (h n inner inBranch bound least after hready hn (Nat.le_trans hleast hle)).mono
    fun _ hk => hk.mono hle

theorem AsOperation.passes {power : Nat} (h : AsOperation scope words e power) {n : Nat}
    {inner : Inner} (hready : Ready scope n inner) (inBranch : Bool) (bound least : Nat)
    (hn : n ≤ bound) (hleast : least ≤ power) (after : Text) :
    Passes
      (operandHere scope inner inBranch >>= climb (operandHere scope inner inBranch) bound least) n
      (words after) (fun k => EndsOperation power inBranch after k ∧ ∀ p ∈ powerOf k, p < least) e := by
  exact (h n inner inBranch bound least after hready hn hleast).passes (fun _ hk => hk.1)
    fun bound c hk => climb_of_none (binaryOperator?_eq_none hk.2) _ _

theorem ready_choice (scope : Scope) (depth : Nat) :
    Ready scope (depth + 1) { read := expressionWithin scope depth false, bound := depth + 1 } :=
  ⟨Nat.le_refl _, depth, Nat.le_refl _, rfl⟩

theorem AsOperation.start (h : AsOperation scope words e 1) (depth : Nat) (inBranch : Bool)
    (after : Text) :
    Passes (operation scope { read := expressionWithin scope depth false, bound := depth + 1 } inBranch)
      (depth + 1) (words after) (fun k => EndsOperand inBranch after k ∧ powerOf k = none) e := by
  refine Passes.mono (h.passes (ready_choice scope depth) inBranch (depth + 1) 0 (Nat.le_refl _)
    (Nat.zero_le _) after) (Nat.le_refl _) fun k hk => ?_
  simp [EndsOperation, hk.1, hk.2]

theorem AsOperation.expression (h : AsOperation scope words e 1) (hne : ∀ after, words after ≠ []) :
    AsExpression scope words e := by
  intro n inBranch after
  refine Passes.of_pos (expressionWithin scope · inBranch) (hne after) (Nat.le_refl n) ?_
  rintro depth rfl
  rw [expressionWithin, Grammar.choice]
  dsimp only [String.reduceToList]
  rw [← List.append_nil (words after)]
  refine (h.start depth inBranch after).bind (fun k hk => ⟨hk.1, hk.2.1⟩) ?_
  exact Passes.skip_else (fun k hk => hk.2.2) Passes.pure

theorem AsExpression.inside (h : AsExpression scope words e) {n : Nat} {inner : Inner}
    (hready : Ready scope n inner) (after : Text) :
    Passes inner.read (n - 1) (words after) (EndsExpression false after) e := by
  obtain ⟨depth, hdepth, hread⟩ := hready.exists_depth
  rw [hread]
  exact (h depth false after).mono (by omega) fun _ hk => hk

theorem term_of_parenthesis (inner : Inner) {behind ahead : List Token} {t : Token} {endLine : Nat}
    (h : t.kind = .symbol ['(']) :
    term scope inner ⟨behind, t :: ahead, endLine⟩ =
      parenthesised inner ⟨behind, t :: ahead, endLine⟩ := by
  simp [term, Cursor.current?, h]

theorem AsExpression.enclosed (h : AsExpression scope words e) :
    AsTerm scope (enclosed true words) e := by
  intro n inner after hready
  have hclosed : Passes (parenthesised inner) n
      (.spaced ['('] :: (words [' '] ++ [.symbol [')'] after])) EndsTerm e := by
    rw [parenthesised]
    refine Passes.advance.step ?_
    refine (h.inside hready [' ']).bind (fun _ _ => endsExpression_of_mem (by decide) _ _) ?_
    exact (Passes.discard_take rfl).step Passes.pure
  exact hclosed.of_head fun _ t _ _ ht => term_of_parenthesis inner (congrArg Word.kind ht)

end Lifts

/-! ## All levels of a tree -/

def Tree.IsUnary (t : Tree) : Prop := ∃ operator operand, t = .unary operator operand

theorem Tree.argument_eq {t : Tree} (h : ¬ t.IsUnary) :
    argument t = enclosed (t.rank < 15) t.words := by
  cases t with
  | unary operator operand => exact absurd ⟨operator, operand, rfl⟩ h
  | _ => rfl

/-- A tree is read back wherever it is written, in parentheses where these are needed. -/
structure Rereads (scope : Scope) (t : Tree) : Prop where
  term : AsTerm scope (enclosed (t.rank < 15) t.words) (t.expr scope)
  modified : AsModified scope (enclosed (t.rank < 14) t.words) (t.expr scope)
  operand : AsOperand scope (enclosed (t.rank < 13) t.words) (t.expr scope)
  operation : ∀ power, 1 ≤ power →
    AsOperation scope (enclosed (t.rank < power) t.words) (t.expr scope) power
  expression : AsExpression scope t.words (t.expr scope)
  argument : AsArgument scope t

namespace Rereads

variable {scope : Scope} {t : Tree}

theorem enclosed_of {needed : Prop} [Decidable needed] {words : Text → List Word}
    {P : (Text → List Word) → Prop} (hparen : P (enclosed true words)) (h : ¬ needed → P words) :
    P (enclosed (decide needed) words) := by
  by_cases hneeded : needed
  · rwa [decide_eq_true hneeded]
  · rw [decide_eq_false hneeded]
    exact h hneeded

theorem startsTerm_enclosed (words : Text → List Word) (after : Text) (k : Option Kind) :
    StartsTerm (headKind (enclosed true words after) k) :=
  Or.inl rfl

theorem words_ne_nil (t : Tree) (after : Text) : t.words after ≠ [] := (t.flows after).ne_nil

theorem asArgument_of_term (hunary : ¬ t.IsUnary)
    (h : AsTerm scope (enclosed (t.rank < 15) t.words) (t.expr scope)) : AsArgument scope t := by
  intro n inner after hready
  rw [t.argument_eq hunary, modifierArgument]
  refine Passes.look (Passes.not_takeOperator fun _ hk => hk) (fun k _ => ?_) (h n inner after hready)
  have hstart : StartsTerm (headKind (enclosed (t.rank < 15) t.words after) k) := by
    refine headKind_enclosed (Or.inl rfl) (fun hneeded => t.startsTerm ?_) after k
    have := of_decide_eq_false hneeded
    omega
  exact hstart.not_operator (.inl rfl)

theorem not_isUnary_of_rank (h : t.rank ≠ 13) : ¬ t.IsUnary := by
  rintro ⟨operator, operand, rfl⟩
  exact h rfl

/-- A tree is read back at all levels if it is so without parentheses where it needs none. -/
theorem of_bare (hexpr : AsExpression scope t.words (t.expr scope))
    (hoperation : ∀ power, 1 ≤ power → power ≤ t.rank →
      AsOperation scope t.words (t.expr scope) power)
    (hoperand : 13 ≤ t.rank → AsOperand scope t.words (t.expr scope))
    (hmodified : 14 ≤ t.rank → AsModified scope t.words (t.expr scope))
    (hterm : 15 ≤ t.rank → AsTerm scope t.words (t.expr scope))
    (hargument : t.IsUnary → AsArgument scope t) : Rereads scope t := by
  have hparen := hexpr.enclosed
  have hparen' := hparen.modified.operand (startsTerm_enclosed t.words)
  have hall : AsTerm scope (enclosed (t.rank < 15) t.words) (t.expr scope) :=
    enclosed_of (P := (AsTerm scope · _)) hparen fun h => hterm (by omega)
  refine ⟨hall, ?_, ?_, fun power hpos => ?_, hexpr, ?_⟩
  · exact enclosed_of (P := (AsModified scope · _)) hparen.modified fun h => hmodified (by omega)
  · exact enclosed_of (P := (AsOperand scope · _)) hparen' fun h => hoperand (by omega)
  · exact enclosed_of (P := (AsOperation scope · _ power)) (hparen'.operation power)
      fun h => hoperation power hpos (by omega)
  · by_cases hunary : t.IsUnary
    · exact hargument hunary
    · exact asArgument_of_term hunary hall

theorem of_expression (hrank : t.rank = 0) (h : AsExpression scope t.words (t.expr scope)) :
    Rereads scope t :=
  of_bare h (by omega) (by omega) (by omega) (by omega)
    fun hunary => absurd hunary (not_isUnary_of_rank (by omega))

theorem of_operation (hrank : 1 ≤ t.rank ∧ t.rank ≤ 12)
    (h : AsOperation scope t.words (t.expr scope) t.rank) : Rereads scope t := by
  have hexpr := (h.mono hrank.1).expression (words_ne_nil t)
  exact of_bare hexpr (fun power _ hp => h.mono hp) (by omega) (by omega) (by omega)
    fun hunary => absurd hunary (not_isUnary_of_rank (by omega))

theorem of_operand (hrank : t.rank = 13) (h : AsOperand scope t.words (t.expr scope))
    (hargument : t.IsUnary → AsArgument scope t) : Rereads scope t := by
  have hexpr := (h.operation 1).expression (words_ne_nil t)
  exact of_bare hexpr (fun power _ _ => h.operation power) (fun _ => h) (by omega) (by omega)
    hargument

theorem of_modified (hrank : t.rank = 14) (h : AsModified scope t.words (t.expr scope)) :
    Rereads scope t := by
  have hoperand := h.operand (t.startsTerm (by omega))
  have hexpr := (hoperand.operation 1).expression (words_ne_nil t)
  exact of_bare hexpr (fun power _ _ => hoperand.operation power) (fun _ => hoperand) (fun _ => h)
    (by omega) fun hunary => absurd hunary (not_isUnary_of_rank (by omega))

theorem of_term (hrank : t.rank = 15) (h : AsTerm scope t.words (t.expr scope)) :
    Rereads scope t := by
  have hoperand := h.modified.operand (t.startsTerm (by omega))
  have hexpr := (hoperand.operation 1).expression (words_ne_nil t)
  exact of_bare hexpr (fun power _ _ => hoperand.operation power) (fun _ => hoperand)
    (fun _ => h.modified) (fun _ => h) fun hunary => absurd hunary (not_isUnary_of_rank (by omega))

end Rereads

end Stencil.Written
