import Mathlib.Data.List.Chain
import Stencil.Proofs.Openers
import Stencil.Proofs.Reread

/-!
# Chains of keys

A variable may have keys behind it, each after a point. A chain that is written without spaces is
read to its end as one access inside the other, unless two keys of digits follow each other: with
the point between them they are one number.
-/

namespace Stencil.Written

open Grammar Reading

/-! ## Keys -/

/-- What may stand after a point. -/
inductive Key where
  | member (name : Name)
  | item (digits : Digits)
  /-- The value of a variable is the key. -/
  | selected (name : Identifier)

namespace Key

def kind : Key → Kind
  | .member _ => .name
  | .item _ => .integer
  | .selected _ => .variable

def text : Key → Text
  | .member name => name.val
  | .item digits => digits.val
  | .selected name => '$' :: name.val

/-- The access to `base` by the key. -/
def access (base : Expr) : Key → Expr
  | .member name => .member base name.val
  | .item digits => .item base digits.val
  | .selected name => .selected base name.val

/-- How the key is spelled in a script. -/
def code : Key → Text
  | .member name => Quoted.encode name.val
  | .item digits => digits.val
  | .selected name => form "var" [name.val]

def isItem : Key → Bool
  | .item _ => true
  | .member _ | .selected _ => false

/-- The key as a word, with nothing behind it. -/
def word (key : Key) : Word := { kind := key.kind, text := key.text, space := [] }

theorem spelling_access (base : Expr) (key : Key) :
    (key.access base).spelling = form "get" [base.spelling, key.code] := by
  cases key <;> rfl

theorem spells (key : Key) : Spells key.kind key.text := by
  cases key with
  | member name => exact .name name.property
  | item digits => exact .integer digits.property
  | selected name => exact .dollar name.property

theorem exists_head (key : Key) : ∃ c tail, key.text = c :: tail ∧ isBlank c = false ∧ c ≠ '=' ∧
    c.isDigit = key.isItem := by
  obtain ⟨c, tail, htext, hblank, -⟩ := Lexeme.first_of_spells key.spells
  refine ⟨c, tail, htext, hblank, ?_⟩
  cases key with
  | member name =>
    have hname : isName (c :: tail) = true := htext ▸ name.property
    have hstart : isWordStart c = true := by
      simp only [isName, Bool.and_eq_true, isWord_cons] at hname
      exact hname.1.1
    refine ⟨?_, Bool.eq_false_iff.mpr fun hdigit => ?_⟩
    · rintro rfl
      exact absurd hstart (by decide)
    · rw [not_isWordStart_of_isDigit hdigit] at hstart
      cases hstart
  | item digits =>
    have hdigits : isDigits (c :: tail) = true := htext ▸ digits.property
    obtain ⟨hc, -⟩ := isDigits_cons.mp hdigits
    refine ⟨?_, hc⟩
    rintro rfl
    exact absurd hc (by decide)
  | selected name =>
    obtain ⟨rfl, -⟩ := List.cons.inj htext
    exact ⟨by decide, rfl⟩

end Key

/-! ## Chains -/

/-- The keys of a chain as they are written. -/
def chainText (keys : List Key) : Text := keys.flatMap fun key => '.' :: key.text

/-- A variable with a chain of keys, without spaces. -/
def chainSource (name : Identifier) (keys : List Key) : Text := '$' :: (name.val ++ chainText keys)

def chainWords (keys : List Key) : List Word :=
  keys.flatMap fun key => [.symbol ['.'] [], key.word]

/-- The accesses of a chain, the first key innermost. -/
def chainExpr (base : Expr) (keys : List Key) : Expr := keys.foldl Key.access base

/-- The form of a chain: `get` inside `get`, the first key innermost. -/
def chainCode (name : Identifier) (keys : List Key) : Text :=
  keys.foldl (fun code key => form "get" [code, key.code]) (form "var" [name.val])

/-- The two keys do not run together. -/
def Key.Parts (a b : Key) : Prop := ¬ (a.isItem = true ∧ b.isItem = true)

instance (a b : Key) : Decidable (a.Parts b) := inferInstanceAs (Decidable (¬ _))

theorem spelling_chainExpr (base : Expr) (keys : List Key) : (chainExpr base keys).spelling =
    keys.foldl (fun code key => form "get" [code, key.code]) base.spelling := by
  unfold chainExpr
  induction keys generalizing base with
  | nil => rfl
  | cons key more ih => rw [List.foldl_cons, ih, key.spelling_access, List.foldl_cons]

@[simp] theorem chainText_nil : chainText [] = [] := rfl

theorem chainText_cons (key : Key) (more : List Key) :
    chainText (key :: more) = '.' :: (key.text ++ chainText more) := by
  simp [chainText]

/-! ## Tokens of a chain -/

section Tokens

variable {kind : Kind} {c : Char} {tail follow : Text}

theorem word_tokensOf_of_first (h : Lexeme.first c (tail ++ follow) = ⟨kind, tail, follow⟩)
    (hblank : ∀ x ∈ follow.head?, isBlank x = false) (line : Nat) :
    (tokensOf line (c :: (tail ++ follow))).map Token.word =
      ⟨kind, c :: tail, []⟩ ::
        (tokensOf (line + Text.newlines (c :: tail)) follow).map Token.word := by
  have htake : follow.takeWhile isBlank = [] := by
    simpa using Lexeme.takeWhile_append_of_stop (t := []) (by simp) hblank
  have hdrop : follow.dropWhile isBlank = follow := by
    simpa using Lexeme.dropWhile_append_of_stop (t := []) (by simp) hblank
  rw [tokensOf]
  simp [h, htake, hdrop, Token.word, Text.newlines]

theorem head_of_point {p : Char → Bool} (hpoint : ∀ x ∈ follow.head?, x = '.')
    (hp : p '.' = false) : ∀ x ∈ follow.head?, p x = false := by
  intro x hx
  rw [hpoint x hx]
  exact hp

/-- A key ends at a point, unless both make a number with what follows. -/
theorem first_key (key : Key) (hpoint : ∀ x ∈ follow.head?, x = '.')
    (hnumber : key.isItem = true → Lexeme.fraction? follow = none) :
    ∃ c tail, key.text = c :: tail ∧ isBlank c = false ∧
      Lexeme.first c (tail ++ follow) = ⟨key.kind, tail, follow⟩ := by
  obtain ⟨c, tail, htext, hblank, -⟩ := Lexeme.first_of_spells key.spells
  refine ⟨c, tail, htext, hblank, ?_⟩
  have hword : ∀ x ∈ follow.head?, isWordPart x = false := head_of_point hpoint (by decide)
  cases key with
  | member name =>
    obtain ⟨hname, hoperator⟩ : isWord (c :: tail) = true ∧ c :: tail ∉ Symbol.words := by
      have hproperty := name.property
      rw [show name.val = c :: tail from htext] at hproperty
      simpa [isName] using hproperty
    obtain ⟨hc, htail⟩ := isWord_cons.mp hname
    rw [Lexeme.first_wordStart hc, Lexeme.word_append htail hword, if_neg hoperator]
    rfl
  | item digits =>
    have hproperty := digits.property
    rw [show digits.val = c :: tail from htext] at hproperty
    obtain ⟨hc, htail⟩ := isDigits_cons.mp hproperty
    have hdigit : ∀ x ∈ follow.head?, x.isDigit = false := head_of_point hpoint (by decide)
    have hpower : Lexeme.exponent? follow = none :=
      Lexeme.exponent?_eq_none (head_of_point hpoint (by decide))
    rw [Lexeme.first_digit hc, Lexeme.number, Lexeme.takeWhile_append_of_stop htail hdigit,
      Lexeme.dropWhile_append_of_stop htail hdigit]
    simp [Lexeme.optional, hnumber rfl, hpower, Key.kind]
  | selected name =>
    obtain ⟨rfl, rfl⟩ := List.cons.inj htext
    obtain ⟨_ | ⟨x, rest⟩, hname⟩ := name
    · simp [isWord] at hname
    · obtain ⟨hx, -⟩ := isWord_cons.mp hname
      have hall : ∀ y ∈ x :: rest, isWordPart y = true := fun y hy => isWordPart_of_mem hname hy
      rw [List.cons_append, Lexeme.first_dollar hx, ← List.cons_append,
        Lexeme.span_append_of_stop _ hall hword]
      rfl

theorem first_point {x : Char} (h : x ≠ '=') (t : Text) :
    Lexeme.first '.' (x :: t) = ⟨.symbol ['.'], [], x :: t⟩ := by
  have hfind : Symbol.spellings.find? (·.isPrefixOf ('.' :: x :: t)) = some ['.'] := by
    simp [Symbol.spellings, Symbol.ofThree, Symbol.ofTwo, Symbol.ofOne, List.isPrefixOf, h.symm]
  have hword : isWordStart '.' = false := by decide
  have hdigit : Char.isDigit '.' = false := by decide
  simp [Lexeme.first, hword, hdigit, Lexeme.symbol, hfind]

theorem head_chainText (keys : List Key) (hpoint : ∀ x ∈ follow.head?, x = '.') :
    ∀ x ∈ (chainText keys ++ follow).head?, x = '.' := by
  cases keys with
  | nil => exact hpoint
  | cons key more =>
    intro x hx
    rw [chainText_cons] at hx
    exact (Option.some.inj hx).symm

theorem fraction?_chainText {key : Key} (h : key.isItem = false) (more : List Key) :
    Lexeme.fraction? (chainText (key :: more) ++ follow) = none := by
  obtain ⟨c, tail, htext, -, -, hdigit⟩ := key.exists_head
  rw [chainText_cons, htext]
  simp [Lexeme.fraction?, hdigit, h]

theorem words_point (key : Key) (line : Nat) :
    (tokensOf line ('.' :: (key.text ++ follow))).map Token.word =
      .symbol ['.'] [] :: (tokensOf line (key.text ++ follow)).map Token.word := by
  obtain ⟨c, tail, htext, hblank, heq, -⟩ := key.exists_head
  have hfirst : Lexeme.first '.' ([] ++ (c :: (tail ++ follow))) =
      ⟨.symbol ['.'], [], c :: (tail ++ follow)⟩ := first_point heq _
  have hwords := word_tokensOf_of_first hfirst (by simpa using hblank) line
  rw [htext]
  exact hwords

theorem words_chainText {keys : List Key} (hkeys : keys.IsChain Key.Parts)
    (hpoint : ∀ x ∈ follow.head?, x = '.')
    (hlast : ∀ key ∈ keys.getLast?, key.isItem = true → Lexeme.fraction? follow = none)
    (line : Nat) :
    ∃ line', (tokensOf line (chainText keys ++ follow)).map Token.word =
      chainWords keys ++ (tokensOf line' follow).map Token.word := by
  induction keys generalizing line with
  | nil => exact ⟨line, rfl⟩
  | cons key more ih =>
    have hnumber : key.isItem = true → Lexeme.fraction? (chainText more ++ follow) = none := by
      intro hitem
      cases more with
      | nil => exact hlast key rfl hitem
      | cons next more =>
        have hparts := (List.isChain_cons_cons.mp hkeys).1
        exact fraction?_chainText (Bool.eq_false_iff.mpr fun hnext => hparts ⟨hitem, hnext⟩) more
    obtain ⟨c, tail, htext, -, hfirst⟩ := first_key key (head_chainText more hpoint) hnumber
    have hblank : ∀ x ∈ (chainText more ++ follow).head?, isBlank x = false :=
      head_of_point (head_chainText more hpoint) (by decide)
    have hlast' : ∀ last ∈ more.getLast?, last.isItem = true → Lexeme.fraction? follow = none := by
      intro last hmem
      cases more with
      | nil => cases hmem
      | cons next more => exact hlast last hmem
    obtain ⟨line', hmore⟩ := ih hkeys.tail hlast' (line + Text.newlines (c :: tail))
    refine ⟨line', ?_⟩
    rw [chainText_cons, List.cons_append, List.append_assoc, words_point, htext, List.cons_append,
      word_tokensOf_of_first hfirst hblank, hmore]
    simp [chainWords, Key.word, htext]

theorem words_variable (name : Identifier) (hpoint : ∀ x ∈ follow.head?, x = '.') (line : Nat) :
    ∃ line', (tokenize line ('$' :: (name.val ++ follow))).map Token.word =
      (Key.selected name).word :: (tokensOf line' follow).map Token.word := by
  obtain ⟨c, tail, htext, hc, hfirst⟩ := first_key (.selected name) hpoint nofun
  obtain ⟨rfl, rfl⟩ := List.cons.inj htext
  have hblank : ∀ x ∈ follow.head?, isBlank x = false := head_of_point hpoint (by decide)
  refine ⟨line + Text.newlines ('$' :: name.val), ?_⟩
  rw [tokenize, List.takeWhile_cons_of_neg (by simp [hc]),
    List.dropWhile_cons_of_neg (by simp [hc])]
  exact word_tokensOf_of_first hfirst hblank line

theorem words_number (a b : Digits) (hpoint : ∀ x ∈ follow.head?, x = '.') (line : Nat) :
    ∃ more, (tokensOf line (chainText [.item a, .item b] ++ follow)).map Token.word =
      .symbol ['.'] [] :: ⟨.float, a.val ++ '.' :: b.val, []⟩ :: more := by
  obtain ⟨c, tail, ha, hc, htail⟩ := exists_cons_of_isDigits a.property
  have hpower : Lexeme.exponent? follow = none :=
    Lexeme.exponent?_eq_none (head_of_point hpoint (by decide))
  have hfraction : Lexeme.fraction? ('.' :: (b.val ++ follow)) = some ('.' :: b.val, follow) :=
    Lexeme.fraction?_append_of_stop b.property (head_of_point hpoint (by decide))
  have hdigit : ∀ x ∈ ('.' :: (b.val ++ follow)).head?, x.isDigit = false := by
    rintro x ⟨⟩
    decide
  have hfirst : Lexeme.first c ((tail ++ '.' :: b.val) ++ follow) =
      ⟨.float, tail ++ '.' :: b.val, follow⟩ := by
    rw [List.append_assoc, List.cons_append, Lexeme.first_digit hc, Lexeme.number,
      Lexeme.takeWhile_append_of_stop htail hdigit, Lexeme.dropWhile_append_of_stop htail hdigit]
    simp [Lexeme.optional, hfraction, hpower]
  have hwords := word_tokensOf_of_first hfirst (head_of_point hpoint (by decide)) line
  refine ⟨(tokensOf (line + Text.newlines (c :: (tail ++ '.' :: b.val))) follow).map Token.word, ?_⟩
  rw [chainText_cons, List.cons_append, List.append_assoc, words_point, chainText_cons,
    chainText_nil, List.append_nil]
  simp only [Key.text, ha, List.cons_append, List.append_assoc] at hwords ⊢
  rw [hwords]

/-- A variable with a chain behind it. -/
def variableWords (name : Identifier) (keys : List Key) : List Word :=
  (Key.selected name).word :: chainWords keys

theorem words_chain {keys : List Key} (name : Identifier) (hkeys : keys.IsChain Key.Parts)
    (hpoint : ∀ x ∈ follow.head?, x = '.')
    (hlast : ∀ key ∈ keys.getLast?, key.isItem = true → Lexeme.fraction? follow = none)
    (line : Nat) :
    ∃ line', (tokenize line (chainSource name keys ++ follow)).map Token.word =
      variableWords name keys ++ (tokensOf line' follow).map Token.word := by
  obtain ⟨line₁, hvariable⟩ := words_variable name (head_chainText keys hpoint) line
  obtain ⟨line₂, hchain⟩ := words_chainText hkeys hpoint hlast line₁
  refine ⟨line₂, ?_⟩
  rw [chainSource, List.cons_append, List.append_assoc, hvariable, hchain]
  rfl

end Tokens

/-! ## Reading a chain -/

section Read

variable {scope : Scope} {inner : Inner} {n bound : Nat} {base : Expr}

theorem passes_dotted (base : Expr) (key : Key) :
    Passes (dotted base) n [key.word] (fun _ => True) (key.access base) := by
  refine Passes.of_token fun t ht behind ahead endLine => ?_
  have hkind : t.kind = key.kind := congrArg Word.kind ht
  have htext : t.text = key.text := congrArg Word.text ht
  cases key with
  | member name =>
    simp [dotted, Cursor.current?, Cursor.advance, hkind, htext, Key.kind, Key.text, Key.access]
  | item digits =>
    simp [dotted, Cursor.current?, Cursor.advance, hkind, htext, Key.kind, Key.text, Key.access]
  | selected name =>
    simp [dotted, Cursor.current?, Cursor.advance, hkind, name_of_variable ht, Key.kind, Key.access]

theorem leads_chain (keys : List Key) (hn : n ≤ bound) :
    Leads (accesses scope inner bound base) (accesses scope inner) n (chainWords keys)
      (fun _ => True) (chainExpr base keys) := by
  induction keys generalizing n bound base with
  | nil => exact Leads.done _ hn
  | cons key more ih =>
    refine Leads.of_turn _ (by simp [chainWords]) hn ?_
    rintro b rfl
    rw [accesses]
    dsimp only [String.reduceToList]
    exact Leads.skip_then rfl (Leads.step (passes_dotted base key) (ih (by omega)))

theorem leads_target (scope : Scope) (name : Identifier) (keys : List Key)
    (hn : n ≤ inner.bound) :
    Leads (targetWith scope inner) (accesses scope inner) n (variableWords name keys)
      (fun _ => True) (chainExpr (.variable name.val) keys) := by
  rw [targetWith]
  exact Leads.step (passes_loopVariable name []) (leads_chain keys (by omega))

theorem asTerm_chain (scope : Scope) (name : Identifier) (keys : List Key) :
    AsTerm scope (fun _ => variableWords name keys) (chainExpr (.variable name.val) keys) := by
  refine asTerm_of_variable (fun _ _ => rfl) fun n inner _ hready => ?_
  have htarget : Passes (targetWith scope inner) n (variableWords name keys) EndsTarget
      (chainExpr (.variable name.val) keys) :=
    (leads_target scope name keys hready.le_bound).passes (fun _ _ => trivial)
      fun _ _ hk => accesses_of_end hk
  rw [counted, ← List.append_nil (variableWords name keys)]
  refine htarget.bind (fun _ hk => hk.1) ?_
  exact Passes.look (Passes.not_takeOperator fun _ hk => hk) (fun _ hk => hk.not_step) Passes.pure

theorem asExpression_chain (scope : Scope) (name : Identifier) (keys : List Key) :
    AsExpression scope (fun _ => variableWords name keys)
      (chainExpr (.variable name.val) keys) := by
  have hoperand := (asTerm_chain scope name keys).modified.operand fun _ _ => trivial
  exact (hoperand.operation 1).expression fun _ => List.cons_ne_nil _ _

theorem expression_of_counted_error {c c' : Cursor} {fault : Fault}
    (hkind : nextKind c.ahead = some .variable)
    (h : ∀ inner, Ready scope c.ahead.length inner → counted scope inner c = .error fault c') :
    expression scope c = .error fault c' := by
  obtain ⟨behind, _ | ⟨t, ahead⟩, endLine⟩ := c
  · cases hkind
  have hkind : t.kind = .variable := Option.some.inj hkind
  have hoperator (role : Role) : takeOperator? role ⟨behind, t :: ahead, endLine⟩ =
      .ok none ⟨behind, t :: ahead, endLine⟩ := by
    refine takeOperator?_of_none ?_
    rw [nextKind_cons, hkind]
    rfl
  have hterm (inner : Inner) (hready : Ready scope (ahead.length + 1) inner) :
      term scope inner ⟨behind, t :: ahead, endLine⟩ = .error fault c' := by
    have hcounted := h inner hready
    simpa [term, Cursor.current?, hkind] using hcounted
  change expressionWithin scope (ahead.length + 1) false ⟨behind, t :: ahead, endLine⟩ = _
  rw [expressionWithin, choice, operation, operandHere, operand]
  refine bind_eq_error_iff.mpr (.inl (bind_eq_error_iff.mpr (.inl ?_)))
  rw [bind_of_ok (hoperator .unary)]
  dsimp only
  rw [bind_of_ok (hoperator .step)]
  exact bind_eq_error_iff.mpr (.inl (hterm _ (ready_choice scope ahead.length)))

theorem accesses_float {point number : Token} {behind rest : List Token} {endLine : Nat}
    (hpoint : point.kind = .symbol ['.']) (hnumber : number.kind = .float) :
    accesses scope inner (bound + 1) base ⟨behind, point :: number :: rest, endLine⟩ =
      refuse [.kind .name] ⟨point :: behind, number :: rest, endLine⟩ := by
  rw [accesses]
  dsimp only [String.reduceToList]
  rw [bind_of_ok (skip_cons hpoint), if_pos rfl]
  refine bind_eq_error_iff.mpr (.inl ?_)
  simp only [dotted, Cursor.current?, List.head?_cons, hnumber]
  rfl

theorem counted_float {front rest : List Token} {point number : Token} {name : Identifier}
    {keys : List Key} {endLine : Nat} (hfront : front.map Token.word = variableWords name keys)
    (hpoint : point.kind = .symbol ['.']) (hnumber : number.kind = .float)
    (hn : (front ++ point :: number :: rest).length ≤ inner.bound) :
    counted scope inner ⟨[], front ++ point :: number :: rest, endLine⟩ =
      refuse [.kind .name] ⟨point :: front.reverse, number :: rest, endLine⟩ := by
  obtain ⟨bound, hbound, hleads⟩ := leads_target scope name keys hn [] front
    (point :: number :: rest) endLine hfront trivial (Nat.le_refl _)
  obtain ⟨b, rfl⟩ : ∃ b, bound = b + 1 := Nat.exists_eq_succ_of_ne_zero (by
    rintro rfl
    simp at hbound)
  refine bind_eq_error_iff.mpr (.inl ?_)
  rw [hleads, accesses_float hpoint hnumber, List.append_nil]
  rfl

end Read

/-! ## Chains as a whole -/

theorem exists_first_break {α : Type} {R : α → α → Prop} {l : List α} (h : ¬ l.IsChain R) :
    ∃ before a b after, l = before ++ a :: b :: after ∧ (before ++ [a]).IsChain R ∧ ¬ R a b := by
  induction l with
  | nil => exact absurd .nil h
  | cons a l ih =>
    cases l with
    | nil => exact absurd (.singleton a) h
    | cons b l =>
      by_cases hab : R a b
      · have hrest : ¬ (b :: l).IsChain R := fun hrest => h (.cons_cons hab hrest)
        obtain ⟨before, x, y, after, hl, hchain, hxy⟩ := ih hrest
        refine ⟨a :: before, x, y, after, by rw [hl, List.cons_append], ?_, hxy⟩
        cases before with
        | nil =>
          obtain ⟨rfl, -⟩ := List.cons.inj hl
          exact .cons_cons hab hchain
        | cons z before =>
          obtain ⟨rfl, -⟩ := List.cons.inj hl
          exact .cons_cons hab hchain
      · exact ⟨[], a, b, l, rfl, .singleton a, hab⟩

variable {scope : Scope} {name : Identifier} {keys : List Key}

theorem length_variableWords (name : Identifier) (keys : List Key) :
    (variableWords name keys).length = 1 + 2 * keys.length := by
  simp [variableWords, chainWords, List.length_flatMap]
  omega

theorem chainSource_append (name : Identifier) (before after : List Key) :
    chainSource name (before ++ after) = chainSource name before ++ chainText after := by
  simp [chainSource, chainText]

theorem expression_chain (hkeys : keys.IsChain Key.Parts) (line : Nat) :
    ∃ c : Cursor, expression scope (Cursor.ofText (chainSource name keys) line) =
        .ok (chainExpr (.variable name.val) keys) c ∧
      c.atEnd = true ∧ c.position = 1 + 2 * keys.length := by
  have htokens : (tokenize line (chainSource name keys)).map Token.word =
      variableWords name keys := by
    have hend : ∀ x ∈ ([] : Text).head?, x = '.' := nofun
    obtain ⟨line', hwords⟩ := words_chain name hkeys hend (fun _ _ _ => rfl) line
    rw [tokensOf, List.map_nil, List.append_nil, List.append_nil] at hwords
    exact hwords
  have hread := asExpression_chain scope name keys _ false [] []
    (tokenize line (chainSource name keys)) [] (Cursor.ofText (chainSource name keys) line).endLine
    htokens (by decide) (Nat.le_refl _)
  rw [List.append_nil, List.append_nil] at hread
  refine ⟨_, hread, rfl, ?_⟩
  rw [Cursor.position, List.length_reverse, ← length_variableWords name, ← htokens, List.length_map]

/-- The words of a chain up to the first two keys that run together, and the number they make. -/
theorem words_broken {before : List Key} (name : Identifier) (a b : Digits) (after : List Key)
    (hchain : (before ++ [Key.item a]).IsChain Key.Parts) (line : Nat) :
    ∃ more,
      (tokenize line (chainSource name (before ++ Key.item a :: .item b :: after))).map Token.word =
        variableWords name before ++
          .symbol ['.'] [] :: ⟨.float, a.val ++ '.' :: b.val, []⟩ :: more := by
  obtain ⟨hbefore, -, hparts⟩ := List.isChain_append.mp hchain
  have hafter : ∀ x ∈ (chainText after ++ []).head?, x = '.' := head_chainText after nofun
  have hpoint := head_chainText [.item a, .item b] hafter
  have hlast : ∀ key ∈ before.getLast?, key.isItem = true →
      Lexeme.fraction? (chainText [.item a, .item b] ++ (chainText after ++ [])) = none :=
    fun key hkey hitem => absurd ⟨hitem, rfl⟩ (hparts key hkey (.item a) rfl)
  obtain ⟨line', hwords⟩ := words_chain name hbefore hpoint hlast line
  obtain ⟨more, hnumber⟩ := words_number a b hafter line'
  refine ⟨more, ?_⟩
  rw [← hnumber, ← hwords, chainSource_append]
  simp [chainText]

/-- Two keys of digits are taken for one number, which is no key. -/
theorem expression_broken {before : List Key} (a b : Digits) (after : List Key)
    (hchain : (before ++ [Key.item a]).IsChain Key.Parts) (line : Nat) :
    ∃ c : Cursor, expression scope
        (Cursor.ofText (chainSource name (before ++ Key.item a :: .item b :: after)) line) =
          .error (.unexpected (c.unexpected [.kind .name])) c ∧
      c.current?.map Token.text = some (a.val ++ '.' :: b.val) := by
  obtain ⟨more, hwords⟩ := words_broken name a b after hchain line
  rw [Cursor.ofText, Cursor.ofTokens, Cursor.place]
  generalize tokenize line _ = tokens at hwords ⊢
  obtain ⟨front, back, rfl, hfront, hback⟩ := List.map_eq_append_iff.mp hwords
  obtain ⟨point, back, rfl, hpoint, hback⟩ := List.map_eq_cons_iff.mp hback
  obtain ⟨number, rest, rfl, hnumber, -⟩ := List.map_eq_cons_iff.mp hback
  generalize Cursor.lastLine _ line = endLine
  rw [List.take_zero, List.drop_zero, List.reverse_nil]
  refine ⟨⟨point :: front.reverse, number :: rest, endLine⟩,
    expression_of_counted_error ?_ fun inner hready => ?_,
    congrArg some (congrArg Word.text hnumber)⟩
  · rw [nextKind_append hfront]
    rfl
  · exact counted_float hfront (congrArg Word.kind hpoint) (congrArg Word.kind hnumber)
      hready.le_bound

/--
A variable with any number of keys behind it, written without spaces, is read to its end and comes
to one `get` inside the other. Only where two keys of digits follow each other it is refused, at
the number that the first two such keys make.
-/
theorem chain_nested_gets (scope : Scope) (line : Nat) (name : Identifier) (keys : List Key) :
    (keys.IsChain Key.Parts →
      ∃ e c, expression scope (Cursor.ofText (chainSource name keys) line) = .ok e c ∧
        e.code = chainCode name keys ∧ c.atEnd = true ∧ c.position = 1 + 2 * keys.length) ∧
    (¬ keys.IsChain Key.Parts →
      ∃ before a b after c, keys = before ++ .item a :: .item b :: after ∧
        (before ++ [.item a]).IsChain Key.Parts ∧
        expression scope (Cursor.ofText (chainSource name keys) line) =
          .error (.unexpected (c.unexpected [.kind .name])) c ∧
        c.current?.map Token.text = some (a.val ++ '.' :: b.val)) := by
  refine ⟨fun hkeys => ?_, fun hbroken => ?_⟩
  · obtain ⟨c, hread, hend, hposition⟩ := expression_chain hkeys line
    refine ⟨_, c, hread, ?_, hend, hposition⟩
    rw [Expr.code_eq_spelling, spelling_chainExpr]
    rfl
  · obtain ⟨before, a, b, after, rfl, hchain, hparts⟩ := exists_first_break hbroken
    obtain ⟨ha, hb⟩ := not_not.mp hparts
    cases a with
    | item a =>
      cases b with
      | item b =>
        obtain ⟨c, hread, htext⟩ := expression_broken a b after hchain line
        exact ⟨before, a, b, after, c, rfl, hchain, hread, htext⟩
      | member _ | selected _ => cases hb
    | member _ | selected _ => cases ha

namespace Chain

def v : Identifier := ⟨['v'], Eq.refl true⟩

def digit (c : Char) (h : c.isDigit = true) : Key := .item ⟨[c], by simp [isDigits, h]⟩

/-- `$v.1.$x.2.and1.0` -/
def mixed : List Key :=
  [digit '1' rfl, .selected ⟨['x'], by decide⟩, digit '2' rfl, .member ⟨"and1".toList, by decide⟩,
    digit '0' rfl]

/-- `$v.1.2` -/
def twoDigits : List Key := [digit '1' rfl, digit '2' rfl]

end Chain

open Chain in
theorem chain_nested_gets_mixed :
    mixed.IsChain Key.Parts ∧
    ∃ e c, expression ⟨.standard, ⟨0⟩⟩ (Cursor.ofText "$v.1.$x.2.and1.0" 1) = .ok e c ∧
      e.code = "(get (get (get (get (get (var v) 1) (var x)) 2) \"and1\") 0)" ∧ c.atEnd = true ∧
      c.position = 11 := by
  have hmixed : mixed.IsChain Key.Parts := by decide
  exact ⟨hmixed, (chain_nested_gets ⟨.standard, ⟨0⟩⟩ 1 v mixed).1 hmixed⟩

open Chain in
theorem chain_broken_digits :
    ¬ ∃ e c, expression ⟨.standard, ⟨0⟩⟩ (Cursor.ofText (chainSource v twoDigits) 1) = .ok e c ∧
      e.code = chainCode v twoDigits ∧ c.atEnd = true := by
  rintro ⟨e, c, hread, -⟩
  have hrefused : (match
        expression ⟨.standard, ⟨0⟩⟩ (Cursor.ofText (chainSource v twoDigits) 1) with
      | .ok _ _ => false
      | .error _ _ => true) = true := by decide +kernel
  rw [hread] at hrefused
  cases hrefused

end Stencil.Written
