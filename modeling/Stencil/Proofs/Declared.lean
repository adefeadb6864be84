import Stencil.Proofs.Owners

/-!
# Child tags that are declared again

A block keeps the handlers of its child tags apart from the names of those that float. The last
declaration of a child tag gives its handler. A name that floats is never taken back, so the tag
floats as soon as one of its declarations, the last or an earlier one, lets it.
-/

namespace Stencil

open Template Reading

/-- A declaration of a child tag. -/
structure Declaration where
  name : Text
  handler : BlockHandler
  floating : Bool

/-- The last declaration of a child tag. -/
def Declaration.last? (ds : List Declaration) (child : Text) : Option Declaration :=
  (ds.filter (·.name = child)).getLast?

theorem Declaration.last?_cons (d : Declaration) (ds : List Declaration) (child : Text) :
    last? (d :: ds) child = (last? ds child).or (if d.name = child then some d else none) := by
  unfold last?
  by_cases hname : d.name = child
  · rw [List.filter_cons_of_pos (by simpa using hname), List.getLast?_cons, if_pos hname]
    cases (ds.filter (·.name = child)).getLast? <;> rfl
  · rw [List.filter_cons_of_neg (by simpa using hname), if_neg hname, Option.or_none]

namespace Block

/-- Adds a child tag as it is declared. -/
def add (b : Block) (d : Declaration) : Block :=
  if d.floating then b.declareFloating d.name d.handler else b.declare d.name d.handler

def addAll (b : Block) (ds : List Declaration) : Block := ds.foldl add b

/-! ## One declaration -/

theorem children_add (b : Block) (d : Declaration) :
    (b.add d).children = (d.name, d.handler) :: b.children.filter (·.1 ≠ d.name) := by
  unfold add
  split <;> rfl

theorem floating_add (b : Block) (d : Declaration) :
    (b.add d).floating = if d.floating then d.name :: b.floating else b.floating := by
  unfold add
  split <;> rfl

theorem lookup_filter_of_ne {child name : Text} (h : child ≠ name)
    (children : List (Text × BlockHandler)) :
    (children.filter (·.1 ≠ name)).lookup child = children.lookup child := by
  induction children with
  | nil => rfl
  | cons entry children ih =>
    by_cases hname : entry.1 = name
    · have hchild : (child == entry.1) = false := by simpa [hname] using h
      rw [List.filter_cons_of_neg (by simpa using hname), ih, List.lookup_cons, hchild]
    · rw [List.filter_cons_of_pos (by simpa using hname), List.lookup_cons, List.lookup_cons, ih]

theorem child?_add (b : Block) (d : Declaration) (child : Text) :
    (b.add d).child? child = if d.name = child then some d.handler else b.child? child := by
  rw [child?, children_add]
  by_cases hname : d.name = child
  · rw [if_pos hname, hname, List.lookup_cons_self]
  · have hother : (child == d.name) = false := by simpa using Ne.symm hname
    rw [if_neg hname, List.lookup_cons, hother]
    exact lookup_filter_of_ne (Ne.symm hname) _

theorem floats_add (b : Block) (d : Declaration) (child : Text) :
    (b.add d).floats child = true ↔
      (d.name = child ∧ d.floating = true) ∨ b.floats child = true := by
  simp only [floats, floating_add, decide_eq_true_eq]
  split
  · rename_i hfloats
    rw [List.mem_cons, and_iff_left hfloats, eq_comm]
  · rename_i hfloats
    rw [and_iff_right_of_imp fun h => absurd h hfloats, or_iff_right hfloats]

/-! ## Many declarations -/

theorem child?_addAll (b : Block) (ds : List Declaration) (child : Text) :
    (b.addAll ds).child? child =
      ((Declaration.last? ds child).map Declaration.handler).or (b.child? child) := by
  induction ds generalizing b with
  | nil => rfl
  | cons d ds ih =>
    have hrest : (b.addAll (d :: ds)).child? child = ((b.add d).addAll ds).child? child := rfl
    rw [hrest, ih, child?_add, Declaration.last?_cons]
    cases Declaration.last? ds child with
    | some last => rfl
    | none => split <;> rfl

theorem floats_addAll (b : Block) (ds : List Declaration) (child : Text) :
    (b.addAll ds).floats child = true ↔
      (∃ d ∈ ds, d.name = child ∧ d.floating = true) ∨ b.floats child = true := by
  induction ds generalizing b with
  | nil => simp [addAll]
  | cons d ds ih =>
    have hrest : (b.addAll (d :: ds)).floats child = ((b.add d).addAll ds).floats child := rfl
    rw [hrest, ih, floats_add, List.exists_mem_cons_iff, or_assoc, or_left_comm]

end Block

/-! ## The tag inside other blocks -/

section

variable {d : Dialect} {options : Options} {line : Nat} {c : Cursor} {child : Text}
  {inner outer : List Frame} {owner top : Frame} {handler : BlockHandler}

theorem bind_congr_at {α β : Type} {read read' : Reading α} {f : α → Reading β}
    (h : read c = read' c) : (read >>= f) c = (read' >>= f) c := by
  simp only [bind, EStateM.bind, h]

theorem compileBody_inside (hname : tagName? c = some child)
    (hinner : ∀ frame ∈ inner, d.child? frame child = none) (htop : top ∈ inner.head?)
    (howner : d.child? owner child = some handler) :
    compileBody d options line (inner ++ owner :: outer) c =
      if d.floats owner child then
        (do
          advance
          let (statement, owner) ← handler (d.scope options) owner
          finish (statement, inner ++ owner :: outer)) c
      else .error (misplaced child owner top) c := by
  have hcontent : compileContent d options line (inner ++ owner :: outer) c =
      compileChild d options child inner owner handler outer c :=
    compileContent_child hname (findOwner?_of_innermost hinner howner)
  have hbody : compileBody d options line (inner ++ owner :: outer) c =
      (compileContent d options line (inner ++ owner :: outer) >>= finish) c := rfl
  rw [hbody]
  split
  · rename_i hfloats
    rw [compileChild_handled (.inr hfloats)] at hcontent
    rw [bind_congr_at hcontent]
    simp only [bind_assoc, pure_bind]
  · rename_i hfloats
    obtain ⟨rest, rfl⟩ := List.head?_eq_some_iff.mp htop
    rw [compileChild_misplaced (by simpa using hfloats)] at hcontent
    exact bind_of_error hcontent

end

/--
Of all declarations of a child tag the last one gives its handler. The tag floats if the last one
lets it, and also if an earlier one did. Where blocks that do not have the tag are open inside the
block, the tag goes to that handler if it floats, and is misplaced if it does not.
-/
theorem child_of_declarations (opener closer : BlockHandler) (ds : List Declaration) {child : Text}
    {last : Declaration} (hlast : Declaration.last? ds child = some last) :
    let b := ({ opener, closer } : Block).addAll ds
    let floats := last.floating = true ∨ ∃ other ∈ ds, other.name = child ∧ other.floating = true
    b.child? child = some last.handler ∧ (b.floats child = true ↔ floats) ∧
    ∀ (d : Dialect) (options : Options) (line : Nat) (c : Cursor) (inner outer : List Frame)
      (owner top : Frame), d.block? owner.action = some b → top ∈ inner.head? →
      (∀ frame ∈ inner, d.child? frame child = none) → tagName? c = some child →
      (floats → compileBody d options line (inner ++ owner :: outer) c = (do
        advance
        let (statement, owner) ← last.handler (d.scope options) owner
        finish (statement, inner ++ owner :: outer)) c) ∧
      (¬ floats → compileBody d options line (inner ++ owner :: outer) c =
        .error (misplaced child owner top) c) := by
  intro b floats
  have hchild : b.child? child = some last.handler := by
    rw [Block.child?_addAll, hlast]
    rfl
  have hfloats : b.floats child = true ↔ floats := by
    have hmem : last ∈ ds ∧ last.name = child := by
      simpa using List.mem_filter.mp (List.mem_of_getLast? hlast)
    have hnew : ({ opener, closer } : Block).floats child = false := rfl
    rw [Block.floats_addAll, hnew]
    constructor
    · rintro (h | h)
      · exact .inr h
      · cases h
    · rintro (h | h)
      · exact .inl ⟨last, hmem.1, hmem.2, h⟩
      · exact .inl h
  refine ⟨hchild, hfloats, ?_⟩
  intro d options line c inner outer owner top howner htop hinner hname
  have hhandler : d.child? owner child = some last.handler := by
    rw [Dialect.child?, howner, Option.bind_some, hchild]
  have hblock : d.floats owner child = b.floats child := by
    rw [Dialect.floats, howner, Option.any_some]
  constructor
  · intro h
    rw [compileBody_inside hname hinner htop hhandler, hblock, if_pos (hfloats.mpr h)]
  · intro h
    rw [compileBody_inside hname hinner htop hhandler, hblock, if_neg fun hb => h (hfloats.mp hb)]

namespace Twice

/-- A tag that stands for a word of the script. -/
def say (word : Text) : BlockHandler := .plain (.constant (.code word))

def menu (ds : List Declaration) : Block :=
  ({ opener := say "open", closer := say "close" } : Block).addAll ds

/-- A block that has an item, in a dialect that has it beside the standard tags. -/
def dialect (ds : List Declaration) : Dialect :=
  Dialect.standard.register { name := "menu", behaviour := .block (menu ds) }

/-- The item is first a direct child only. -/
def loosened : List Declaration :=
  [⟨"item", say "first", false⟩, ⟨"note", say "note", true⟩, ⟨"item", say "second", true⟩]

/-- The item is to be a direct child only from its second declaration on. -/
def tightened : List Declaration :=
  [⟨"item", say "first", true⟩, ⟨"item", say "second", false⟩]

def source : Text := "\x7bmenu\x7d\x7bif 1\x7d\x7bitem\x7d\x7b/if\x7d\x7b/menu\x7d"

def owner : Frame := .opened "menu" 1

def branch : Frame := .opened "if" 1

def item : Token := ⟨.name, "item", "", 1⟩

end Twice

open Twice in
theorem child_of_declarations_loosened :
    (menu loosened).floats "item" = true ∧
    compileBody (dialect loosened) ⟨0⟩ 1 [branch, owner] (bodyCursor 1 "item") =
      .ok (.code "second", [branch, owner]) ⟨[item], [], 1⟩ := by
  have hlast : Declaration.last? loosened "item" = some ⟨"item", say "second", true⟩ := rfl
  obtain ⟨-, hfloats, htag⟩ := child_of_declarations (say "open") (say "close") loosened hlast
  have hcursor : bodyCursor 1 "item" = ⟨[], [item], 1⟩ := by decide +kernel
  refine ⟨hfloats.mpr (.inl rfl), ?_⟩
  refine ((htag (dialect loosened) ⟨0⟩ 1 (bodyCursor 1 "item") [branch] [] owner branch
    rfl rfl ?_ ?_).1 (.inl rfl)).trans ?_
  · simp only [List.mem_singleton, forall_eq]
    rfl
  · decide +kernel
  · rw [hcursor]
    rfl

open Twice in
/-- A tag that floats at first keeps floating when it is declared again as a direct child. -/
theorem child_broken_tightened :
    Declaration.last? tightened "item" = some ⟨"item", say "second", false⟩ ∧
      (menu tightened).floats "item" = true ∧
      compile (dialect tightened) ⟨0⟩ ['t'] source =
        .ok "@1\nopen\nif 1\nsecond\nend\nclose\n" := by
  exact ⟨rfl, by decide +kernel, by decide +kernel⟩

end Stencil
