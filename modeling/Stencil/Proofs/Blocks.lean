import Mathlib.Data.List.Forall2
import Stencil.Template.Compile

/-!
# Open blocks

The blocks of the standard dialect, and which of them a child tag goes to.
-/

namespace Stencil

open Tag Template

theorem Block.mem_children {b : Block} {child : Text} {handler : BlockHandler}
    (h : b.child? child = some handler) : (child, handler) ∈ b.children := by
  obtain ⟨before, after, heq, -⟩ := List.lookup_eq_some_iff.mp h
  rw [heq]
  simp

theorem Dialect.exists_of_block? {d : Dialect} {action : Text} {block : Block}
    (h : d.block? action = some block) : ∃ tag ∈ d.tags, tag.block? = some block := by
  obtain ⟨tag, hfind, hblock⟩ := Option.bind_eq_some_iff.mp h
  exact ⟨tag, List.mem_of_find?_eq_some hfind, hblock⟩

inductive BlockKind where
  | foreach
  | forRange
  | whileLoop
  | branch
  | switch
  | region
  | capture
deriving DecidableEq, Repr

namespace BlockKind

def name : BlockKind → Text
  | .foreach => "foreach"
  | .forRange => "for"
  | .whileLoop => "while"
  | .branch => "if"
  | .switch => "switch"
  | .region => "block"
  | .capture => "capture"

def block : BlockKind → Block
  | .foreach => foreachBlock
  | .forRange => forBlock
  | .whileLoop => whileBlock
  | .branch => ifBlock
  | .switch => switchBlock
  | .region => plainBlock openBlock
  | .capture => { opener := openCapture, closer := closeCapture "Func::capture" }

def isLoop : BlockKind → Bool
  | .foreach | .forRange | .whileLoop => true
  | .branch | .switch | .region | .capture => false

/-- The block can be left from inside. -/
def isBreakable : BlockKind → Bool
  | .switch => true
  | kind => kind.isLoop

/-! ## Child tags -/

def childNames : List Text :=
  ["foreachelse", "forelse", "elseif", "else", "case", "default", "break", "continue"]

theorem children_subset (kind : BlockKind) : kind.block.children.map Prod.fst ⊆ childNames := by
  cases kind <;> decide

theorem child?_eq_none {child : Text} (h : child ∉ childNames) (kind : BlockKind) :
    kind.block.child? child = none := by
  refine List.lookup_eq_none_iff.mpr fun entry hentry => ?_
  have hname : entry.1 ∈ childNames := kind.children_subset (List.mem_map_of_mem hentry)
  have hne : child ≠ entry.1 := by
    rintro rfl
    exact h hname
  simpa using hne

/-- A child tag without content that every block of the chosen kinds has, at any depth. -/
structure Floating (child : Text) (statement : Statement) (has : BlockKind → Bool) : Prop where
  child?_eq : ∀ kind : BlockKind, kind.block.child? child =
    if has kind then some (.plain (.constant statement)) else none
  floats : ∀ kind : BlockKind, has kind = true → kind.block.floats child = true

theorem floating_break : Floating "break" .breakLoop isBreakable where
  child?_eq kind := by cases kind <;> rfl
  floats kind := by cases kind <;> decide

theorem floating_continue : Floating "continue" .continueLoop isLoop where
  child?_eq kind := by cases kind <;> rfl
  floats kind := by cases kind <;> decide

end BlockKind

/-! ## Open blocks -/

/-- The open block is one of the kind. -/
structure Frame.Is (frame : Frame) (kind : BlockKind) : Prop where
  name_eq : frame.opening.name = kind.name
  action_eq : frame.action = kind.name

namespace Frame.Is

variable {frame : Frame} {kind : BlockKind}

theorem block?_eq (h : frame.Is kind) : Dialect.standard.block? frame.action = some kind.block := by
  rw [h.action_eq]
  cases kind <;> rfl

theorem child?_eq (h : frame.Is kind) (child : Text) :
    Dialect.standard.child? frame child = kind.block.child? child := by
  rw [Dialect.child?, h.block?_eq, Option.bind_some]

theorem floats_eq (h : frame.Is kind) (child : Text) :
    Dialect.standard.floats frame child = kind.block.floats child := by
  rw [Dialect.floats, h.block?_eq, Option.any_some]

theorem put (h : frame.Is kind) (key value : Text) : (frame.put key value).Is kind :=
  ⟨h.name_eq, h.action_eq⟩

end Frame.Is

theorem Frame.is_opened (kind : BlockKind) (line : Nat) : (Frame.opened kind.name line).Is kind :=
  ⟨rfl, rfl⟩

/-- The open blocks are of these kinds, innermost first. -/
def Opened (kinds : List BlockKind) (frames : List Frame) : Prop :=
  List.Forall₂ (fun kind frame => frame.Is kind) kinds frames

namespace Template

variable {d : Dialect} {child : Text} {frame owner : Frame} {frames inner outer : List Frame}
  {handler : BlockHandler} {kinds : List BlockKind}

theorem findOwner?_cons_of_some (h : d.child? frame child = some handler) :
    findOwner? d child (frame :: frames) = some ([], frame, handler, frames) := by
  rw [findOwner?, h]

theorem findOwner?_cons_of_none (h : d.child? frame child = none) :
    findOwner? d child (frame :: frames) = (findOwner? d child frames).map
      fun (inner, owner, handler, outer) => (frame :: inner, owner, handler, outer) := by
  rw [findOwner?, h]

theorem findOwner?_eq_none (h : Opened kinds frames) (hchild : child ∉ BlockKind.childNames) :
    findOwner? Dialect.standard child frames = none := by
  induction h with
  | nil => rfl
  | @cons kind frame _ _ hframe _ ih =>
    have hnone : Dialect.standard.child? frame child = none := by
      rw [hframe.child?_eq]
      exact kind.child?_eq_none hchild
    rw [findOwner?_cons_of_none hnone, ih]
    rfl

/-- The owner of a child tag is an open block that has it, and no block inside the owner does. -/
theorem findOwner?_eq_some (h : findOwner? d child frames = some (inner, owner, handler, outer)) :
    frames = inner ++ owner :: outer ∧ d.child? owner child = some handler ∧
      ∀ frame ∈ inner, d.child? frame child = none := by
  induction frames generalizing inner with
  | nil => simp [findOwner?] at h
  | cons frame frames ih =>
    cases hchild : d.child? frame child with
    | some found =>
      rw [findOwner?_cons_of_some hchild] at h
      cases h
      exact ⟨rfl, hchild, by simp⟩
    | none =>
      rw [findOwner?_cons_of_none hchild, Option.map_eq_some_iff] at h
      obtain ⟨⟨rest, _, _, _⟩, hfound, heq⟩ := h
      cases heq
      obtain ⟨hframes, howner, hinner⟩ := ih hfound
      refine ⟨by rw [hframes, List.cons_append], howner, ?_⟩
      intro x hx
      rcases List.mem_cons.mp hx with rfl | hx
      · exact hchild
      · exact hinner x hx

theorem exists_owner {statement : Statement} {has : BlockKind → Bool}
    (hfloating : BlockKind.Floating child statement has) (h : Opened kinds frames)
    (hhas : kinds.any has = true) :
    ∃ inner owner outer, findOwner? Dialect.standard child frames =
        some (inner, owner, .plain (.constant statement), outer) ∧
      Dialect.standard.floats owner child = true := by
  induction h with
  | nil => simp at hhas
  | @cons kind frame kinds frames hframe _ ih =>
    have hchild := hfloating.child?_eq kind
    rw [← hframe.child?_eq] at hchild
    cases hk : has kind with
    | true =>
      rw [hk, if_pos rfl] at hchild
      refine ⟨[], frame, frames, findOwner?_cons_of_some hchild, ?_⟩
      rw [hframe.floats_eq]
      exact hfloating.floats kind hk
    | false =>
      rw [hk, if_neg (by decide)] at hchild
      obtain ⟨inner, owner, outer, hfound, hfloats⟩ := ih (by simpa [hk] using hhas)
      refine ⟨frame :: inner, owner, outer, ?_, hfloats⟩
      rw [findOwner?_cons_of_none hchild, hfound]
      rfl

end Template

end Stencil
