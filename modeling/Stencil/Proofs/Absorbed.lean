import Stencil.Proofs.Balanced
import Stencil.Proofs.Leaving

/-!
# Ways out of the loops of a template

A way out that a template has lies in a block that takes it up. The steps that are read from the
script of the template keep the blocks, so a run of them ends early only where a loop with nothing to
go through runs its other part.
-/

namespace Stencil

open Script Template

/-! ## Words in their place -/

namespace BlockKind

def all : List BlockKind := [.foreach, .forRange, .whileLoop, .branch, .switch, .region, .capture]

def ofWord? (word : Text) : Option BlockKind := all.find? (·.word = word)

/-- The block takes up the flow. -/
def takes : Flow → BlockKind → Bool
  | .normal, _ => true
  | .broken, kind => kind.isBreakable
  | .continued, kind => kind.isLoop

end BlockKind

namespace Script

/-- The blocks that are open after a line with the word. -/
def openAfter (word : Text) (kinds : List BlockKind) : List BlockKind :=
  match BlockKind.ofWord? word with
  | some kind => kind :: kinds
  | none => if word ∈ [BlockKind.branch.closing, BlockKind.capture.closing] then kinds.tail else kinds

/-- The lines lead from some open blocks to others, and every way out lies in a block that takes it. -/
def Placed : List BlockKind → List Text → List BlockKind → Prop
  | kinds, [], kinds' => kinds = kinds'
  | kinds, word :: more, kinds' =>
    (word = "break".toList → kinds.any (·.takes .broken) = true) ∧
    (word = "continue".toList → kinds.any (·.takes .continued) = true) ∧
    Placed (openAfter word kinds) more kinds'

variable {kinds kinds' kinds'' : List BlockKind} {words more : List Text} {word : Text}

theorem Placed.append (h : Placed kinds words kinds') (hmore : Placed kinds' more kinds'') :
    Placed kinds (words ++ more) kinds'' := by
  induction words generalizing kinds with
  | nil =>
    cases h
    exact hmore
  | cons word words ih => exact ⟨h.1, h.2.1, ih h.2.2⟩

theorem placed_singleton (hbreak : word ≠ "break".toList) (hcontinue : word ≠ "continue".toList)
    (hafter : openAfter word kinds = kinds') : Placed kinds [word] kinds' :=
  ⟨fun h => absurd h hbreak, fun h => absurd h hcontinue, hafter⟩

theorem placed_plain (h : word ∈ plainWords) : Placed kinds [word] kinds := by
  have hwords : ∀ word ∈ plainWords, word ≠ "break".toList ∧ word ≠ "continue".toList ∧
      BlockKind.ofWord? word = none ∧ word ∉ ["end".toList, "finish".toList] := by decide
  obtain ⟨hbreak, hcontinue, hopen, hclose⟩ := hwords word h
  refine placed_singleton hbreak hcontinue ?_
  rw [openAfter, hopen]
  exact if_neg hclose

theorem placed_opening (kind : BlockKind) : Placed kinds [kind.word] (kind :: kinds) := by
  cases kind <;> exact placed_singleton (by decide) (by decide) rfl

theorem placed_closing (kind : BlockKind) : Placed (kind :: kinds) [kind.closing] kinds := by
  cases kind <;> exact placed_singleton (by decide) (by decide) rfl

theorem placed_arm {kind : BlockKind} (h : kind.arm? = some word) : Placed kinds [word] kinds := by
  cases kind <;> cases h <;> exact placed_singleton (by decide) (by decide) rfl

theorem placed_last {kind : BlockKind} (h : kind.last? = some word) : Placed kinds [word] kinds := by
  cases kind <;> cases h <;> exact placed_singleton (by decide) (by decide) rfl

mutual

theorem Body.placed {around : List BlockKind} : {words : List Text} → Body around words →
    Placed around words around
  | _, .nil => rfl
  | _, .plain hbody hword => hbody.placed.append (placed_plain hword)
  | _, .leave hbody haround =>
    hbody.placed.append ⟨fun _ => haround, fun h => absurd h (by decide), rfl⟩
  | _, .next hbody haround =>
    hbody.placed.append ⟨fun h => absurd h (by decide), fun _ => haround, rfl⟩
  | _, .block hbody hinside =>
    hbody.placed.append ((placed_opening _).append (hinside.placed.append (placed_closing _)))

theorem Sections.placed {kind : BlockKind} {around : List BlockKind} :
    {ended : Bool} → {words : List Text} → Sections kind around ended words →
    Placed (kind :: around) words (kind :: around)
  | _, _, .first hbody => hbody.placed
  | _, _, .arm hbefore hword hbody => hbefore.placed.append ((placed_arm hword).append hbody.placed)
  | _, _, .last hbefore hword hbody => hbefore.placed.append ((placed_last hword).append hbody.placed)

end

/-! ## Steps in their place -/

/-- Every way out of the step is taken up by a block. -/
def Guarded (kinds : List BlockKind) (step : Step) : Prop :=
  ∀ flow inner, flow ≠ .normal → step.Exposes flow inner → inner.exit = flow →
    kinds.any (·.takes flow) = true

/-- A step that no way out leads out of. -/
def isClosed : Step → Bool
  | .branch _ | .switch _ _ | .breakLoop | .continueLoop => false
  | _ => true

theorem guarded_of_isClosed {step : Step} (h : isClosed step = true) : Guarded kinds step := by
  intro flow inner hflow hexposes hexit
  cases hexposes with
  | refl =>
    cases step with
    | branch | switch | breakLoop | continueLoop => cases h
    | _ => exact absurd hexit.symm hflow
  | branch | switch => cases h

theorem guarded_branch {arms : List Arm}
    (h : ∀ condition steps, .mk condition steps ∈ arms →
      ∀ step ∈ steps, Guarded (.branch :: kinds) step) : Guarded kinds (.branch arms) := by
  intro flow inner hflow hexposes hexit
  cases hexposes with
  | refl => exact absurd hexit.symm hflow
  | branch harm hstep hexposes =>
    have htaken := h _ _ harm _ hstep flow inner hflow hexposes hexit
    cases flow with
    | normal => exact absurd rfl hflow
    | broken | continued => exact htaken

theorem guarded_switch {subject : Form} {body : List Step}
    (h : ∀ step ∈ body, Guarded (.switch :: kinds) step) : Guarded kinds (.switch subject body) := by
  intro flow inner hflow hexposes hexit
  cases hexposes with
  | refl => exact absurd hexit.symm hflow
  | switch hcontinued hstep hexposes =>
    subst hcontinued
    exact h _ hstep _ inner hflow hexposes hexit

/-- Where a body ends: at a line that stops it, or with the last line if no block is open. -/
inductive Resumes (stops : List Text) (kinds : List BlockKind) : Option Line → List Line → Prop
  | ended (hkinds : kinds = []) : Resumes stops kinds none []
  | stopped {stop : Line} {rest : List Line} (hstop : stop.word ∈ stops)
      (hrest : Placed (openAfter stop.word kinds) (rest.map Line.word) []) :
      Resumes stops kinds (some stop) rest

/-- What is read from lines in their place is in its place. -/
def BodyReader.Sound (body : BodyReader) : Prop :=
  ∀ {kinds : List BlockKind} {stops : List Text} {lines : List Line} {steps : List Step}
    {stop? : Option Line} {rest : List Line}, Placed kinds (lines.map Line.word) [] →
    body stops lines = some (steps, stop?, rest) →
    (∀ step ∈ steps, Guarded kinds step) ∧ Resumes stops kinds stop? rest

section

variable {body : BodyReader} {lines rest : List Line} (hbody : BodyReader.Sound body)

include hbody

theorem read_block {kind : BlockKind} {steps : List Step} {stop? : Option Line}
    (hplaced : Placed (kind :: kinds) (lines.map Line.word) [])
    (h : body ["end"] lines = some (steps, stop?, rest)) :
    (∀ step ∈ steps, Guarded (kind :: kinds) step) ∧ Placed kinds (rest.map Line.word) [] := by
  obtain ⟨hsteps, hresumes⟩ := hbody hplaced h
  refine ⟨hsteps, ?_⟩
  cases hresumes with
  | ended hkinds => cases hkinds
  | @stopped stop _ hstop hrest =>
    rw [List.mem_singleton.mp hstop] at hrest
    exact hrest

theorem readArms_sound {bound : Nat} {condition : Option Form} {arms : List Arm}
    (hplaced : Placed (.branch :: kinds) (lines.map Line.word) [])
    (h : readArms body bound condition lines = some (arms, rest)) :
    (∀ condition steps, .mk condition steps ∈ arms →
      ∀ step ∈ steps, Guarded (.branch :: kinds) step) ∧ Placed kinds (rest.map Line.word) [] := by
  induction bound generalizing condition lines arms with
  | zero => cases h
  | succ bound ih =>
    obtain ⟨⟨steps, stop?, rest'⟩, hread, harms⟩ := Option.bind_eq_some_iff.mp h
    clear h
    obtain ⟨stop, hsome, h⟩ := Option.bind_eq_some_iff.mp harms
    cases hsome
    obtain ⟨hsteps, hresumes⟩ := hbody hplaced hread
    cases hresumes with
    | stopped hstop hrest =>
      by_cases hend : stop.word = "end".toList
      · rw [if_pos hend] at h
        cases h
        rw [hend] at hrest
        refine ⟨fun _ _ harm => ?_, hrest⟩
        cases List.mem_singleton.mp harm
        exact hsteps
      · rw [if_neg hend] at h
        obtain ⟨⟨arms', rest''⟩, harms, h⟩ := Option.bind_eq_some_iff.mp h
        cases h
        have hstay : openAfter stop.word (.branch :: kinds) = .branch :: kinds := by
          simp only [List.mem_cons, List.not_mem_nil, or_false, hend] at hstop
          rcases hstop with hword | hword <;> (rw [hword]; rfl)
        rw [hstay] at hrest
        obtain ⟨hmore, hrest⟩ := ih hrest harms
        refine ⟨fun condition' steps' harm => ?_, hrest⟩
        rcases List.mem_cons.mp harm with heq | harm
        · cases heq
          exact hsteps
        · exact hmore condition' steps' harm

theorem readElse_sound {kind : BlockKind} {otherwise : Text} {steps others : List Step}
    (hotherwise : openAfter otherwise (kind :: kinds) = kind :: kinds)
    (hplaced : Placed (kind :: kinds) (lines.map Line.word) [])
    (h : readElse body otherwise lines = some (steps, others, rest)) :
    Placed kinds (rest.map Line.word) [] := by
  obtain ⟨⟨steps, stop?, rest'⟩, hread, h⟩ := Option.bind_eq_some_iff.mp h
  obtain ⟨-, hresumes⟩ := hbody hplaced hread
  cases hresumes with
  | ended hkinds => cases hkinds
  | @stopped stop _ hstop hrest =>
    dsimp only at h
    by_cases hword : stop.word = otherwise
    · rw [if_pos hword] at h
      obtain ⟨⟨others', stop', rest''⟩, hothers, h⟩ := Option.bind_eq_some_iff.mp h
      cases h
      rw [hword, hotherwise] at hrest
      exact (read_block hbody hrest hothers).2
    · rw [if_neg hword] at h
      cases h
      simp only [List.mem_cons, List.not_mem_nil, or_false, hword, false_or] at hstop
      rw [hstop] at hrest
      exact hrest

theorem readStep_sound {line : Line} {step : Step}
    (hplaced : Placed kinds ((line :: lines).map Line.word) [])
    (h : readStep body line lines = some (step, rest)) :
    Guarded kinds step ∧ Placed kinds (rest.map Line.word) [] := by
  obtain ⟨hbreak, hcontinue, hlines⟩ := hplaced
  have hword {word : String} (h : String.ofList line.word = word) : line.word = word.toList := by
    rw [← h, String.toList_ofList]
  have hafter {word : String} (h : String.ofList line.word = word) :
      Placed (openAfter word.toList kinds) (lines.map Line.word) [] := by
    rw [← hword h]
    exact hlines
  unfold readStep at h
  split at h
  -- Steps that are one line: a text, an echo, an assignment, a case and a default.
  case h_1 heq _ | h_2 heq _ | h_3 heq _ | h_9 heq _ | h_10 heq =>
    cases h
    exact ⟨guarded_of_isClosed rfl, hafter heq⟩
  case h_4 heq _ =>
    obtain ⟨⟨arms, _⟩, harms, h⟩ := Option.bind_eq_some_iff.mp h
    cases h
    obtain ⟨hsteps, hrest⟩ := readArms_sound hbody (hafter heq) harms
    exact ⟨guarded_branch hsteps, hrest⟩
  case h_5 heq _ | h_6 heq _ =>
    obtain ⟨⟨_, _, _⟩, helse, h⟩ := Option.bind_eq_some_iff.mp h
    cases h
    exact ⟨guarded_of_isClosed rfl, readElse_sound hbody rfl (hafter heq) helse⟩
  case h_7 heq _ =>
    obtain ⟨⟨_, _, _⟩, hblock, h⟩ := Option.bind_eq_some_iff.mp h
    cases h
    exact ⟨guarded_of_isClosed rfl, (read_block hbody (hafter heq) hblock).2⟩
  case h_8 heq _ =>
    obtain ⟨⟨_, _, _⟩, hblock, h⟩ := Option.bind_eq_some_iff.mp h
    cases h
    obtain ⟨hsteps, hrest⟩ := read_block hbody (hafter heq) hblock
    exact ⟨guarded_switch hsteps, hrest⟩
  case h_11 heq =>
    cases h
    refine ⟨?_, hafter heq⟩
    rintro flow _ - ⟨⟩ rfl
    exact hbreak (hword heq)
  case h_12 heq =>
    cases h
    refine ⟨?_, hafter heq⟩
    rintro flow _ - ⟨⟩ rfl
    exact hcontinue (hword heq)
  case h_13 => cases h

end

theorem readBody_sound (depth : Nat) : BodyReader.Sound (readBody depth) := by
  induction depth with
  | zero =>
    intro kinds stops lines steps stop? rest hplaced h
    cases lines with
    | nil =>
      cases h
      exact ⟨by simp, .ended hplaced⟩
    | cons line lines => cases h
  | succ depth ih =>
    intro kinds stops lines steps stop? rest hplaced h
    cases lines with
    | nil =>
      cases h
      exact ⟨by simp, .ended hplaced⟩
    | cons line lines =>
      rw [readBody] at h
      split at h
      · rename_i hstop
        cases h
        exact ⟨by simp, .stopped hstop hplaced.2.2⟩
      · obtain ⟨⟨step, rest'⟩, hstep, h⟩ := Option.bind_eq_some_iff.mp h
        obtain ⟨⟨steps', _, _⟩, hmore, h⟩ := Option.bind_eq_some_iff.mp h
        cases h
        obtain ⟨hguarded, hrest⟩ := readStep_sound ih hplaced hstep
        obtain ⟨hsteps, hresumes⟩ := ih hrest hmore
        exact ⟨List.forall_mem_cons.mpr ⟨hguarded, hsteps⟩, hresumes⟩

end Script

/-! ## Templates -/

section

variable {options : Options} {name source code : Text}

theorem exists_placed_of_compile (h : compile Dialect.standard options name source = .ok code) :
    ∃ lines, Script.lines? code = some lines ∧ Placed [] (lines.map Line.word) [] := by
  obtain ⟨p, hfold, hframes, rfl⟩ := compile_eq_ok h
  obtain ⟨stack, lines, hp⟩ := nested_empty.segments hfold
  have hempty : Follows stack [] := hframes ▸ hp.frames
  cases hempty
  cases hp.words with
  | top hbody => exact ⟨lines, hp.output.lines?, hbody.placed⟩

theorem guarded_of_compile {steps : List Step}
    (h : compile Dialect.standard options name source = .ok code) (hparse : parse code = some steps) :
    ∀ step ∈ steps, Guarded [] step := by
  obtain ⟨lines, hlines, hplaced⟩ := exists_placed_of_compile h
  obtain ⟨lines', hlines', hparse⟩ := Option.bind_eq_some_iff.mp hparse
  cases hlines.symm.trans hlines'
  obtain ⟨⟨_, _, _⟩, hread, hsteps⟩ := Option.bind_eq_some_iff.mp hparse
  cases hsteps
  exact (readBody_sound _ hplaced hread).1

/--
A finished run of the script of a template comes to its end, unless it stops in what a loop with
nothing to go through runs instead of its body. The run came to that loop, which lies in the body of
no loop, nor in a switch if it is to be left.
-/
theorem flow_of_compile {steps : List Step} {fuel : Nat} {bindings : Variables} {flow : Flow}
    {s : State} (hcompile : compile Dialect.standard options name source = .ok code)
    (hparse : parse code = some steps)
    (hrun : runSteps fuel steps { bindings } = .done (flow, s)) :
    flow = .normal ∧ render fuel code bindings = .done s.output ∨
      flow ≠ .normal ∧ ∃ step ∈ steps, ∃ loop part before left,
        step.Exposes flow loop ∧ Comes loop before left fuel steps { bindings } ∧
        loop.else? = some part ∧ runStep (runSteps left) left loop before = .done (flow, s) ∧
        runSteps left part before = .done (flow, s) := by
  by_cases hflow : flow = .normal
  · subst hflow
    refine .inl ⟨rfl, ?_⟩
    simp only [render, hparse, Outcome.ofOption, bind, Outcome.bind, hrun]
    rfl
  · refine .inr ⟨hflow, ?_⟩
    cases left_of_runSteps hflow hrun with
    | exit hstep hexposes hexit =>
      cases guarded_of_compile hcompile hparse _ hstep flow _ hflow hexposes hexit
    | otherwise hstep hexposes hcomes hpart hloop hrun =>
      exact ⟨_, hstep, _, _, _, _, hexposes, hcomes, hpart, hloop, hrun⟩

end

/-- The template compiles, and a run of its script finishes in the flow. -/
def finishes (flow : Flow) (fuel : Nat) (source : Text) (bindings : Variables) : Bool :=
  match compile Dialect.standard ⟨0⟩ ['t'] source with
  | .error _ => false
  | .ok code =>
    match parse code with
    | none => false
    | some steps =>
      match runSteps fuel steps { bindings } with
      | .done (ending, _) => ending = flow
      | .stuck | .exhausted => false

theorem exists_of_finishes {flow : Flow} {fuel : Nat} {source : Text} {bindings : Variables}
    (h : finishes flow fuel source bindings = true) :
    ∃ code steps s, compile Dialect.standard ⟨0⟩ ['t'] source = .ok code ∧
      parse code = some steps ∧ runSteps fuel steps { bindings } = .done (flow, s) := by
  unfold finishes at h
  split at h
  · cases h
  · rename_i code hcode
    split at h
    · cases h
    · rename_i steps hsteps
      split at h
      · rename_i ending s hrun
        cases of_decide_eq_true h
        exact ⟨code, steps, s, hcode, hsteps, hrun⟩
      · cases h
      · cases h

/-- A way out of a loop in a switch, and one of the switch itself. -/
def deepContinue : Text :=
  ("\x7bforeach $l as $v\x7d\x7bswitch $v\x7d\x7bcase 'a'\x7d\x7bcontinue\x7d\x7bdefault\x7d" ++
    "\x7bbreak\x7d\x7b/switch\x7d\x7b$v\x7d\x7bforeachelse\x7dnone\x7b/foreach\x7d").toList

theorem flow_of_compile_deepContinue :
    ∃ code steps s, compile Dialect.standard ⟨0⟩ ['t'] deepContinue = .ok code ∧
      parse code = some steps ∧
      runSteps 9 steps { bindings := ⟨[(['l'], .list [.string "a", .string "b"])]⟩ } =
        .done (.normal, s) ∧
      render 9 code ⟨[(['l'], .list [.string "a", .string "b"])]⟩ = .done s.output := by
  have hfinishes :
      finishes .normal 9 deepContinue ⟨[(['l'], .list [.string "a", .string "b"])]⟩ = true := by
    decide +kernel
  obtain ⟨code, steps, s, hcode, hsteps, hrun⟩ := exists_of_finishes hfinishes
  rcases flow_of_compile hcode hsteps hrun with ⟨-, hrender⟩ | ⟨hne, -⟩
  · exact ⟨code, steps, s, hcode, hsteps, hrun, hrender⟩
  · exact absurd rfl hne

/-- A way out in what a loop with nothing to go through runs instead of its body. -/
def elseBreak : Text :=
  "\x7bforeach $list as $v\x7d\x7b$v\x7d\x7bforeachelse\x7dnone\x7bbreak\x7d\x7b/foreach\x7d".toList

theorem flow_broken_elseBreak :
    ∃ code steps s, compile Dialect.standard ⟨0⟩ ['t'] elseBreak = .ok code ∧
      parse code = some steps ∧
      runSteps 9 steps { bindings := ⟨[("list".toList, .list [])]⟩ } = .done (.broken, s) := by
  have hfinishes : finishes .broken 9 elseBreak ⟨[("list".toList, .list [])]⟩ = true := by
    decide +kernel
  exact exists_of_finishes hfinishes

end Stencil
