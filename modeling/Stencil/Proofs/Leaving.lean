import Stencil.Script.Run

/-!
# Runs that end early

A run ends early if it comes to a way out that no loop or switch takes up. A loop takes up what its
body ends in, but not what runs instead of the body when there is nothing to go through.
-/

namespace Stencil

open Script

/-! ## Ways out -/

namespace Step

/-- The flow that the step by itself ends in. -/
def exit : Step → Flow
  | .breakLoop => .broken
  | .continueLoop => .continued
  | _ => .normal

/-- What runs instead of the body of a loop. -/
def else? : Step → Option (List Step)
  | .foreach _ _ _ _ otherwise | .forRange _ _ _ _ _ otherwise => some otherwise
  | _ => none

/-- The inner step stands in the outer one, and nothing between them takes up the flow. -/
inductive Exposes (flow : Flow) : Step → Step → Prop
  | refl {step : Step} : Exposes flow step step
  | branch {arms : List Arm} {condition : Option Form} {body : List Step} {step inner : Step}
      (harm : .mk condition body ∈ arms) (hstep : step ∈ body) (h : Exposes flow step inner) :
      Exposes flow (.branch arms) inner
  | switch {subject : Form} {body : List Step} {step inner : Step} (hflow : flow = .continued)
      (hstep : step ∈ body) (h : Exposes flow step inner) : Exposes flow (.switch subject body) inner

end Step

namespace Script

/-- The arm that is taken in the state. -/
inductive Takes (s : State) : List Arm → List Step → Prop
  | otherwise {body : List Step} {more : List Arm} : Takes s (.mk none body :: more) body
  | holds {condition : Form} {value : Value} {body : List Step} {more : List Arm}
      (h : s.eval condition = .done value) (htrue : value.isTrue = true) :
      Takes s (.mk (some condition) body :: more) body
  | fails {condition : Form} {value : Value} {first body : List Step} {more : List Arm}
      (h : s.eval condition = .done value) (hfalse : value.isTrue = false)
      (hmore : Takes s more body) : Takes s (.mk (some condition) first :: more) body

/--
A run of steps comes to a step: the one that is to be run next, or one behind it, in the arm that it
takes or in the part of a switch that it goes to. What is inside loops is left out.
-/
inductive Comes (inner : Step) (before : State) (left : Nat) : Nat → List Step → State → Prop
  | here {more : List Step} : Comes inner before left (left + 1) (inner :: more) before
  | behind {fuel : Nat} {step : Step} {more : List Step} {s s₁ : State}
      (h : runStep (runSteps fuel) fuel step s = .done (.normal, s₁))
      (hmore : Comes inner before left fuel more s₁) :
      Comes inner before left (fuel + 1) (step :: more) s
  | branch {fuel : Nat} {arms : List Arm} {body more : List Step} {s : State}
      (harm : Takes s arms body) (h : Comes inner before left fuel body s) :
      Comes inner before left (fuel + 1) (.branch arms :: more) s
  | switch {fuel : Nat} {subject : Form} {value : Value} {found : Option (List Step)}
      {body part more : List Step} {s : State} (hsubject : s.eval subject = .done value)
      (hfound : findCase s value body = .done found)
      (hpart : found.or (findDefault body) = some part) (h : Comes inner before left fuel part s) :
      Comes inner before left (fuel + 1) (.switch subject body :: more) s

/--
A run of the steps from `s` ended early in `s'`: by a way out in them, or by what ran instead of the
body of a loop that the run came to.
-/
inductive Left (flow : Flow) (s' : State) (fuel : Nat) (steps : List Step) (s : State) : Prop
  | exit {step inner : Step} (hstep : step ∈ steps) (h : step.Exposes flow inner)
      (hexit : inner.exit = flow)
  | otherwise {step loop : Step} {part : List Step} {left : Nat} {before : State}
      (hstep : step ∈ steps) (h : step.Exposes flow loop)
      (hcomes : Comes loop before left fuel steps s) (hpart : loop.else? = some part)
      (hloop : runStep (runSteps left) left loop before = .done (flow, s'))
      (hrun : runSteps left part before = .done (flow, s'))

variable {flow : Flow} {s s' s₁ : State} {fuel fuel' : Nat} {steps body : List Step}

theorem Left.lift (h : Left flow s' fuel body s₁)
    (hlift : ∀ step ∈ body, ∀ inner, step.Exposes flow inner →
      ∃ outer ∈ steps, outer.Exposes flow inner)
    (hcomes : ∀ inner before left, Comes inner before left fuel body s₁ →
      Comes inner before left fuel' steps s) : Left flow s' fuel' steps s := by
  cases h with
  | exit hstep h hexit =>
    obtain ⟨_, houter, h⟩ := hlift _ hstep _ h
    exact .exit houter h hexit
  | otherwise hstep h hloop hpart hdone hrun =>
    obtain ⟨_, houter, h⟩ := hlift _ hstep _ h
    exact .otherwise houter h (hcomes _ _ _ hloop) hpart hdone hrun

/-! ## Runs -/

theorem Outcome.bind_eq_done {α β : Type} {o : Outcome α} {f : α → Outcome β} {b : β}
    (h : (o >>= f) = .done b) : ∃ a, o = .done a ∧ f a = .done b := by
  cases o with
  | done a => exact ⟨a, rfl, h⟩
  | stuck => cases h
  | exhausted => cases h

variable {run : Runner}

theorem Takes.mem {arms : List Arm} (h : Takes s arms body) :
    ∃ condition, .mk condition body ∈ arms := by
  induction h with
  | otherwise => exact ⟨none, List.mem_cons_self⟩
  | holds => exact ⟨_, List.mem_cons_self⟩
  | fails _ _ _ ih =>
    obtain ⟨condition, hmem⟩ := ih
    exact ⟨condition, List.mem_cons_of_mem _ hmem⟩

theorem exists_of_runArms {arms : List Arm} (h : runArms run s arms = .done (flow, s')) :
    flow = .normal ∨ ∃ body, Takes s arms body ∧ run body s = .done (flow, s') := by
  induction arms with
  | nil =>
    cases h
    exact .inl rfl
  | cons arm more ih =>
    obtain ⟨_ | condition, body⟩ := arm
    · exact .inr ⟨body, .otherwise, h⟩
    · obtain ⟨value, hvalue, h⟩ := Outcome.bind_eq_done h
      split at h
      · rename_i htrue
        exact .inr ⟨body, .holds hvalue htrue, h⟩
      · rename_i hfalse
        refine (ih h).imp_right ?_
        rintro ⟨body', harm, hbody⟩
        exact ⟨body', .fails hvalue (Bool.of_not_eq_true hfalse) harm, hbody⟩

theorem subset_of_findCase {subject : Value} {found : List Step}
    (h : findCase s subject body = .done (some found)) : found ⊆ body := by
  induction body with
  | nil => cases h
  | cons step more ih =>
    have hmore (h : findCase s subject more = .done (some found)) : found ⊆ step :: more :=
      List.subset_cons_of_subset _ (ih h)
    cases step with
    | case value =>
      obtain ⟨_, -, h⟩ := Outcome.bind_eq_done h
      split at h
      · cases h
        exact List.Subset.refl _
      · exact hmore h
    | _ => exact hmore h

theorem subset_of_findDefault {found : List Step} (h : findDefault body = some found) :
    found ⊆ body := by
  induction body with
  | nil => cases h
  | cons step more ih =>
    cases step with
    | default =>
      cases h
      exact List.Subset.refl _
    | _ => exact List.subset_cons_of_subset _ (ih h)

theorem subset_of_or {subject : Value} {found : Option (List Step)}
    (hfound : findCase s subject body = .done found)
    (h : found.or (findDefault body) = some steps) : steps ⊆ body := by
  cases found with
  | some first =>
    cases h
    exact subset_of_findCase hfound
  | none => exact subset_of_findDefault h

theorem left_of_runStep {step : Step} {more : List Step} (hflow : flow ≠ .normal)
    (ih : ∀ steps s, runSteps fuel steps s = .done (flow, s') → Left flow s' fuel steps s)
    (h : runStep (runSteps fuel) fuel step s = .done (flow, s')) :
    Left flow s' (fuel + 1) (step :: more) s := by
  -- What the body of a loop ends in is not passed on, so such a loop ends normally.
  have hnormal {o : Outcome State} (h : (do return (Flow.normal, ← o)) = .done (flow, s')) :
      Left flow s' (fuel + 1) (step :: more) s := by
    obtain ⟨_, -, h⟩ := Outcome.bind_eq_done h
    cases h
    exact absurd rfl hflow
  cases step with
  | text | case | default =>
    cases h
    exact absurd rfl hflow
  | echo value =>
    obtain ⟨_, -, h⟩ := Outcome.bind_eq_done h
    cases h
    exact absurd rfl hflow
  | set target value =>
    obtain ⟨_, -, h⟩ := Outcome.bind_eq_done h
    exact hnormal h
  | whileLoop => exact hnormal h
  | breakLoop | continueLoop =>
    cases h
    exact .exit List.mem_cons_self .refl rfl
  | branch arms =>
    rcases exists_of_runArms h with hnone | ⟨body, harm, hbody⟩
    · exact absurd hnone hflow
    · obtain ⟨condition, hmem⟩ := harm.mem
      refine (ih body s hbody).lift (fun _ hstep _ h => ?_) fun _ _ _ h => .branch harm h
      exact ⟨_, List.mem_cons_self, .branch hmem hstep h⟩
  | foreach list key value body otherwise =>
    obtain ⟨_, -, hrun⟩ := Outcome.bind_eq_done h
    split at hrun
    · exact .otherwise List.mem_cons_self .refl .here rfl h hrun
    · exact hnormal hrun
  | forRange name first last step body otherwise =>
    obtain ⟨_, -, hrun⟩ := Outcome.bind_eq_done h
    obtain ⟨_, -, hrun⟩ := Outcome.bind_eq_done hrun
    obtain ⟨_, -, hrun⟩ := Outcome.bind_eq_done hrun
    split at hrun
    · exact hnormal hrun
    · exact .otherwise List.mem_cons_self .refl .here rfl h hrun
  | switch subject body =>
    obtain ⟨value, hsubject, h⟩ := Outcome.bind_eq_done h
    obtain ⟨found, hfound, h⟩ := Outcome.bind_eq_done h
    split at h
    · rename_i steps hsteps
      obtain ⟨⟨flow', _⟩, hrun, h⟩ := Outcome.bind_eq_done h
      cases flow' with
      | continued =>
        cases h
        have hsub := subset_of_or hfound hsteps
        refine (ih steps _ hrun).lift (fun _ hstep _ h => ?_)
          fun _ _ _ h => .switch hsubject hfound hsteps h
        exact ⟨_, List.mem_cons_self, .switch rfl (hsub hstep) h⟩
      | normal | broken =>
        cases h
        exact absurd rfl hflow
    · cases h
      exact absurd rfl hflow

/-- A run that ends early does so by a way out, or by what runs instead of the body of a loop. -/
theorem left_of_runSteps (hflow : flow ≠ .normal)
    (h : runSteps fuel steps s = .done (flow, s')) : Left flow s' fuel steps s := by
  induction fuel generalizing steps s with
  | zero => cases h
  | succ fuel ih =>
    cases steps with
    | nil =>
      cases h
      exact absurd rfl hflow
    | cons step more =>
      obtain ⟨⟨flow', s₁⟩, hstep, h⟩ := Outcome.bind_eq_done h
      by_cases hnormal : flow' = .normal
      · subst hnormal
        refine (ih h).lift (fun inner hmem _ h => ?_) fun _ _ _ h => .behind hstep h
        exact ⟨inner, List.mem_cons_of_mem _ hmem, h⟩
      · dsimp only at h
        rw [if_neg hnormal] at h
        cases h
        exact left_of_runStep hflow (fun _ _ => ih) hstep

end Script

end Stencil
