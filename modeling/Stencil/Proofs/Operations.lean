import Mathlib.Logic.Relation
import Stencil.Engine.Configured
import Stencil.Proofs.Runs

/-!
# Operations on an engine

All that can be done with an engine, one operation after the other, while others change the host. An
engine stays in order: its cache suits its options, and what it keeps or hands out belongs to its
present dialect.
-/

namespace Stencil

inductive Operation where
  | setDialect (dialect : Dialect)
  | setOptions (options : Options)
  | addScheme (scheme : Text) (source : Source)
  | addBefore (change : Text → Text)
  | addAfter (change : Text → Text)
  | work (job : Job)
  | compileText (name source : Text)
  | add (artifact : Artifact)
  | evictAll

/-- The session after an operation, whether or not it failed. -/
def Operation.run (o : Operation) (s : Session) : Session :=
  match o with
  | .setDialect dialect => { s with engine := s.engine.setDialect dialect }
  | .setOptions options => { s with engine := s.engine.setOptions options }
  | .addScheme scheme source => { s with engine := s.engine.addScheme scheme source }
  | .addBefore change => { s with engine := s.engine.addBefore change }
  | .addAfter change => { s with engine := s.engine.addAfter change }
  | .work job => job.run s
  | .compileText _ _ => s
  | .add artifact => Job.after (Session.add artifact) s
  | .evictAll => Job.after Session.evictAll s

/-- One of the operations that are allowed, or a change of templates and files by others. -/
inductive Session.Step (allowed : Operation → Prop) : Session → Session → Prop
  | operate (s : Session) (o : Operation) (h : allowed o) : Step allowed s (o.run s)
  | change (s : Session) (host : Host) : Step allowed s { s with host }

inductive Engine.Starts : Engine → Prop
  | plain (archive : Archive) (source : Source) : Starts { archive, source }
  | configured {c : Config} {e : Engine} (h : Engine.ofConfig c = .ok e) : Starts e

/-! ## Engines in order -/

structure Engine.InOrder (e : Engine) : Prop where
  idle_iff : e.cache = .idle ↔ e.options.has .alwaysCompile = true
  named : ∀ {name shared}, e.cache.get? name = some shared → shared.artifact.name = name
  bound : ∀ {name shared}, e.cache.get? name = some shared →
    shared.artifact.dialect? = some e.dialect

namespace Engine

variable {e : Engine}

theorem inOrder_setOptions (e : Engine) (options : Options) : (e.setOptions options).InOrder := by
  constructor
  · simp [setOptions]
  all_goals
    intro name shared h
    simp [setOptions, Cache.get?_suited] at h

theorem Starts.inOrder (h : e.Starts) : e.InOrder := by
  cases h with
  | plain archive source => exact inOrder_setOptions { archive, source } Options.empty
  | @configured c _ h =>
    unfold ofConfig at h
    cases hmask : c.mask with
    | error unknown => simp [hmask, bind, Except.bind] at h
    | ok mask =>
      simp only [hmask, bind, Except.bind, pure, Except.pure, Except.ok.injEq] at h
      rw [← h]
      exact inOrder_setOptions _ mask

theorem InOrder.setDialect (h : e.InOrder) (dialect : Dialect) : (e.setDialect dialect).InOrder := by
  constructor
  · simp [Engine.setDialect, h.idle_iff]
  all_goals
    intro name shared hfound
    simp [Engine.setDialect] at hfound

theorem InOrder.insert (h : e.InOrder) (shared : Shared)
    (hbound : shared.artifact.dialect? = some e.dialect) :
    { e with cache := e.cache.insert shared }.InOrder := by
  constructor
  · simp [h.idle_iff]
  all_goals
    intro name other hfound
    rcases Cache.get?_of_insert hfound with ⟨rfl, rfl⟩ | hold
  · rfl
  · exact h.named hold
  · exact hbound
  · exact h.bound hold

theorem InOrder.remove (h : e.InOrder) (name : Text) :
    { e with cache := e.cache.remove name }.InOrder := by
  constructor
  · simp [h.idle_iff]
  all_goals
    intro other shared hfound
    have hold := Cache.get?_of_remove hfound
  · exact h.named hold
  · exact h.bound hold

end Engine

/-! ## What is handed out -/

namespace Session

variable {e : Engine} {host : Host} {name : Text}

theorem at_self (s : Session) : At s.engine s.host s := ⟨rfl, rfl, fun _ => rfl⟩

theorem Origin.bound (h : e.InOrder) {a : Artifact} (ha : Origin e host name a) :
    a.dialect? = some e.dialect := by
  cases ha with
  | cached hcached => exact h.bound hcached
  | recorded => rfl
  | made hmade => exact hmade.dialect_eq

theorem Origin.named (h : e.InOrder) {a : Artifact} (ha : Origin e host name a) : a.name = name := by
  cases ha with
  | cached hcached => exact h.named hcached
  | recorded => rfl
  | made hmade => exact hmade.name_eq

theorem Recached.inOrder {e' : Engine} (hcache : Recached e host name e') (h : e.InOrder) :
    e'.InOrder := by
  cases hcache with
  | same => exact h
  | kept horigin => exact h.insert _ (horigin.bound h)
  | dropped => exact h.remove name

end Session

/-! ## Steps -/

namespace Operation

theorem inOrder_run (o : Operation) {s : Session} (h : s.engine.InOrder) :
    (o.run s).engine.InOrder := by
  cases o with
  | setDialect dialect => exact h.setDialect dialect
  | setOptions options => exact Engine.inOrder_setOptions s.engine options
  | addScheme => exact ⟨h.idle_iff, h.named, h.bound⟩
  | addBefore => exact ⟨h.idle_iff, h.named, h.bound⟩
  | addAfter => exact ⟨h.idle_iff, h.named, h.bound⟩
  | work job =>
    obtain ⟨e', hcache, hleaves⟩ := job.leaves_run s.engine s.host
    rw [run, hleaves.engine]
    exact hcache.inOrder h
  | compileText => exact h
  | add artifact => exact h.insert ⟨s.host.shared, artifact.bind s.engine.dialect⟩ rfl
  | evictAll => exact h

end Operation

theorem Session.Step.inOrder {allowed : Operation → Prop} {s s' : Session}
    (hstep : Step allowed s s') (h : s.engine.InOrder) : s'.engine.InOrder := by
  cases hstep with
  | operate o => exact o.inOrder_run h
  | change => exact h

theorem Session.inOrder_of_run {allowed : Operation → Prop} {s s' : Session}
    (h : s.engine.InOrder) (hrun : Relation.ReflTransGen (Step allowed) s s') :
    s'.engine.InOrder := by
  induction hrun with
  | refl => exact h
  | tail _ hstep ih => exact hstep.inOrder ih

/-! ## Artifacts and the present dialect -/

/--
However an engine has been used, and whatever was put into its cache: the cache is idle just if the
engine compiles at every request, it holds artifacts under their own names, and these are bound to
the engine's present dialect, as are all artifacts that the engine hands out.
-/
theorem artifacts_bound {s₀ s : Session} (hstart : s₀.engine.Starts)
    (hrun : Relation.ReflTransGen (Session.Step fun _ => True) s₀ s) :
    (s.engine.cache = .idle ↔ s.engine.options.has .alwaysCompile = true) ∧
    (∀ name shared, s.engine.cache.get? name = some shared →
      shared.artifact.name = name ∧ shared.artifact.dialect? = some s.engine.dialect) ∧
    (∀ name shared s', Session.resolve name s = .ok shared s' →
      shared.artifact.name = name ∧ shared.artifact.dialect? = some s.engine.dialect) ∧
    (∀ name persist a s', Session.compile name persist s = .ok a s' →
      a.dialect? = some s.engine.dialect) ∧
    (∀ name source a, s.engine.compileText name source = .ok a →
      a.dialect? = some s.engine.dialect) ∧
    ∀ a, ∃ shared s', Session.add a s = .ok shared s' ∧
      shared.artifact.dialect? = some s.engine.dialect := by
  have h := Session.inOrder_of_run hstart.inOrder hrun
  have hat := Session.at_self s
  refine ⟨h.idle_iff, fun name shared hfound => ⟨h.named hfound, h.bound hfound⟩, ?_, ?_, ?_, ?_⟩
  · intro name shared s' hresolve
    have horigin := ((Session.ensures_resolve name).of_ok hat hresolve).origin
    exact ⟨horigin.named h, horigin.bound h⟩
  · intro name persist a s' hcompile
    exact ((Session.ensures_compile name persist).of_ok hat hcompile).2.dialect_eq
  · intro name source a ha
    unfold Engine.compileText at ha
    split at ha
    · cases ha
      rfl
    · cases ha
  · intro a
    exact ⟨_, _, rfl, rfl⟩

/-! An artifact of another dialect is put into the cache of an engine that got a new one. -/

namespace Rebinding

def page : Text := ['p']

def foreign : Artifact := { name := page, code := [], options := ⟨7⟩, dialect? := some .standard }

def fresh : Session :=
  ⟨{ archive := { directory := ['d'] }, source := .memory ['m'] },
    Host.edit ⟨{ clock := 5 }, {}, 0⟩ ['m'] ['t'] ⟨['x'], 3⟩⟩

def resolved : Session := (Operation.work (.resolve ['t'])).run fresh

def emptied : Session := (Operation.setDialect .empty).run resolved

def injected : Session := (Operation.add foreign).run emptied

theorem run_injected : Relation.ReflTransGen (Session.Step fun _ => True) fresh injected := by
  have hresolved : Session.Step (fun _ => True) fresh resolved := .operate _ _ trivial
  have hemptied : Session.Step (fun _ => True) resolved emptied := .operate _ _ trivial
  have hinjected : Session.Step (fun _ => True) emptied injected := .operate _ _ trivial
  exact .tail (.tail (.tail .refl hresolved) hemptied) hinjected

end Rebinding

open Rebinding in
theorem artifacts_bound_injected :
    (resolved.engine.cache.get? ['t']).isSome = true ∧
      (injected.engine.cache.get? ['t']).isNone = true ∧ foreign.dialect? = some .standard ∧
      ∃ shared s, Session.resolve page injected = .ok shared s ∧
        shared.artifact.name = page ∧ shared.artifact.dialect? = some .empty := by
  have hdone : Joining.succeeds (Session.resolve page injected) = true := by decide +kernel
  refine ⟨by decide +kernel, by decide +kernel, rfl, ?_⟩
  cases hresolve : Session.resolve page injected with
  | ok shared s =>
    obtain ⟨-, -, hanswer, -⟩ := artifacts_bound (.plain _ _) run_injected
    exact ⟨shared, s, rfl, hanswer page shared s hresolve⟩
  | error cause s => simp [hresolve, Joining.succeeds] at hdone

end Stencil
