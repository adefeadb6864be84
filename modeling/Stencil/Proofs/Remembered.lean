import Stencil.Proofs.Operations

/-!
# Artifacts that are remembered

An engine that neither checks its sources nor compiles at every request answers with the artifact it
has handed out before, whatever has become of the source and of the record since then.
-/

namespace Stencil

/-- The operation neither replaces nor drops what is kept of a template. -/
def Operation.Spares (name : Text) : Operation → Prop
  | .setDialect _ => False
  | .setOptions _ => False
  | .work (.evict other) => other ≠ name
  | .add artifact => artifact.name ≠ name
  | _ => True

structure Engine.Remembers (e : Engine) (name : Text) (shared : Shared) : Prop where
  cached : e.cache.get? name = some shared
  unchecked : e.options.has .checkSources = false

variable {name : Text} {shared : Shared}

/-! ## Answers from the cache -/

theorem Session.resolve_of_remembers {s : Session} (h : s.engine.Remembers name shared) :
    Session.resolve name s = .ok shared s := by
  have husable : Session.isUsable shared.artifact s = .ok true s := by
    rw [isUsable, run_bind_of_ok (run_get s), if_neg (by simp [h.unchecked])]
    rfl
  rw [resolve, run_bind_of_ok (run_get s), h.cached]
  exact run_bind_of_ok husable

theorem Session.Answers.remembers {e : Engine} {host : Host} {s : Session}
    (h : Answers e host name shared s) (horder : e.InOrder)
    (hcheck : e.options.has .checkSources = false)
    (halways : e.options.has .alwaysCompile = false) : s.engine.Remembers name shared := by
  obtain ⟨e', hhands, hleaves⟩ := h.hands
  have hcache : e.cache ≠ .idle := fun hidle => by
    rw [horder.idle_iff, halways] at hidle
    cases hidle
  rw [hleaves.engine]
  exact ⟨hhands.cached hcache halways, by rw [hhands.options_eq, hcheck]⟩

/-! ## Steps -/

theorem Session.Recached.remembers {e e' : Engine} {host : Host} {other : Text}
    (h : Recached e host other e') (hother : name ≠ other) (hkept : e.Remembers name shared) :
    e'.Remembers name shared := by
  obtain ⟨cache, rfl⟩ := h.settings
  exact ⟨(h.get?_of_ne hother).trans hkept.cached, hkept.unchecked⟩

theorem Job.engine_compile (other : Text) (persist : Bool) (s : Session) :
    (Job.run (.compile other persist) s).engine = s.engine := by
  refine of_ensures (R := fun s' => s'.engine = s.engine) (Session.at_self s)
    (Session.ensures_compile other persist) ?_ ?_
  · exact fun _ _ h => h.1.engine
  · exact fun _ h => h.engine

theorem Job.remembers_run (job : Job) {s : Session} (hspares : (Operation.work job).Spares name)
    (h : s.engine.Remembers name shared) : (job.run s).engine.Remembers name shared := by
  obtain ⟨e', hcache, hleaves⟩ := job.leaves_run s.engine s.host
  cases job with
  | resolve other =>
    by_cases hother : name = other
    -- The template itself is answered from the cache, and nothing changes.
    · subst hother
      simp only [run, after, Session.resolve_of_remembers h]
      exact h
    · rw [hleaves.engine]
      exact hcache.remembers hother h
  | compile other persist =>
    rw [Job.engine_compile]
    exact h
  | evict other =>
    rw [hleaves.engine]
    exact hcache.remembers (Ne.symm hspares) h

theorem Operation.remembers_run (o : Operation) {s : Session} (hspares : o.Spares name)
    (h : s.engine.Remembers name shared) : (o.run s).engine.Remembers name shared := by
  cases o with
  | setDialect => exact hspares.elim
  | setOptions => exact hspares.elim
  | addScheme => exact ⟨h.cached, h.unchecked⟩
  | addBefore => exact ⟨h.cached, h.unchecked⟩
  | addAfter => exact ⟨h.cached, h.unchecked⟩
  | work job => exact job.remembers_run hspares h
  | compileText => exact h
  | add artifact =>
    have hother : name ≠ artifact.name := Ne.symm hspares
    exact ⟨(Cache.get?_insert_of_ne _ hother).trans h.cached, h.unchecked⟩
  | evictAll => exact h

theorem Session.remembers_of_run {s s' : Session} (h : s.engine.Remembers name shared)
    (hrun : Relation.ReflTransGen (Step (Operation.Spares name)) s s') :
    s'.engine.Remembers name shared := by
  induction hrun with
  | refl => exact h
  | tail _ hstep ih =>
    cases hstep with
    | operate o hspares => exact o.remembers_run hspares ih
    | change => exact ih

/-! ## Requests that are answered from memory -/

/--
Once a request has succeeded, every later one gives the very same artifact and changes nothing, as
long as the options and the dialect stay and the template is neither evicted nor put into the cache.
The answer would be the same with other sources, another archive and another host: none of them is
consulted.
-/
theorem resolve_remembered {s₀ s₁ s₂ s₃ : Session} (hstart : s₀.engine.Starts)
    (hreached : Relation.ReflTransGen (Session.Step fun _ => True) s₀ s₁)
    (hcheck : s₁.engine.options.has .checkSources = false)
    (halways : s₁.engine.options.has .alwaysCompile = false)
    (hfirst : Session.resolve name s₁ = .ok shared s₂)
    (hrun : Relation.ReflTransGen (Session.Step (Operation.Spares name)) s₂ s₃) :
    Session.resolve name s₃ = .ok shared s₃ ∧
      ∀ source schemes archive host,
        let e : Engine := { s₃.engine with source, schemes, archive }
        Session.resolve name ⟨e, host⟩ = .ok shared ⟨e, host⟩ := by
  have horder := Session.inOrder_of_run hstart.inOrder hreached
  have hanswer := (Session.ensures_resolve name).of_ok (Session.at_self s₁) hfirst
  have hkept := Session.remembers_of_run (hanswer.remembers horder hcheck halways) hrun
  refine ⟨Session.resolve_of_remembers hkept, fun source schemes archive host => ?_⟩
  exact Session.resolve_of_remembers ⟨hkept.cached, hkept.unchecked⟩

/-! All sources and records are lost, and another template is put into the cache and evicted. -/

namespace Forgetting

open Rebinding

def bare : Host := ⟨{ clock := 5 }, {}, 9⟩

def lost (s : Session) : Session := { s with host := bare }

def filled (s : Session) : Session := (Operation.add foreign).run (lost s)

def cleared (s : Session) : Session := (Operation.work (.evict page)).run (filled s)

theorem run_cleared (s : Session) :
    Relation.ReflTransGen (Session.Step (Operation.Spares ['t'])) s (cleared s) := by
  have hlost : Session.Step (Operation.Spares ['t']) s (lost s) := .change s bare
  have hfilled : Session.Step (Operation.Spares ['t']) (lost s) (filled s) :=
    .operate _ _ (by simp [Operation.Spares, foreign, page])
  have hcleared : Session.Step (Operation.Spares ['t']) (filled s) (cleared s) :=
    .operate _ _ (by simp [Operation.Spares, page])
  exact .tail (.tail (.tail .refl hlost) hfilled) hcleared

end Forgetting

open Rebinding Forgetting in
theorem resolve_remembered_cleared :
    ∃ shared s, Session.resolve ['t'] fresh = .ok shared s ∧
      Joining.succeeds (Session.compile ['t'] false (cleared s)) = false ∧
      Session.resolve ['t'] (cleared s) = .ok shared (cleared s) := by
  have hdone : Joining.succeeds (Session.resolve ['t'] fresh) = true := by decide +kernel
  have hlost : Joining.succeeds (Session.compile ['t'] false (cleared resolved)) = false := by
    decide +kernel
  cases hresolve : Session.resolve ['t'] fresh with
  | ok shared s =>
    have hs : resolved = s := by simp [resolved, Operation.run, Job.run, Job.after, hresolve]
    refine ⟨shared, s, rfl, hs ▸ hlost, ?_⟩
    exact (resolve_remembered (.plain _ _) .refl rfl rfl hresolve (run_cleared s)).1
  | error cause s => simp [hresolve, Joining.succeeds] at hdone

end Stencil
