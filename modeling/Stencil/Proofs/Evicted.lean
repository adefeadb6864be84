import Stencil.Proofs.Operations
import Stencil.Proofs.Removal

/-!
# Templates apart from each other

What is done with one template touches neither what is cached for another nor any file but its own
record. A template that has been evicted is gone from the cache and from the archive, so that the
next request for it compiles its source anew.
-/

namespace Stencil

def Operation.IsOn (name : Text) : Operation → Prop
  | .work job => job.name = name
  | .add artifact => artifact.name = name
  | _ => False

/-! ## Other templates -/

theorem Operation.get?_run {o : Operation} {name other : Text} (h : o.IsOn name)
    (hother : other ≠ name) (s : Session) :
    (o.run s).engine.cache.get? other = s.engine.cache.get? other := by
  cases o with
  | work job =>
    obtain ⟨e', hcache, hleaves⟩ := job.leaves_run s.engine s.host
    cases h
    rw [run, hleaves.engine]
    exact hcache.get?_of_ne hother
  | add artifact =>
    cases h
    exact Cache.get?_insert_of_ne _ hother
  | _ => exact h.elim

theorem Operation.file?_run {o : Operation} {name : Text} {place : Place} {s : Session}
    (h : o.IsOn name) (hplace : place ≠ Disk.placeOf (s.engine.recordPath name)) :
    (o.run s).host.disk.file? place = s.host.disk.file? place := by
  cases o with
  | work job =>
    obtain ⟨e', hcache, hleaves⟩ := job.leaves_run s.engine s.host
    cases h
    exact hleaves.disk.file?_of_ne hplace
  -- Nothing is written for an artifact that was made elsewhere.
  | add artifact => rfl
  | _ => exact h.elim

/-! ## Eviction -/

namespace Session

variable {name : Text} {s : Session}

/-- The request goes the way of the compilation of the source as it is now. -/
structure ResolvesAnew (name : Text) (s : Session) : Prop where
  error_iff : ∀ cause s', resolve name s = .error cause s' ↔ compile name true s = .error cause s'
  compiled : ∀ shared s', resolve name s = .ok shared s' →
    ∃ s'', compile name true s = .ok shared.artifact s''
  current : ∀ shared s', resolve name s = .ok shared s' →
    ∃ source path text host, s.engine.sourceOf name = .ok (source, path) ∧
      source.load s.host path = .ok (text, host) ∧
      s.engine.script name text = .ok shared.artifact.code

theorem fromRecord?_of_missing
    (h : s.host.disk.locate (s.engine.recordPath name) = .error .missing) :
    fromRecord? name s = .ok none s := by
  have hread : onDisk (Archive.read? (s.engine.recordPath name)) s = .ok none s := by
    simp [onDisk, Archive.read?_of_locate_missing h]
  rw [fromRecord?, run_bind_of_ok (run_get s), run_bind_of_ok hread]
  rfl

theorem load_of_missing (h : s.host.disk.locate (s.engine.recordPath name) = .error .missing) :
    load name s = compile name true s := by
  rw [load, run_bind_of_ok (fromRecord?_of_missing h)]

theorem resolve_of_missing (hcache : s.engine.cache.get? name = none)
    (hrecord : s.host.disk.locate (s.engine.recordPath name) = .error .missing) :
    match compile name true s with
    | .error cause s' => resolve name s = .error cause s'
    | .ok a _ => ∃ shared s', resolve name s = .ok shared s' ∧ shared.artifact = a := by
  have hload := load_of_missing hrecord
  rw [resolve, run_bind_of_ok (run_get s), hcache]
  cases hcompile : compile name true s with
  | error cause s' =>
    rw [hcompile] at hload
    dsimp only
    split
    · exact run_bind_of_error hcompile
    · exact run_bind_of_error hload
  | ok a s' =>
    rw [hcompile] at hload
    dsimp only
    split
    · exact ⟨_, _, run_bind_of_ok hcompile, rfl⟩
    · exact ⟨_, _, run_bind_of_ok hload, rfl⟩

theorem resolvesAnew_of_missing (hcache : s.engine.cache.get? name = none)
    (hrecord : s.host.disk.locate (s.engine.recordPath name) = .error .missing) :
    ResolvesAnew name s := by
  have hresolve := resolve_of_missing hcache hrecord
  cases hcompile : compile name true s with
  | error cause s' =>
    replace hresolve : resolve name s = .error cause s' := by rwa [hcompile] at hresolve
    refine ⟨fun _ _ => by simp [hresolve, hcompile], ?_, ?_⟩
    all_goals
      intro shared s'' hanswer
      rw [hresolve] at hanswer
      cases hanswer
  | ok a s' =>
    rw [hcompile] at hresolve
    obtain ⟨shared, s'', hresolve, rfl⟩ := hresolve
    have hmade := ((ensures_compile name true).of_ok (at_self s) hcompile).2
    refine ⟨fun _ _ => by simp [hresolve, hcompile], ?_, ?_⟩
    all_goals
      intro other t hanswer
      rw [hresolve] at hanswer
      cases hanswer
    · exact ⟨s', hcompile⟩
    · obtain ⟨text, htext, hscript⟩ := hmade.code
      obtain ⟨source, path, host, hsource, hload⟩ := Engine.load_of_sight htext
      exact ⟨source, path, text, host, hsource, hload, hscript⟩

theorem evict_eq (name : Text) (s : Session) :
    evict name s = onDisk (Archive.remove (s.engine.recordPath name))
      { s with engine := { s.engine with cache := s.engine.cache.remove name } } :=
  rfl

theorem of_evict {removed : Bool} {s' : Session} (h : evict name s = .ok removed s') :
    s'.engine = { s.engine with cache := s.engine.cache.remove name } ∧
      Archive.remove (s.engine.recordPath name) s.host.disk = .ok removed s'.host.disk := by
  rw [evict_eq, onDisk] at h
  split at h
  · rename_i hremove
    cases h
    exact ⟨rfl, hremove⟩
  · cases h

theorem recordPath_of_evict {removed : Bool} {s' : Session} (h : evict name s = .ok removed s') :
    s'.engine.recordPath name = s.engine.recordPath name := by
  rw [(of_evict h).1]
  rfl

theorem evict_again {removed : Bool} {s' : Session} (h : evict name s = .ok removed s') :
    evict name s' = .ok false s' := by
  obtain ⟨hengine, hremove⟩ := of_evict h
  obtain ⟨-, -, hagain⟩ := Archive.of_remove hremove
  have hcache : s'.engine.cache.remove name = s'.engine.cache := by simp [hengine]
  rw [evict_eq, hcache, recordPath_of_evict h]
  simp [onDisk, hagain]

end Session

/--
An operation on one template, whether or not it fails, leaves the cached artifacts of all others and
every file but the template's own record as they are; no file is left over. Once a template has been
evicted, it is neither cached nor recorded, and the answer tells if there was a record. To evict it
again does nothing, and the next request compiles its source, whatever the options are.
-/
theorem templates_apart (s : Session) (name : Text) :
    (∀ o : Operation, o.IsOn name →
      (∀ other, other ≠ name →
        (o.run s).engine.cache.get? other = s.engine.cache.get? other) ∧
      ∀ place, place ≠ Disk.placeOf (s.engine.recordPath name) →
        (o.run s).host.disk.file? place = s.host.disk.file? place) ∧
    ∀ removed s', Session.evict name s = .ok removed s' →
      s'.engine.cache.get? name = none ∧
      s'.host.disk.locate (s'.engine.recordPath name) = .error .missing ∧
      removed = s.host.disk.isFile (s.engine.recordPath name) ∧
      Session.evict name s' = .ok false s' ∧
      ∀ host, host.disk.locate (s'.engine.recordPath name) = .error .missing →
        Session.ResolvesAnew name ⟨s'.engine, host⟩ := by
  constructor
  · intro o ho
    exact ⟨fun other hother => o.get?_run ho hother s, fun place hplace => o.file?_run ho hplace⟩
  · intro removed s' hevict
    obtain ⟨hengine, hremove⟩ := Session.of_evict hevict
    obtain ⟨hremoved, hmissing, -⟩ := Archive.of_remove hremove
    have hcache : s'.engine.cache.get? name = none := by simp [hengine]
    rw [← Session.recordPath_of_evict hevict] at hmissing
    refine ⟨hcache, hmissing, hremoved, Session.evict_again hevict, fun host hhost => ?_⟩
    exact Session.resolvesAnew_of_missing hcache hhost

/-! Of two cached templates one is evicted, and then its source is edited. -/

namespace Parting

open Rebinding

def both : Session := (Operation.add foreign).run resolved

def edited (h : Host) : Host := h.edit ['m'] ['t'] ⟨['y'], 9⟩

end Parting

open Rebinding Parting in
theorem templates_apart_parting :
    (both.engine.cache.get? page).isSome = true ∧ (both.engine.cache.get? ['t']).isSome = true ∧
      ∃ s, Session.evict ['t'] both = .ok true s ∧
        s.engine.cache.get? page = both.engine.cache.get? page ∧
        s.engine.cache.get? ['t'] = none ∧ Session.evict ['t'] s = .ok false s ∧
        Session.ResolvesAnew ['t'] ⟨s.engine, edited s.host⟩ := by
  have hdone : Joining.succeeds (Session.evict ['t'] both) = true := by decide +kernel
  have hrecord : both.host.disk.isFile (both.engine.recordPath ['t']) = true := by decide +kernel
  refine ⟨by decide +kernel, by decide +kernel, ?_⟩
  cases hevict : Session.evict ['t'] both with
  | ok removed s =>
    obtain ⟨hothers, hevicted⟩ := templates_apart both ['t']
    obtain ⟨hcache, hmissing, hremoved, hagain, hanew⟩ := hevicted removed s hevict
    have hs : (Operation.work (.evict ['t'])).run both = s := by
      simp [Operation.run, Job.run, Job.after, hevict]
    have hpage := (hothers (.work (.evict ['t'])) rfl).1 page (by decide)
    rw [hs] at hpage
    rw [hrecord] at hremoved
    subst hremoved
    exact ⟨s, rfl, hpage, hcache, hagain, hanew _ hmissing⟩
  | error cause s => simp [hevict, Joining.succeeds] at hdone

end Stencil
