import Mathlib.Logic.Relation
import Stencil.Proofs.Resolved

/-!
# Runs of engines on one host

Engines that share an archive, with a world around them that edits and removes templates while they
work. However such a run goes, an engine that checks its sources hands out what they compile to now.
-/

namespace Stencil

/-! ## Worlds -/

inductive Job where
  | resolve (name : Text)
  | compile (name : Text) (persist : Bool)
  | evict (name : Text)

namespace Job

def name : Job → Text
  | .resolve name => name
  | .compile name _ => name
  | .evict name => name

/-- The session after some work, whether or not it failed. -/
def after (work : Work α) (s : Session) : Session :=
  match work s with
  | .ok _ s' => s'
  | .error _ s' => s'

def run (job : Job) : Session → Session :=
  match job with
  | .resolve name => after (Session.resolve name)
  | .compile name persist => after (Session.compile name persist)
  | .evict name => after (Session.evict name)

theorem of_ensures {work : Work α} {P : Session → Prop} {Q : α → Session → Prop}
    {E R : Session → Prop} {s : Session} (hs : P s) (h : Ensures P work Q E)
    (hQ : ∀ a s, Q a s → R s) (hE : ∀ s, E s → R s) : R (after work s) := by
  unfold after
  cases hrun : work s with
  | ok a s' => exact hQ a s' (h.of_ok hs hrun)
  | error cause s' => exact hE s' (h.of_error hs hrun)

theorem leaves_run (job : Job) (e : Engine) (host : Host) :
    ∃ e', Session.Recached e host job.name e' ∧
      Session.Leaves e host job.name e' (job.run ⟨e, host⟩) := by
  have hs : Session.At e host ⟨e, host⟩ := ⟨rfl, rfl, fun _ => rfl⟩
  let R (s : Session) : Prop :=
    ∃ e', Session.Recached e host job.name e' ∧ Session.Leaves e host job.name e' s
  change R (job.run ⟨e, host⟩)
  cases job with
  | resolve name =>
    refine of_ensures hs (Session.ensures_resolve name) ?_ ?_
    · exact fun shared s h => h.recached
    · exact fun s h => ⟨e, .same, h.leaves⟩
  | compile name persist =>
    refine of_ensures hs (Session.ensures_compile name persist) ?_ ?_
    · exact fun a s h => ⟨e, .same, h.1⟩
    · exact fun s h => ⟨e, .same, h.leaves⟩
  | evict name =>
    refine of_ensures hs (Session.ensures_evict name) ?_ ?_
    · exact fun _ s h => ⟨_, .dropped, h⟩
    · exact fun s h => ⟨_, .dropped, h⟩

end Job

structure World where
  host : Host
  engines : List Engine
  /-- The host as it was before each step so far. -/
  past : List Host
  /-- A moment that edits can be dated by. -/
  horizon : Moment

/-- The conditions on what happens to the host in a run. -/
structure Conduct where
  /-- The world may turn its host into this one and move its horizon there. -/
  edits : World → Host → Moment → Prop
  /-- The work of an engine may turn the first host into the second. -/
  work : Host → Host → Prop

namespace World

/-- The host as it is and as it has been. -/
def hosts (w : World) : List Host := w.host :: w.past

/-- The world after a session of the engine at `i`. -/
def put (w : World) (i : Nat) (s : Session) : World where
  host := s.host
  engines := w.engines.set i s.engine
  past := w.hosts
  horizon := Session.horizonAfter w.horizon w.host.disk s.host.disk

/-- There are no engines yet, and no records of what is going to be used. -/
structure Begins (base : Engine) (used : Usage) (w : World) : Prop where
  engines : w.engines = []
  past : w.past = []
  records : ∀ name options, used name options →
    w.host.disk.file? (base.archive.recordPlace name options) = none

/--
One step of a run with engines that have the settings of `base` and each its own options. As far as
the conduct allows it anything may become of the host, as long as the records stay as they are.
-/
inductive Step (base : Engine) (used : Usage) (conduct : Conduct) : World → World → Prop
  | change (w : World) (host : Host) (horizon : Moment)
      (hrecords : ∀ name options, used name options →
        host.disk.file? (base.archive.recordPlace name options) =
          w.host.disk.file? (base.archive.recordPlace name options))
      (hedits : conduct.edits w host horizon) :
      Step base used conduct w { w with host, past := w.hosts, horizon }
  | work (w : World) (i : Nat) (e : Engine) (job : Job) (he : w.engines[i]? = some e)
      (hused : used job.name e.options) (hwork : conduct.work w.host (job.run ⟨e, w.host⟩).host) :
      Step base used conduct w (w.put i (job.run ⟨e, w.host⟩))
  | setOptions (w : World) (i : Nat) (e : Engine) (options : Options)
      (he : w.engines[i]? = some e) :
      Step base used conduct w { w with engines := w.engines.set i (e.setOptions options) }
  | start (w : World) (options : Options) :
      Step base used conduct w { w with engines := w.engines ++ [base.setOptions options] }

/-- All edits are from before the horizon. -/
def Dated (base : Engine) (used : Usage) (w : World) : Prop :=
  ∀ name options, used name options →
    ∀ m, (base.sight w.host name).modified? = some m → m < w.horizon

end World

/--
Templates are edited and removed at will, but each edit is later than all edits and records before
it. Templates on disk lie apart from the records: the work of an engine does not show in them.
-/
def Conduct.dated (base : Engine) (used : Usage) : Conduct where
  edits w host horizon := w.horizon ≤ horizon ∧ ∀ name options, used name options →
    base.sight host name = base.sight w.host name ∨
      ∀ m, (base.sight host name).modified? = some m → w.horizon ≤ m ∧ m < horizon
  work host host' := ∀ name options, used name options → ∀ directories path,
    base.sourceOf name = .ok (.directories directories, path) →
      base.sight host' name = base.sight host name

namespace World

/-! ## What every step keeps -/

/-- All that is kept in caches and records can be trusted. -/
structure Sound (base : Engine) (used : Usage) (w : World) : Prop where
  engines : ∀ e ∈ w.engines, base.Sound used (base.sight w.host) w.horizon e
  disk : w.host.disk.Sound base used (base.sight w.host) w.horizon
  dated : w.Dated base used

variable {base : Engine} {used : Usage} {w w' : World}

theorem Begins.sound (h : w.Begins base used) (hdated : w.Dated base used) :
    w.Sound base used := by
  refine ⟨?_, ?_, hdated⟩
  · intro e he
    rw [h.engines] at he
    cases he
  · intro name options hused file code hfile
    rw [h.records name options hused] at hfile
    cases hfile

theorem Sound.ready (h : w.Sound base used) (hsep : base.archive.Separate used) {e : Engine}
    (he : e ∈ w.engines) : Session.Ready base used w.horizon e w.host :=
  ⟨hsep, h.engines e he, h.disk, h.dated⟩

end World

/-- Templates in memory are seen as they were as long as the texts there stay the same. -/
theorem Engine.sight_of_texts {e : Engine} {host host' : Host} {name : Text}
    (htexts : host.SameMemories host')
    (hdirectories : ∀ directories path, e.sourceOf name = .ok (.directories directories, path) →
      e.sight host' name = e.sight host name) : e.sight host' name = e.sight host name := by
  cases hsource : e.sourceOf name with
  | error cause =>
    unfold Engine.sight
    rw [hsource]
  | ok found =>
    obtain ⟨source, path⟩ := found
    cases source with
    | directories directories => exact hdirectories directories path hsource
    | memory memory =>
      unfold Engine.sight
      rw [hsource]
      simp only [Source.modified, Source.load, htexts memory]
      cases (host.memory memory).texts.get? path <;> rfl

theorem Session.Ready.settled_run {base : Engine} {used : Usage} {horizon : Moment} {e : Engine}
    {host : Host} (ready : Ready base used horizon e host) (job : Job)
    (hused : used job.name e.options) :
    Settled base used horizon e.options host (job.run ⟨e, host⟩) := by
  obtain ⟨e', hengine, h⟩ := job.leaves_run e host
  exact ready.settled hused hengine h

namespace World

variable {base : Engine} {used : Usage} {w w' : World}

theorem Sound.change (h : w.Sound base used) {host : Host} {horizon : Moment}
    (hrecords : ∀ name options, used name options →
      host.disk.file? (base.archive.recordPlace name options) =
        w.host.disk.file? (base.archive.recordPlace name options))
    (hchange : (Conduct.dated base used).edits w host horizon) :
    { w with host, past := w.hosts, horizon }.Sound base used := by
  obtain ⟨hle, hedits⟩ := hchange
  have hlater : ∀ name options, used name options → base.sight host name = base.sight w.host name ∨
      ∀ m, (base.sight host name).modified? = some m → w.horizon ≤ m :=
    fun name options hused => (hedits name options hused).imp_right fun hm m h => (hm m h).1
  refine ⟨?_, ?_, ?_⟩
  · intro e he
    exact (h.engines e he).of_later hlater hle
  · exact h.disk.of_later hrecords hlater hle
  · intro name options hused m hm
    rcases hedits name options hused with hsame | hnew
    · rw [hsame] at hm
      exact Nat.lt_of_lt_of_le (h.dated name options hused m hm) hle
    · exact (hnew m hm).2

theorem Sound.put (h : w.Sound base used) {i : Nat} {options : Options} {s : Session}
    (hsettled : Session.Settled base used w.horizon options w.host s)
    (hsources : ∀ name options, used name options →
      base.sight s.host name = base.sight w.host name) : (w.put i s).Sound base used := by
  have hlook : ∀ (horizon : Moment) name options, used name options →
      base.sight s.host name = base.sight w.host name ∨
        ∀ m, (base.sight s.host name).modified? = some m → horizon ≤ m :=
    fun _ name options hused => .inl (hsources name options hused)
  have hle := Session.le_horizonAfter w.horizon w.host.disk s.host.disk
  refine ⟨?_, ?_, ?_⟩
  · intro e he
    rcases List.mem_or_eq_of_mem_set he with he | rfl
    · exact (h.engines e he).of_later (hlook _) hle
    · exact hsettled.engine.of_later (hlook _) (Nat.le_refl _)
  · exact hsettled.disk.of_later (fun _ _ _ => rfl) (hlook _) (Nat.le_refl _)
  · intro name options hused m hm
    rw [show (w.put i s).host = s.host from rfl, hsources name options hused] at hm
    exact Nat.lt_of_lt_of_le (h.dated name options hused m hm) hle

theorem Step.sound (hstep : Step base used (.dated base used) w w')
    (hsep : base.archive.Separate used) (h : w.Sound base used) : w'.Sound base used := by
  cases hstep with
  | change host horizon hrecords hedits => exact h.change hrecords hedits
  | work i e job he hused hapart =>
    have ready := h.ready hsep (List.mem_of_getElem? he)
    have hsettled := ready.settled_run job hused
    refine h.put hsettled fun name options hname => ?_
    exact Engine.sight_of_texts hsettled.texts (hapart name options hname)
  | setOptions i e options he =>
    refine ⟨fun other hother => ?_, h.disk, h.dated⟩
    rcases List.mem_or_eq_of_mem_set hother with hother | rfl
    · exact h.engines other hother
    · exact (h.engines e (List.mem_of_getElem? he)).setOptions options
  | start options =>
    refine ⟨fun other hother => ?_, h.disk, h.dated⟩
    rcases List.mem_append.mp hother with hother | hother
    · exact h.engines other hother
    · rw [List.mem_singleton.mp hother]
      exact Engine.sound_start options

theorem sound_of_run (hsep : base.archive.Separate used) (hbegin : w.Begins base used)
    (hdated : w.Dated base used)
    (hrun : Relation.ReflTransGen (Step base used (.dated base used)) w w') :
    w'.Sound base used := by
  induction hrun with
  | refl => exact hbegin.sound hdated
  | tail _ hstep ih => exact hstep.sound hsep ih

end World

/-! ## Nothing stale is handed out -/

theorem Engine.load_of_sight {e : Engine} {host : Host} {name text : Text}
    (h : (e.sight host name).text? = some text) :
    ∃ source path host', e.sourceOf name = .ok (source, path) ∧
      source.load host path = .ok (text, host') := by
  unfold Engine.sight at h
  split at h
  · rename_i source path hsource
    cases hload : source.load host path with
    | error cause =>
      rw [hload] at h
      cases h
    | ok loaded =>
      rw [hload] at h
      cases h
      exact ⟨source, path, loaded.2, hsource, hload⟩
  · cases h

/--
Every request that succeeds, of an engine that checks its sources or compiles at every request,
answers with what the template's text compiles to at that time, under the engine's options.
-/
theorem resolve_current {base : Engine} {used : Usage} (hsep : base.archive.Separate used)
    {w₀ w : World} (hbegin : w₀.Begins base used) (hdated : w₀.Dated base used)
    (hrun : Relation.ReflTransGen (World.Step base used (.dated base used)) w₀ w) {e : Engine}
    (he : e ∈ w.engines) {name : Text} (hused : used name e.options)
    (hasked : e.options.has .checkSources = true ∨ e.options.has .alwaysCompile = true)
    {shared : Shared} {s : Session} (hresolve : Session.resolve name ⟨e, w.host⟩ = .ok shared s) :
    ∃ source path text host, e.sourceOf name = .ok (source, path) ∧
      source.load w.host path = .ok (text, host) ∧
      e.script name text = .ok shared.artifact.code := by
  have ready := (World.sound_of_run hsep hbegin hdated hrun).ready hsep he
  have hat : Session.At e w.host ⟨e, w.host⟩ := ⟨rfl, rfl, fun _ => rfl⟩
  obtain ⟨text, htext, hscript⟩ := ((ready.ensures_resolve hused).of_ok hat hresolve).2 hasked
  rw [← ready.sight_eq] at htext
  rw [← ready.script_eq] at hscript
  obtain ⟨source, path, host, hsource, hload⟩ := Engine.load_of_sight htext
  exact ⟨source, path, text, host, hsource, hload, hscript⟩

/-! A template is edited between the requests of two engines with one archive. -/

namespace Joining

def name : Text := ['t']

def options : Options := ⟨0x80⟩

def base : Engine := { archive := { directory := ['d', '/', 'e'] }, source := .memory ['m'] }

def usage : Usage := fun asked under => asked = name ∧ under = options

def edit (h : Host) (text : Text) (modified : Moment) : Host := h.edit ['m'] name ⟨text, modified⟩

def empty : World := ⟨edit ⟨{ clock := 5 }, {}, 0⟩ ['x'] 3, [], [], 4⟩

def opened : World := { empty with engines := [base.setOptions options] }

def resolved : World := opened.put 0 ((Job.resolve name).run ⟨base.setOptions options, opened.host⟩)

def edited : World :=
  { resolved with host := edit resolved.host ['y', 'z'] 9, past := resolved.hosts, horizon := 10 }

def joined : World := { edited with engines := edited.engines ++ [base.setOptions options] }

theorem modified_edit (h : Host) (text : Text) (m : Moment) :
    (base.sight (edit h text m) name).modified? = some m := by
  have hsource : base.sourceOf name = .ok (.memory ['m'], name) := rfl
  unfold Engine.sight
  rw [hsource]
  simp [Source.modified, edit, Host.edit, Host.putMemory, Host.memory, Except.toOption]

theorem begins_empty : empty.Begins base usage := ⟨rfl, rfl, fun _ _ _ => rfl⟩

theorem dated_empty : empty.Dated base usage := by
  rintro _ _ ⟨rfl, rfl⟩ m hm
  cases (modified_edit _ ['x'] 3).symm.trans hm
  exact Nat.lt_succ_self 3

def Steps : World → World → Prop := World.Step base usage (.dated base usage)

theorem run_joined : Relation.ReflTransGen Steps empty joined := by
  have hopened : Steps empty opened := .start empty options
  have hresolved : Steps opened resolved := by
    refine .work opened 0 (base.setOptions options) (.resolve name) rfl ⟨rfl, rfl⟩ ?_
    rintro _ _ ⟨rfl, rfl⟩ directories path hsource
    cases hsource
  have hlater : resolved.horizon ≤ 9 := by decide +kernel
  have hedited : Steps resolved edited := by
    refine .change resolved (edit resolved.host ['y', 'z'] 9) 10 ?_ ⟨Nat.le_succ_of_le hlater, ?_⟩
    · intro _ _ _
      unfold edit Host.edit Host.putMemory
      dsimp only
    · rintro _ _ ⟨rfl, rfl⟩
      refine .inr fun m hm => ?_
      cases (modified_edit resolved.host ['y', 'z'] 9).symm.trans hm
      exact ⟨hlater, Nat.lt_succ_self 9⟩
  have hjoined : Steps edited joined := .start edited options
  exact .tail (.tail (.tail (.tail .refl hopened) hresolved) hedited) hjoined

theorem separate_usage : base.archive.Separate usage := by
  rintro _ _ _ _ ⟨rfl, rfl⟩ ⟨rfl, rfl⟩ _
  exact ⟨rfl, rfl⟩

def succeeds (r : EStateM.Result ε σ α) : Bool :=
  match r with
  | .ok _ _ => true
  | .error _ _ => false

end Joining

open Joining in
theorem resolve_current_joined :
    ∃ shared s, Session.resolve name ⟨base.setOptions options, joined.host⟩ = .ok shared s ∧
      ∃ source path text host, (base.setOptions options).sourceOf name = .ok (source, path) ∧
        source.load joined.host path = .ok (text, host) ∧
        (base.setOptions options).script name text = .ok shared.artifact.code := by
  have hdone : succeeds (Session.resolve name ⟨base.setOptions options, joined.host⟩) = true := by
    decide +kernel
  have hmem : base.setOptions options ∈ joined.engines :=
    List.mem_append_right _ (List.mem_singleton_self _)
  cases hresolve : Session.resolve name ⟨base.setOptions options, joined.host⟩ with
  | ok shared s =>
    exact ⟨shared, s, rfl, resolve_current separate_usage begins_empty dated_empty run_joined hmem
      ⟨rfl, rfl⟩ (by decide) hresolve⟩
  | error cause s =>
    rw [hresolve] at hdone
    cases hdone

end Stencil
