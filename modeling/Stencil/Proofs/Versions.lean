import Mathlib.Logic.Relation
import Stencil.Proofs.Runs

/-!
# Versions of templates

Engines that share an archive, in a world that edits templates and dates the edits as it likes. What
an engine hands out need not be current then, but it was compiled from some version of the template
that was asked for, under the options that the engine has.
-/

namespace Stencil

/-- What the template compiled to on one of the hosts. -/
def Engine.Yielded (base : Engine) (hosts : List Host) (options : Options) (name code : Text) :
    Prop :=
  ∃ host ∈ hosts, base.Compiles options name (base.sight host name) code

theorem Engine.Yielded.mono {base : Engine} {hosts hosts' : List Host} {options : Options}
    {name code : Text} (h : base.Yielded hosts options name code) (hsub : hosts ⊆ hosts') :
    base.Yielded hosts' options name code := by
  obtain ⟨host, hhost, hcode⟩ := h
  exact ⟨host, hsub hhost, hcode⟩

/-- The artifact is one of the template itself, under the options themselves. -/
structure Artifact.Own (base : Engine) (hosts : List Host) (options : Options) (name : Text)
    (a : Artifact) : Prop where
  name_eq : a.name = name
  options_eq : a.options = options
  code : base.Yielded hosts options name a.code

structure Engine.KeepsOwn (base : Engine) (hosts : List Host) (e : Engine) : Prop where
  settings : ∃ options cache, e = { base with options, cache }
  cached : ∀ name shared, e.cache.get? name = some shared →
    shared.artifact.Own base hosts e.options name

def Disk.KeepsOwn (base : Engine) (used : Usage) (hosts : List Host) (d : Disk) : Prop :=
  ∀ name options, used name options → ∀ file code,
    d.file? (base.archive.recordPlace name options) = some file →
      Text.decode? file.content = some code → base.Yielded hosts options name code

/-! ## Jobs -/

section

variable {base e : Engine} {used : Usage} {hosts hosts' : List Host} {host : Host} {name : Text}

theorem Engine.KeepsOwn.mono (h : base.KeepsOwn hosts e) (hsub : hosts ⊆ hosts') :
    base.KeepsOwn hosts' e := by
  refine ⟨h.settings, fun name shared hfound => ?_⟩
  obtain ⟨hname, hoptions, hcode⟩ := h.cached name shared hfound
  exact ⟨hname, hoptions, hcode.mono hsub⟩

theorem Disk.KeepsOwn.mono {d : Disk} (h : d.KeepsOwn base used hosts) (hsub : hosts ⊆ hosts') :
    d.KeepsOwn base used hosts' :=
  fun name options hused file code hfile hcode =>
    (h name options hused file code hfile hcode).mono hsub

theorem Engine.KeepsOwn.setOptions (h : ∃ options cache, e = { base with options, cache })
    (options : Options) : base.KeepsOwn hosts (e.setOptions options) := by
  obtain ⟨_, _, rfl⟩ := h
  refine ⟨⟨options, _, rfl⟩, fun name shared hfound => ?_⟩
  rw [Engine.setOptions, Cache.get?_suited] at hfound
  cases hfound

theorem Engine.KeepsOwn.origin (h : base.KeepsOwn hosts e)
    (hdisk : host.disk.KeepsOwn base used hosts) (hhost : host ∈ hosts)
    (hused : used name e.options) {a : Artifact} (horigin : Session.Origin e host name a) :
    a.Own base hosts e.options name := by
  cases horigin with
  | cached hcached => exact h.cached name _ hcached
  | recorded hfile hcode =>
    rw [Engine.recordPlace_of_settings h.settings] at hfile
    exact ⟨rfl, rfl, hdisk name e.options hused _ _ hfile hcode⟩
  | made hmade =>
    have hcode := (Engine.makes_iff_of_settings h.settings).mp hmade.code
    exact ⟨hmade.name_eq, hmade.options_eq, host, hhost, hcode⟩

theorem Engine.KeepsOwn.recached (h : base.KeepsOwn hosts e)
    (hdisk : host.disk.KeepsOwn base used hosts) (hhost : host ∈ hosts)
    (hused : used name e.options) {e' : Engine} (hcache : Session.Recached e host name e') :
    base.KeepsOwn hosts e' := by
  obtain ⟨options, cache, hsettings⟩ := h.settings
  obtain ⟨cache', rfl⟩ := hcache.settings
  refine ⟨⟨options, cache', by rw [hsettings]⟩, fun other shared hfound => ?_⟩
  rcases hcache.get? hfound with hold | ⟨rfl, horigin⟩
  · exact h.cached other shared hold
  · have hown := h.origin hdisk hhost hused horigin
    rwa [← hown.name_eq] at hown

/-- The only record that a job writes is that of its template under the engine's options. -/
theorem Disk.KeepsOwn.touched (hdisk : host.disk.KeepsOwn base used hosts)
    (hsep : base.archive.Separate used) (hhost : host ∈ hosts)
    (hsettings : ∃ options cache, e = { base with options, cache }) (hused : used name e.options)
    {d : Disk} (h : Session.Touched e host name d) : d.KeepsOwn base used hosts := by
  intro other options hother file found hfile hfound
  rcases h.file? hfile with hold | ⟨hplace, -, code, hcode, rfl⟩
  · exact hdisk other options hother file found hold hfound
  · rw [Engine.recordPlace_of_settings hsettings] at hplace
    obtain ⟨rfl, rfl⟩ := hsep _ _ _ _ hother hused hplace
    obtain rfl : code = found := Option.some.inj ((Text.decode?_encode code).symm.trans hfound)
    exact ⟨host, hhost, (Engine.makes_iff_of_settings hsettings).mp hcode⟩

end

/-! ## Runs -/

namespace World

/-- All that is kept in caches and records is of some version of its template. -/
structure KeepsOwn (base : Engine) (used : Usage) (w : World) : Prop where
  engines : ∀ e ∈ w.engines, base.KeepsOwn w.hosts e
  disk : w.host.disk.KeepsOwn base used w.hosts

variable {base : Engine} {used : Usage} {conduct : Conduct} {w w' : World}

theorem Begins.keepsOwn (hbegin : w.Begins base used) : w.KeepsOwn base used := by
  refine ⟨?_, ?_⟩
  · intro e he
    rw [hbegin.engines] at he
    cases he
  · intro name options hused file code hfile
    rw [hbegin.records name options hused] at hfile
    cases hfile

theorem KeepsOwn.change (h : w.KeepsOwn base used) {host : Host} {horizon : Moment}
    (hrecords : ∀ name options, used name options →
      host.disk.file? (base.archive.recordPlace name options) =
        w.host.disk.file? (base.archive.recordPlace name options)) :
    { w with host, past := w.hosts, horizon }.KeepsOwn base used := by
  have hsub : w.hosts ⊆ host :: w.hosts := List.subset_cons_self host w.hosts
  refine ⟨fun e he => (h.engines e he).mono hsub, ?_⟩
  intro name options hused file code hfile hcode
  rw [hrecords name options hused] at hfile
  exact h.disk.mono hsub name options hused file code hfile hcode

theorem KeepsOwn.work (h : w.KeepsOwn base used) (hsep : base.archive.Separate used) {i : Nat}
    {e : Engine} {job : Job} (he : w.engines[i]? = some e) (hused : used job.name e.options) :
    (w.put i (job.run ⟨e, w.host⟩)).KeepsOwn base used := by
  obtain ⟨e', hcache, hengine, -, hdisk⟩ := job.leaves_run e w.host
  have hkept := h.engines e (List.mem_of_getElem? he)
  have hhost : w.host ∈ w.hosts := List.mem_cons_self
  -- What the job compiled, it compiled on the host before it, which is now part of the past.
  have hsub : w.hosts ⊆ (job.run ⟨e, w.host⟩).host :: w.hosts := List.subset_cons_self _ _
  refine ⟨fun other hother => ?_, ?_⟩
  · rcases List.mem_or_eq_of_mem_set hother with hother | rfl
    · exact (h.engines other hother).mono hsub
    · rw [hengine]
      exact (hkept.recached h.disk hhost hused hcache).mono hsub
  · exact (h.disk.touched hsep hhost hkept.settings hused hdisk).mono hsub

theorem Step.keepsOwn (hstep : Step base used conduct w w') (hsep : base.archive.Separate used)
    (h : w.KeepsOwn base used) : w'.KeepsOwn base used := by
  cases hstep with
  | change host horizon hrecords _ => exact h.change hrecords
  | work i e job he hused _ => exact h.work hsep he hused
  | setOptions i e options he =>
    refine ⟨fun other hother => ?_, h.disk⟩
    rcases List.mem_or_eq_of_mem_set hother with hother | rfl
    · exact h.engines other hother
    · exact .setOptions (h.engines e (List.mem_of_getElem? he)).settings options
  | start options =>
    refine ⟨fun other hother => ?_, h.disk⟩
    rcases List.mem_append.mp hother with hother | hother
    · exact h.engines other hother
    · rw [List.mem_singleton.mp hother]
      exact .setOptions ⟨base.options, base.cache, rfl⟩ options

theorem keepsOwn_of_run (hsep : base.archive.Separate used) (hbegin : w.Begins base used)
    (hrun : Relation.ReflTransGen (Step base used conduct) w w') : w'.KeepsOwn base used := by
  induction hrun with
  | refl => exact hbegin.keepsOwn
  | tail _ hstep ih => exact hstep.keepsOwn hsep ih

end World

/-! ## Nothing of another template is handed out -/

/--
Whatever the conduct of the world, every request that succeeds answers with an artifact of the
template that was asked for, compiled under the engine's options from the text that the template has,
or had at some time before.
-/
theorem resolve_own {base : Engine} {used : Usage} (hsep : base.archive.Separate used)
    {conduct : Conduct} {w₀ w : World} (hbegin : w₀.Begins base used)
    (hrun : Relation.ReflTransGen (World.Step base used conduct) w₀ w) {e : Engine}
    (he : e ∈ w.engines) {name : Text} (hused : used name e.options) {shared : Shared} {s : Session}
    (hresolve : Session.resolve name ⟨e, w.host⟩ = .ok shared s) :
    shared.artifact.name = name ∧ shared.artifact.options = e.options ∧
      ∃ host ∈ w.hosts, ∃ source path text host', e.sourceOf name = .ok (source, path) ∧
        source.load host path = .ok (text, host') ∧
        e.script name text = .ok shared.artifact.code := by
  have hown := World.keepsOwn_of_run hsep hbegin hrun
  have hkept := hown.engines e he
  have hat : Session.At e w.host ⟨e, w.host⟩ := ⟨rfl, rfl, fun _ => rfl⟩
  have horigin := ((Session.ensures_resolve name).of_ok hat hresolve).1
  obtain ⟨hname, hoptions, host, hhost, text, htext, hscript⟩ :=
    hkept.origin hown.disk List.mem_cons_self hused horigin
  rw [← Engine.sight_of_settings hkept.settings] at htext
  rw [← Engine.script_of_settings hkept.settings] at hscript
  obtain ⟨source, path, host', hsource, hload⟩ := Engine.load_of_sight htext
  exact ⟨hname, hoptions, host, hhost, source, path, text, host', hsource, hload, hscript⟩

/-! A template is edited, with an early date, between requests under two sets of options. -/

namespace Backdating

open Joining (name base edit)

def plain : Options := ⟨0⟩

def checking : Options := ⟨0x80⟩

def usage : Usage := fun asked under => asked = name ∧ (under = plain ∨ under = checking)

def empty : World := ⟨edit ⟨{ clock := 5 }, {}, 0⟩ ['x'] 3, [], [], 0⟩

def opened : World := { empty with engines := [base.setOptions plain] }

def resolve (e : Engine) (w : World) : Session := (Job.resolve name).run ⟨e, w.host⟩

def first : Session := resolve (base.setOptions plain) opened

def resolved : World := opened.put 0 first

def edited : World :=
  { resolved with host := edit resolved.host ['y', 'z'] 1, past := resolved.hosts }

def switched : World := { edited with engines := [first.engine.setOptions checking] }

def again : World := switched.put 0 (resolve (first.engine.setOptions checking) switched)

def joined : World := { again with engines := again.engines ++ [base.setOptions plain] }

theorem separate_usage : base.archive.Separate usage := by
  have hne : base.archive.recordPath name plain ≠ base.archive.recordPath name checking := by
    decide +kernel
  refine Archive.separate_of_recordPath (by decide) ?_
  rintro _ _ _ _ ⟨rfl, hplain | hchecking⟩ ⟨rfl, hplain' | hchecking'⟩ hpath
  · exact ⟨rfl, hplain.trans hplain'.symm⟩
  · rw [hplain, hchecking'] at hpath
    exact absurd hpath hne
  · rw [hchecking, hplain'] at hpath
    exact absurd hpath.symm hne
  · exact ⟨rfl, hchecking.trans hchecking'.symm⟩

theorem begins_empty : empty.Begins base usage := ⟨rfl, rfl, fun _ _ _ => rfl⟩

/-- The world does as it likes. -/
def Steps : World → World → Prop := World.Step base usage ⟨fun _ _ _ => True, fun _ _ => True⟩

theorem run_joined : Relation.ReflTransGen Steps empty joined := by
  have hopened : Steps empty opened := .start empty plain
  have hresolved : Steps opened resolved :=
    .work opened 0 (base.setOptions plain) (.resolve name) rfl ⟨rfl, .inl rfl⟩ trivial
  have hedited : Steps resolved edited := by
    refine .change resolved (edit resolved.host ['y', 'z'] 1) resolved.horizon ?_ trivial
    intro _ _ _
    unfold edit Host.edit Host.putMemory
    dsimp only
  have hswitched : Steps edited switched :=
    .setOptions edited 0 first.engine checking rfl
  have hagain : Steps switched again :=
    .work switched 0 (first.engine.setOptions checking) (.resolve name) rfl ⟨rfl, .inr rfl⟩ trivial
  have hjoined : Steps again joined := .start again plain
  refine .tail (.tail (.tail ?_ hswitched) hagain) hjoined
  exact .tail (.tail (.tail .refl hopened) hresolved) hedited

end Backdating

open Backdating in
theorem resolve_own_joined :
    ∃ shared s, Session.resolve Joining.name ⟨Joining.base.setOptions plain, joined.host⟩ =
        .ok shared s ∧
      shared.artifact.name = Joining.name ∧ shared.artifact.options = plain ∧
      ∃ host ∈ joined.hosts, ∃ source path text host',
        (Joining.base.setOptions plain).sourceOf Joining.name = .ok (source, path) ∧
        source.load host path = .ok (text, host') ∧
        (Joining.base.setOptions plain).script Joining.name text = .ok shared.artifact.code := by
  have hdone : Joining.succeeds
      (Session.resolve Joining.name ⟨Joining.base.setOptions plain, joined.host⟩) = true := by
    decide +kernel
  have hmem : Joining.base.setOptions plain ∈ joined.engines :=
    List.mem_append_right _ (List.mem_singleton_self _)
  cases hresolve : Session.resolve Joining.name ⟨Joining.base.setOptions plain, joined.host⟩ with
  | ok shared s =>
    have hused : usage Joining.name plain := ⟨rfl, .inl rfl⟩
    exact ⟨shared, s, rfl, resolve_own separate_usage begins_empty run_joined hmem hused hresolve⟩
  | error cause s =>
    rw [hresolve] at hdone
    cases hdone

end Stencil
