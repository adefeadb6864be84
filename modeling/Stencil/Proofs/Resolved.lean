import Stencil.Proofs.Traces

/-!
# Resolving

Whatever an engine does, the stamps in its cache and in its archive can be trusted afterwards, if
they could be trusted before.
-/

namespace Stencil.Session

variable {base : Engine} {used : Usage} {horizon : Moment} {e : Engine} {host : Host} {name : Text}

/-! ## Changing the disk -/

/-- The horizon after the disk went from `d` to `d'`: the clock moves when a file is stored. -/
def horizonAfter (horizon : Moment) (d d' : Disk) : Moment :=
  if d'.clock = d.clock then horizon else max horizon (d.clock + 1)

theorem le_horizonAfter (horizon : Moment) (d d' : Disk) : horizon ≤ horizonAfter horizon d d' := by
  unfold horizonAfter
  split
  · exact Nat.le_refl horizon
  · exact Nat.le_max_left horizon _

theorem lt_horizonAfter (horizon : Moment) {d d' : Disk} (h : d'.clock = d.clock + 1) :
    d.clock < horizonAfter horizon d d' := by
  unfold horizonAfter
  rw [if_neg (by rw [h]; exact Nat.succ_ne_self _)]
  exact Nat.le_max_right horizon _

/-- What is left behind can be trusted, against the sources as they were before. -/
structure Settled (base : Engine) (used : Usage) (horizon : Moment) (options : Options) (host : Host)
    (s : Session) : Prop where
  options_eq : s.engine.options = options
  engine : base.Sound used (base.sight host) (horizonAfter horizon host.disk s.host.disk) s.engine
  disk : s.host.disk.Sound base used (base.sight host) (horizonAfter horizon host.disk s.host.disk)
  texts : host.SameMemories s.host

/-- An engine and a host that can be trusted before the work. -/
structure Ready (base : Engine) (used : Usage) (horizon : Moment) (e : Engine) (host : Host) :
    Prop where
  separate : base.archive.Separate used
  engine : base.Sound used (base.sight host) horizon e
  disk : host.disk.Sound base used (base.sight host) horizon
  times : ∀ name options, used name options →
    ∀ m, (base.sight host name).modified? = some m → m < horizon

theorem Ready.sight_eq (ready : Ready base used horizon e host) :
    e.sight host name = base.sight host name :=
  Engine.sight_of_settings ready.engine.settings

theorem Ready.script_eq (ready : Ready base used horizon e host) (text : Text) :
    e.script name text = { base with options := e.options }.script name text :=
  Engine.script_of_settings ready.engine.settings text

/-! ## Artifacts -/

/-- The artifact may be kept, and is up to date if that was asked for. -/
structure Trusted (base e : Engine) (horizon : Moment) (host : Host) (name : Text) (a : Artifact) :
    Prop where
  name_eq : a.name = name
  stamp : ∃ stamp, a.stamp? = some stamp ∧
    base.Fits horizon e.options name (base.sight host name) a.code stamp
  code : e.options.has .checkSources = true ∨ e.options.has .alwaysCompile = true →
    base.Compiles e.options name (base.sight host name) a.code

theorem Ready.trusted_of_current (ready : Ready base used horizon e host) {a : Artifact}
    {stamp : Stamp} (hname : a.name = name) (hstamp : a.stamp? = some stamp)
    (hfits : base.Fits horizon e.options name (base.sight host name) a.code stamp)
    (hcurrent : Current e host a) (halways : ¬ e.options.has .alwaysCompile = true) :
    Trusted base e horizon host name a := by
  refine ⟨hname, ⟨stamp, hstamp, hfits⟩, ?_⟩
  rintro (hcheck | hasked)
  · obtain ⟨m, hm, hfresh⟩ := hcurrent hcheck stamp hstamp
    rw [hname, ready.sight_eq] at hm
    exact hfits.compiles m hm hfresh
  · exact absurd hasked halways

theorem Ready.trusted (ready : Ready base used horizon e host) (hused : used name e.options)
    {a : Artifact} (h : Origin e host name a) : Trusted base e horizon host name a := by
  cases h with
  | @cached shared hcached hcurrent =>
    obtain ⟨_, hname, stamp, hstamp, hfits⟩ := ready.engine.cached name shared hcached
    refine ready.trusted_of_current hname hstamp hfits hcurrent fun halways => ?_
    rw [ready.engine.idle halways] at hcached
    cases hcached
  | recorded hfile hcode halways hcurrent =>
    rw [Engine.recordPlace_of_settings ready.engine.settings] at hfile
    have hfits := ready.disk name e.options hused _ _ hfile hcode
    exact ready.trusted_of_current rfl rfl hfits hcurrent halways
  | made h =>
    obtain ⟨m, hstamp, hm⟩ := h.stamp
    rw [ready.sight_eq] at hm
    have hcode := (Engine.makes_iff_of_settings ready.engine.settings).mp h.code
    have htime := ready.times name e.options hused m hm
    exact ⟨h.name_eq, ⟨.source m, hstamp, hcode.fits htime⟩, fun _ => hcode⟩

/-! ## What is left behind -/

theorem Ready.sound_of_recached (ready : Ready base used horizon e host)
    (hused : used name e.options) {e' : Engine} (h : Recached e host name e') :
    base.Sound used (base.sight host) horizon e' := by
  obtain ⟨options, cache, hsettings⟩ := ready.engine.settings
  obtain ⟨cache', rfl⟩ := h.settings
  refine ⟨⟨options, cache', by rw [hsettings]⟩, fun other shared hfound => ?_, fun halways => ?_⟩
  · rcases h.get? hfound with hold | ⟨rfl, horigin⟩
    · exact ready.engine.cached other shared hold
    · obtain ⟨rfl, hstamp, -⟩ := ready.trusted hused horigin
      exact ⟨hused, rfl, hstamp⟩
  · exact h.idle (ready.engine.idle halways)

theorem Ready.sound_of_touched (ready : Ready base used horizon e host)
    (hused : used name e.options) {d : Disk} (h : Touched e host name d) :
    d.Sound base used (base.sight host) (horizonAfter horizon host.disk d) := by
  intro other options hother file found hfile hfound
  rcases h.file? hfile with hold | ⟨hplace, hclock, code, hcode, rfl⟩
  · exact (ready.disk other options hother file found hold hfound).mono (le_horizonAfter _ _ _)
  · rw [Engine.recordPlace_of_settings ready.engine.settings] at hplace
    obtain ⟨rfl, rfl⟩ := ready.separate _ _ _ _ hother hused hplace
    obtain rfl : code = found := Option.some.inj ((Text.decode?_encode code).symm.trans hfound)
    refine ((Engine.makes_iff_of_settings ready.engine.settings).mp hcode).fits ?_
    exact lt_horizonAfter horizon hclock

theorem Ready.settled (ready : Ready base used horizon e host) (hused : used name e.options)
    {e' : Engine} {s : Session} (hengine : Recached e host name e') (h : Leaves e host name e' s) :
    Settled base used horizon e.options host s := by
  refine ⟨?_, ?_, ready.sound_of_touched hused h.disk, h.memories⟩
  · obtain ⟨cache, hcache⟩ := hengine.settings
    rw [h.engine, hcache]
  · rw [h.engine]
    exact (ready.sound_of_recached hused hengine).of_later (fun _ _ _ => .inl rfl)
      (le_horizonAfter _ _ _)

/-- Whichever way an artifact is found, it is what the source compiles to if that was asked for. -/
theorem Ready.ensures_resolve (ready : Ready base used horizon e host)
    (hused : used name e.options) :
    Ensures (At e host) (resolve name)
      (fun shared s => Settled base used horizon e.options host s ∧
        (e.options.has .checkSources = true ∨ e.options.has .alwaysCompile = true →
          base.Compiles e.options name (base.sight host name) shared.artifact.code))
      (Settled base used horizon e.options host) := by
  refine (Session.ensures_resolve name).mono ?_ fun _ h => ready.settled hused .same h.leaves
  intro shared s h
  obtain ⟨e', hengine, hleaves⟩ := h.recached
  exact ⟨ready.settled hused hengine hleaves, (ready.trusted hused h.origin).code⟩

end Stencil.Session
