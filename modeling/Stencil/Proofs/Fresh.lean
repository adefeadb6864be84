import Stencil.Engine.Resolve
import Stencil.Proofs.Places

/-!
# Fresh artifacts

What an engine keeps, in its cache or in its archive, bears a stamp. As long as the stamp agrees with
the time of the source, the code is what the source compiles to. Each piece of an engine's work keeps
that up, whether or not it succeeds.
-/

namespace Stencil

/-! ## What an engine sees of a source -/

structure Sight where
  modified? : Option Moment
  text? : Option Text

def Engine.sight (e : Engine) (host : Host) (name : Text) : Sight :=
  match e.sourceOf name with
  | .ok (source, path) =>
    ⟨(source.modified host path).toOption, ((source.load host path).toOption).map Prod.fst⟩
  | .error _ => ⟨none, none⟩

/-- The hosts hold the same texts in memory. -/
def Host.SameMemories (h h' : Host) : Prop :=
  ∀ name, (h'.memory name).texts = (h.memory name).texts

/-- They have the same disk as well, so nothing can be told apart but counts. -/
structure Host.SameTexts (h h' : Host) : Prop where
  disk : h'.disk = h.disk
  memories : h.SameMemories h'

theorem Host.SameTexts.trans {h h' h'' : Host} (first : h.SameTexts h') (second : h'.SameTexts h'') :
    h.SameTexts h'' :=
  ⟨second.disk.trans first.disk, fun name => (second.memories name).trans (first.memories name)⟩

theorem Host.SameTexts.modified {h h' : Host} (same : h.SameTexts h') (s : Source) (path : Text) :
    s.modified h' path = s.modified h path := by
  cases s with
  | memory name => simp only [Source.modified, same.memories name]
  | directories paths => simp only [Source.modified, same.disk]

theorem Host.SameTexts.load {h h' : Host} (same : h.SameTexts h') (s : Source) (path : Text) :
    (s.load h' path).toOption.map Prod.fst = (s.load h path).toOption.map Prod.fst := by
  cases s with
  | memory name =>
    simp only [Source.load, same.memories name]
    cases (h.memory name).texts.get? path <;> rfl
  | directories paths =>
    simp only [Source.load, same.disk]
    cases Source.locate? paths h.disk path with
    | none => rfl
    | some file =>
      dsimp only
      cases h.disk.readText file <;> rfl

theorem Source.sameTexts_of_load {s : Source} {h h' : Host} {path text : Text}
    (hload : s.load h path = .ok (text, h')) : h.SameTexts h' := by
  cases s with
  | directories paths =>
    simp only [load] at hload
    split at hload
    · cases hload
    · split at hload
      · cases hload
        exact ⟨rfl, fun _ => rfl⟩
      · cases hload
  | memory name =>
    simp only [load] at hload
    split at hload
    · cases hload
      refine ⟨rfl, fun other => ?_⟩
      unfold Host.putMemory Host.memory
      by_cases hname : other = name
      · subst hname
        simp
      · simp [hname]
    · cases hload

/-! ## Stamps that can be trusted -/

def Stamp.time : Stamp → Moment
  | .source seen => seen
  | .record written => written

theorem Stamp.le_time_of_isFresh {stamp : Stamp} {m : Moment} (h : stamp.isFresh m = true) :
    m ≤ stamp.time := by
  cases stamp with
  | source seen => exact Nat.le_of_eq (of_decide_eq_true h).symm
  | record written => exact of_decide_eq_true h

/-- What the source in sight compiles to under the options. -/
def Engine.Compiles (base : Engine) (options : Options) (name : Text) (seen : Sight) (code : Text) :
    Prop :=
  ∃ text, seen.text? = some text ∧ { base with options }.script name text = .ok code

/-- As long as the stamp agrees with the source, the code does. -/
structure Engine.Fits (base : Engine) (horizon : Moment) (options : Options) (name : Text)
    (seen : Sight) (code : Text) (stamp : Stamp) : Prop where
  time_lt : stamp.time < horizon
  compiles : ∀ m, seen.modified? = some m → stamp.isFresh m = true →
    base.Compiles options name seen code

section

variable {base : Engine} {options : Options} {name code : Text} {seen seen' : Sight} {stamp : Stamp}
  {horizon horizon' : Moment}

theorem Engine.Fits.mono (h : base.Fits horizon options name seen code stamp)
    (hle : horizon ≤ horizon') : base.Fits horizon' options name seen code stamp :=
  ⟨Nat.lt_of_lt_of_le h.time_lt hle, h.compiles⟩

theorem Engine.Compiles.fits (h : base.Compiles options name seen code)
    (htime : stamp.time < horizon) : base.Fits horizon options name seen code stamp :=
  ⟨htime, fun _ _ _ => h⟩

/-- A stamp agrees with no source that changed after it was given. -/
theorem Engine.Fits.of_later (h : base.Fits horizon options name seen code stamp)
    (hseen : seen' = seen ∨ ∀ m, seen'.modified? = some m → horizon ≤ m) (hle : horizon ≤ horizon') :
    base.Fits horizon' options name seen' code stamp := by
  rcases hseen with rfl | hlater
  · exact h.mono hle
  · refine ⟨Nat.lt_of_lt_of_le h.time_lt hle, fun m hm hfresh => ?_⟩
    have hold := Nat.lt_of_le_of_lt (Stamp.le_time_of_isFresh hfresh) h.time_lt
    exact absurd (hlater m hm) (Nat.not_le.mpr hold)

end

/-! ## What engines keep -/

theorem Cache.get?_suited (options : Options) (name : Text) :
    (Cache.suited options).get? name = none := by
  unfold Cache.suited
  split <;> rfl

theorem Cache.get?_of_insert {c : Cache} {s other : Shared} {name : Text}
    (h : (c.insert s).get? name = some other) :
    (name = s.artifact.name ∧ other = s) ∨ c.get? name = some other := by
  by_cases hname : name = s.artifact.name
  · have hkeeps : c ≠ .idle := by
      rintro rfl
      cases h
    rw [hname, get?_insert_self c hkeeps] at h
    cases h
    exact .inl ⟨hname, rfl⟩
  · rw [get?_insert_of_ne c hname] at h
    exact .inr h

theorem Cache.get?_of_remove {c : Cache} {s : Shared} {name other : Text}
    (h : (c.remove name).get? other = some s) : c.get? other = some s := by
  have hname : other ≠ name := by
    rintro rfl
    simp at h
  rwa [get?_remove_of_ne c hname] at h

/-- The templates that are asked for, each with the options it is asked for under. -/
abbrev Usage := Text → Options → Prop

/-- An engine with the settings of `base` whose cache can be trusted. -/
structure Engine.Sound (base : Engine) (used : Usage) (look : Text → Sight) (horizon : Moment)
    (e : Engine) : Prop where
  settings : ∃ options cache, e = { base with options, cache }
  cached : ∀ name shared, e.cache.get? name = some shared →
    used name e.options ∧ shared.artifact.name = name ∧ ∃ stamp,
      shared.artifact.stamp? = some stamp ∧
        base.Fits horizon e.options name (look name) shared.artifact.code stamp
  idle : e.options.has .alwaysCompile = true → e.cache = .idle

/-- A disk whose records can be trusted. -/
def Disk.Sound (base : Engine) (used : Usage) (look : Text → Sight) (horizon : Moment) (d : Disk) :
    Prop :=
  ∀ name options, used name options → ∀ file code,
    d.file? (base.archive.recordPlace name options) = some file →
      Text.decode? file.content = some code →
        base.Fits horizon options name (look name) code (.record file.modified)

section

variable {base : Engine} {used : Usage} {look look' : Text → Sight} {horizon horizon' : Moment}
  {e : Engine} {d d' : Disk}

theorem Engine.Sound.of_later (h : base.Sound used look horizon e)
    (hlook : ∀ name options, used name options →
      look' name = look name ∨ ∀ m, (look' name).modified? = some m → horizon ≤ m)
    (hle : horizon ≤ horizon') : base.Sound used look' horizon' e := by
  refine ⟨h.settings, fun name shared hshared => ?_, h.idle⟩
  obtain ⟨hused, hname, stamp, hstamp, hfits⟩ := h.cached name shared hshared
  exact ⟨hused, hname, stamp, hstamp, hfits.of_later (hlook name _ hused) hle⟩

theorem Disk.Sound.of_later (h : d.Sound base used look horizon)
    (hfiles : ∀ name options, used name options →
      d'.file? (base.archive.recordPlace name options) =
        d.file? (base.archive.recordPlace name options))
    (hlook : ∀ name options, used name options →
      look' name = look name ∨ ∀ m, (look' name).modified? = some m → horizon ≤ m)
    (hle : horizon ≤ horizon') : d'.Sound base used look' horizon' := by
  intro name options hused file code hfile hcode
  rw [hfiles name options hused] at hfile
  exact (h name options hused file code hfile hcode).of_later (hlook name options hused) hle

theorem Engine.sound_start (options : Options) :
    base.Sound used look horizon (base.setOptions options) := by
  refine ⟨⟨options, _, rfl⟩, fun name shared hshared => ?_, fun halways => if_pos halways⟩
  rw [Engine.setOptions, Cache.get?_suited] at hshared
  cases hshared

theorem Engine.Sound.setOptions (h : base.Sound used look horizon e) (options : Options) :
    base.Sound used look horizon (e.setOptions options) := by
  obtain ⟨_, _, rfl⟩ := h.settings
  exact Engine.sound_start options

end

/-- Records of different templates do not get in each other's way. -/
def Archive.Separate (a : Archive) (used : Usage) : Prop :=
  ∀ name options name' options', used name options → used name' options' →
    a.recordPlace name options = a.recordPlace name' options' → name = name' ∧ options = options'

theorem Archive.separate_of_recordPath {a : Archive} {used : Usage} (hext : '/' ∉ a.extension)
    (h : ∀ name options name' options', used name options → used name' options' →
      a.recordPath name options = a.recordPath name' options' → name = name' ∧ options = options') :
    a.Separate used := by
  intro name options name' options' hused hused' hplace
  rw [Archive.recordPlace_eq hext, Archive.recordPlace_eq hext] at hplace
  have hfile : a.fileName name options = a.fileName name' options' :=
    List.singleton_inj.mp (List.append_cancel_left hplace)
  refine h name options name' options' hused hused' ?_
  rw [Archive.recordPath, Archive.recordPath, hfile]

end Stencil
