import Stencil.Proofs.Fresh

/-!
# What work leaves behind

All that resolving, compiling and evicting can do. A job reads the sources first and changes the disk
last, so one look at the host, taken before the job, tells where an artifact comes from and what
becomes of the cache and of the records. A job that fails leaves both as they were.
-/

namespace Stencil

/-- What the template's source compiles to now. -/
def Engine.Makes (e : Engine) (host : Host) (name code : Text) : Prop :=
  ∃ text, (e.sight host name).text? = some text ∧ e.script name text = .ok code

/-! ## Engines with the same settings -/

section

variable {base e : Engine} {host : Host} {name : Text}
  (h : ∃ options cache, e = { base with options, cache })

include h

theorem Engine.sight_of_settings : e.sight host name = base.sight host name := by
  obtain ⟨options, cache, rfl⟩ := h
  rfl

theorem Engine.script_of_settings (text : Text) :
    e.script name text = { base with options := e.options }.script name text := by
  obtain ⟨options, cache, rfl⟩ := h
  rfl

theorem Engine.makes_iff_of_settings {code : Text} :
    e.Makes host name code ↔ base.Compiles e.options name (base.sight host name) code := by
  obtain ⟨options, cache, rfl⟩ := h
  exact Iff.rfl

theorem Engine.recordPlace_of_settings (options : Options) :
    e.archive.recordPlace name options = base.archive.recordPlace name options := by
  obtain ⟨_, _, rfl⟩ := h
  rfl

end

namespace Session

variable {e : Engine} {host : Host} {name : Text}

/-! ## Reading sources -/

/-- Nothing has been done yet but to hand out texts. -/
structure At (e : Engine) (host : Host) (s : Session) : Prop where
  engine : s.engine = e
  texts : host.SameTexts s.host

theorem ensures_ofExcept {r : Except EngineError α} {f : α → Work β} {P : Session → Prop}
    {Q : β → Session → Prop} {E : Session → Prop} (hE : ∀ s, P s → E s)
    (h : ∀ a, r = .ok a → Ensures P (f a) Q E) : Ensures P (ofExcept r >>= f) Q E := by
  cases r with
  | ok a => exact h a rfl
  | error e => exact hE

theorem ensures_sourceTime (name : Text) :
    Ensures (At e host) (sourceTime name)
      (fun m s => At e host s ∧ (e.sight host name).modified? = some m) (At e host) := by
  unfold sourceTime
  refine .get fun s hs => ?_
  obtain ⟨rfl, htexts⟩ := hs
  have stay : ∀ s', s' = s → At s.engine host s' := by
    rintro _ rfl
    exact ⟨rfl, htexts⟩
  refine ensures_ofExcept stay fun found hfound => ?_
  dsimp only
  rw [htexts.modified]
  cases htime : found.1.modified host found.2 with
  | error cause => exact stay
  | ok m =>
    rintro _ rfl
    refine ⟨⟨rfl, htexts⟩, ?_⟩
    unfold Engine.sight
    rw [hfound]
    dsimp only
    rw [htime]
    rfl

theorem ensures_sourceText (name : Text) :
    Ensures (At e host) (sourceText name)
      (fun text s => At e host s ∧ (e.sight host name).text? = some text) (At e host) := by
  unfold sourceText
  refine .get fun s hs => ?_
  obtain ⟨rfl, htexts⟩ := hs
  have stay : ∀ s', s' = s → At s.engine host s' := by
    rintro _ rfl
    exact ⟨rfl, htexts⟩
  refine ensures_ofExcept stay fun found hfound => ?_
  have hload := htexts.load found.1 found.2
  dsimp only
  cases hloaded : found.1.load s.host found.2 with
  | error cause => exact stay
  | ok loaded =>
    rintro _ rfl
    refine ⟨⟨rfl, htexts.trans (Source.sameTexts_of_load hloaded)⟩, ?_⟩
    unfold Engine.sight
    rw [hfound]
    dsimp only
    rw [← hload, hloaded]
    rfl

theorem ensures_onDisk {access : Archive.Access α} {Q : α → Disk → Prop} {E : Disk → Prop}
    (h : Ensures (· = host.disk) access Q E) :
    Ensures (At e host) (onDisk access)
      (fun a s => s.engine = e ∧ host.SameMemories s.host ∧ Q a s.host.disk)
      (fun s => s.engine = e ∧ host.SameMemories s.host ∧ E s.host.disk) := by
  refine .intro ?_ ?_
  · intro s a s' hs hrun
    unfold onDisk at hrun
    split at hrun
    · rename_i hdone
      cases hrun
      exact ⟨hs.engine, hs.texts.memories, h.of_ok hs.texts.disk hdone⟩
    · cases hrun
  · intro s cause s' hs hrun
    unfold onDisk at hrun
    split at hrun
    · cases hrun
    · rename_i hcause
      cases hrun
      exact ⟨hs.engine, hs.texts.memories, h.of_error hs.texts.disk hcause⟩

/-! ## Where artifacts come from -/

/-- The stamp of the artifact still fits the source, if the options ask for it. -/
def Current (e : Engine) (host : Host) (a : Artifact) : Prop :=
  e.options.has .checkSources = true → ∀ stamp, a.stamp? = some stamp →
    ∃ m, (e.sight host a.name).modified? = some m ∧ stamp.isFresh m = true

/-- The artifact was compiled just now. -/
structure Made (e : Engine) (host : Host) (name : Text) (a : Artifact) : Prop where
  name_eq : a.name = name
  options_eq : a.options = e.options
  dialect_eq : a.dialect? = some e.dialect
  stamp : ∃ m, a.stamp? = some (.source m) ∧ (e.sight host name).modified? = some m
  code : e.Makes host name a.code

inductive Origin (e : Engine) (host : Host) (name : Text) : Artifact → Prop
  | cached {shared : Shared} (hcached : e.cache.get? name = some shared)
      (hcurrent : Current e host shared.artifact) : Origin e host name shared.artifact
  | recorded {file : File} {code : Text}
      (hfile : host.disk.file? (e.archive.recordPlace name e.options) = some file)
      (hcode : Text.decode? file.content = some code)
      (halways : ¬ e.options.has .alwaysCompile = true)
      (hcurrent : Current e host (e.artifact name code (some (.record file.modified)))) :
      Origin e host name (e.artifact name code (some (.record file.modified)))
  | made {a : Artifact} (h : Made e host name a) : Origin e host name a

/-- What can have become of the disk. -/
inductive Touched (e : Engine) (host : Host) (name : Text) : Disk → Prop
  | same {d : Disk} (h : Disk.SameFiles host.disk d) : Touched e host name d
  | wrote {d : Disk} {code : Text} (hcode : e.Makes host name code)
      (hfiles : d.files = host.disk.files.put (e.archive.recordPlace name e.options)
        ⟨code.encode, host.disk.clock⟩)
      (hclock : d.clock = host.disk.clock + 1) : Touched e host name d
  | erased : Touched e host name (host.disk.eraseFile (e.archive.recordPlace name e.options))

/-- What can have become of the engine. -/
inductive Recached (e : Engine) (host : Host) (name : Text) : Engine → Prop
  | same : Recached e host name e
  | kept {shared : Shared} (h : Origin e host name shared.artifact)
      (hname : shared.artifact.name = name) :
      Recached e host name { e with cache := e.cache.insert shared }
  | dropped : Recached e host name { e with cache := e.cache.remove name }

/-- What becomes of the engine that hands out `shared`. -/
inductive Hands (e : Engine) (name : Text) (shared : Shared) : Engine → Prop
  | found (h : e.cache.get? name = some shared) : Hands e name shared e
  | kept (hname : shared.artifact.name = name) :
      Hands e name shared { e with cache := e.cache.insert shared }
  /-- An engine that compiles at every request keeps nothing. -/
  | passed (halways : e.options.has .alwaysCompile = true) : Hands e name shared e

theorem Hands.recached {shared : Shared} {e' : Engine} (h : Hands e name shared e')
    (horigin : Origin e host name shared.artifact) : Recached e host name e' := by
  cases h with
  | found => exact .same
  | kept hname => exact .kept horigin hname
  | passed => exact .same

theorem Hands.cached {shared : Shared} {e' : Engine} (h : Hands e name shared e')
    (hcache : e.cache ≠ .idle) (halways : e.options.has .alwaysCompile = false) :
    e'.cache.get? name = some shared := by
  cases h with
  | found h => exact h
  | kept hname =>
    rw [← hname]
    exact Cache.get?_insert_self _ hcache
  | passed hasked =>
    rw [halways] at hasked
    cases hasked

theorem Hands.options_eq {shared : Shared} {e' : Engine} (h : Hands e name shared e') :
    e'.options = e.options := by
  cases h <;> rfl

/-- A record is as it was before, or it is new and holds what the source compiles to. -/
theorem Touched.file? {d : Disk} {place : Place} {file : File} (h : Touched e host name d)
    (hfile : d.file? place = some file) :
    host.disk.file? place = some file ∨
      place = e.archive.recordPlace name e.options ∧ d.clock = host.disk.clock + 1 ∧
        ∃ code, e.Makes host name code ∧ file = ⟨code.encode, host.disk.clock⟩ := by
  unfold Disk.file? at hfile ⊢
  cases h with
  | same h =>
    rw [h.1] at hfile
    exact .inl hfile
  | @wrote _ code hcode hfiles hclock =>
    rw [hfiles] at hfile
    by_cases hplace : place = e.archive.recordPlace name e.options
    · rw [hplace, Table.get?_put_self] at hfile
      cases hfile
      exact .inr ⟨hplace, hclock, code, hcode, rfl⟩
    · rw [Table.get?_put_of_ne _ _ hplace] at hfile
      exact .inl hfile
  | erased =>
    unfold Disk.eraseFile at hfile
    by_cases hplace : place = e.archive.recordPlace name e.options
    · rw [hplace, Table.get?_erase_self] at hfile
      cases hfile
    · rw [Table.get?_erase_of_ne _ hplace] at hfile
      exact .inl hfile

theorem Touched.file?_of_ne {d : Disk} {place : Place} (h : Touched e host name d)
    (hplace : place ≠ e.archive.recordPlace name e.options) :
    d.file? place = host.disk.file? place := by
  unfold Disk.file?
  cases h with
  | same h => rw [h.1]
  | wrote _ hfiles => rw [hfiles, Table.get?_put_of_ne _ _ hplace]
  | erased => exact Table.get?_erase_of_ne _ hplace

theorem Recached.settings {e' : Engine} (h : Recached e host name e') :
    ∃ cache, e' = { e with cache } := by
  cases h <;> exact ⟨_, rfl⟩

theorem Recached.get? {e' : Engine} {other : Text} {shared : Shared} (h : Recached e host name e')
    (hfound : e'.cache.get? other = some shared) :
    e.cache.get? other = some shared ∨
      other = shared.artifact.name ∧ Origin e host name shared.artifact := by
  cases h with
  | same => exact .inl hfound
  | kept horigin =>
    rcases Cache.get?_of_insert hfound with ⟨hname, rfl⟩ | hold
    · exact .inr ⟨hname, horigin⟩
    · exact .inl hold
  | dropped => exact .inl (Cache.get?_of_remove hfound)

theorem Recached.get?_of_ne {e' : Engine} {other : Text} (h : Recached e host name e')
    (hother : other ≠ name) : e'.cache.get? other = e.cache.get? other := by
  cases h with
  | same => rfl
  | kept _ hname => exact Cache.get?_insert_of_ne _ (hname ▸ hother)
  | dropped => exact Cache.get?_remove_of_ne _ hother

theorem Recached.idle {e' : Engine} (h : Recached e host name e') (hidle : e.cache = .idle) :
    e'.cache = .idle := by
  cases h with
  | same => exact hidle
  | kept => simpa using hidle
  | dropped => simpa using hidle

/-- The session after a job that has left the engine as `e'`. -/
structure Leaves (e : Engine) (host : Host) (name : Text) (e' : Engine) (s : Session) : Prop where
  engine : s.engine = e'
  memories : host.SameMemories s.host
  disk : Touched e host name s.host.disk

/-- The session after a job that has come to nothing. -/
structure Unchanged (e : Engine) (host : Host) (s : Session) : Prop where
  engine : s.engine = e
  memories : host.SameMemories s.host
  files : host.disk.SameFiles s.host.disk

theorem Unchanged.leaves {s : Session} (h : Unchanged e host s) : Leaves e host name e s :=
  ⟨h.engine, h.memories, .same h.files⟩

theorem At.unchanged {s : Session} (h : At e host s) : Unchanged e host s := by
  refine ⟨h.engine, h.texts.memories, ?_⟩
  rw [h.texts.disk]
  exact ⟨rfl, rfl⟩

/-! ## Compiling -/

theorem made_of_compileText {m : Moment} {text : Text} {a : Artifact}
    (hm : (e.sight host name).modified? = some m) (htext : (e.sight host name).text? = some text)
    (ha : e.compileText name text = .ok a) :
    Made e host name { a with stamp? := some (.source m) } := by
  unfold Engine.compileText at ha
  split at ha
  · rename_i code hscript
    cases ha
    exact ⟨rfl, rfl, rfl, ⟨m, rfl, hm⟩, text, htext, hscript⟩
  · cases ha

theorem ensures_compile (name : Text) (persist : Bool) :
    Ensures (At e host) (compile name persist)
      (fun a s => Leaves e host name e s ∧ Made e host name a) (Unchanged e host) := by
  unfold compile
  have stay : ∀ s, At e host s → Unchanged e host s := fun _ h => h.unchanged
  have htime := (ensures_sourceTime name).mono (fun _ _ h => h) stay
  have hload := (ensures_sourceText name).mono (fun _ _ h => h) stay
  refine htime.bind fun m => .fact fun hm => ?_
  refine hload.bind fun text => .fact fun htext => ?_
  refine .get fun s hs => Ensures.pre (P := At e host) ?_ (by rintro _ rfl; exact hs)
  dsimp only
  rw [hs.engine]
  refine ensures_ofExcept stay fun artifact hartifact => ?_
  have hmade := made_of_compileText hm htext hartifact
  -- The record is written last, so what was read is still what the sources held before the job.
  cases persist with
  | false =>
    intro s hs
    exact ⟨hs.unchanged.leaves, hmade⟩
  | true =>
    have hwrite := ensures_onDisk (e := e)
      (e.archive.ensures_write (e.recordPath name) artifact.code host.disk)
    refine (hwrite.mono (fun _ _ h => h) ?_).bind fun _ => ?_
    · rintro s ⟨hengine, hmemories, hsame⟩
      exact ⟨hengine, hmemories, hsame⟩
    · rintro s ⟨hengine, hmemories, hfiles, hclock⟩
      exact ⟨⟨hengine, hmemories, .wrote hmade.code hfiles hclock⟩, hmade⟩

/-! ## Artifacts that are used again -/

theorem ensures_isUsable (a : Artifact) :
    Ensures (At e host) (isUsable a)
      (fun usable s => At e host s ∧ (usable = true → Current e host a)) (At e host) := by
  unfold isUsable isFresh
  refine .get fun s hs => Ensures.pre (P := At e host) ?_ (by rintro _ rfl; exact hs)
  rw [hs.engine]
  split
  · cases hstamp : a.stamp? with
    | none => exact fun s hs => ⟨hs, fun _ _ stamp h => by rw [hstamp] at h; cases h⟩
    | some stamp =>
      refine (ensures_sourceTime a.name).bind fun m => .fact fun hm s hs => ⟨hs, ?_⟩
      intro hfresh _ other hother
      rw [hstamp] at hother
      cases hother
      exact ⟨m, hm, hfresh⟩
  · rename_i hcheck
    exact fun s hs => ⟨hs, fun _ hasked => absurd hasked hcheck⟩

theorem ensures_fromRecord? (name : Text) (halways : ¬ e.options.has .alwaysCompile = true) :
    Ensures (At e host) (fromRecord? name)
      (fun found s => At e host s ∧ ∀ a ∈ found, Origin e host name a ∧ a.name = name)
      (At e host) := by
  unfold fromRecord?
  refine .get fun s hs => Ensures.pre (P := At e host) ?_ (by rintro _ rfl; exact hs)
  dsimp only
  rw [hs.engine]
  have hread := ensures_onDisk (e := e) (Archive.ensures_read? (e.recordPath name) host.disk)
  refine Ensures.bind (Q := fun found s => At e host s ∧ ∀ record ∈ found, ∃ file,
    host.disk.file? (e.archive.recordPlace name e.options) = some file ∧
      Text.decode? file.content = some record.code ∧ file.modified = record.written)
    (hread.mono ?_ ?_) fun found => .fact fun hfound => ?_
  · rintro found s ⟨hengine, hmemories, hdisk, hfound⟩
    exact ⟨⟨hengine, hdisk, hmemories⟩, hfound⟩
  · rintro s ⟨hengine, hmemories, hdisk⟩
    exact ⟨hengine, hdisk, hmemories⟩
  cases found with
  | none => exact fun s hs => ⟨hs, nofun⟩
  | some record =>
    obtain ⟨file, hfile, hcode, hwritten⟩ := hfound record rfl
    dsimp only
    rw [← hwritten]
    refine (ensures_isUsable _).bind fun usable => .fact fun hcurrent s hs => ⟨hs, ?_⟩
    cases usable with
    | false => nofun
    | true =>
      rintro _ ⟨⟩
      exact ⟨.recorded hfile hcode halways (hcurrent rfl), rfl⟩

theorem ensures_load (name : Text) (halways : ¬ e.options.has .alwaysCompile = true) :
    Ensures (At e host) (load name)
      (fun a s => Leaves e host name e s ∧ Origin e host name a ∧ a.name = name)
      (Unchanged e host) := by
  unfold load
  have stay : ∀ s, At e host s → Unchanged e host s := fun _ h => h.unchanged
  have hrecord := (ensures_fromRecord? name halways).mono (fun _ _ h => h) stay
  refine hrecord.bind fun found => .fact fun hfound => ?_
  cases found with
  | some a => exact fun s hs => ⟨hs.unchanged.leaves, hfound a rfl⟩
  | none =>
    refine (ensures_compile name true).mono ?_ fun _ h => h
    exact fun a s h => ⟨h.1, .made h.2, h.2.name_eq⟩

/-! ## Jobs -/

structure Answers (e : Engine) (host : Host) (name : Text) (shared : Shared) (s : Session) :
    Prop where
  origin : Origin e host name shared.artifact
  hands : ∃ e', Hands e name shared e' ∧ Leaves e host name e' s

theorem Answers.recached {shared : Shared} {s : Session} (h : Answers e host name shared s) :
    ∃ e', Recached e host name e' ∧ Leaves e host name e' s := by
  obtain ⟨horigin, e', hhands, hleaves⟩ := h
  exact ⟨e', hhands.recached horigin, hleaves⟩

theorem ensures_keep {a : Artifact} (h : Origin e host name a) (hname : a.name = name) :
    Ensures (Leaves e host name e) (share a >>= keep) (Answers e host name)
      (Unchanged e host) := by
  rintro s ⟨rfl, hmemories, hdisk⟩
  exact ⟨h, _, .kept hname, rfl, hmemories, hdisk⟩

theorem ensures_resolve (name : Text) :
    Ensures (At e host) (resolve name) (Answers e host name) (Unchanged e host) := by
  have stay : ∀ s, At e host s → Unchanged e host s := fun _ h => h.unchanged
  have hcompile : Ensures (At e host) (compile name true)
      (fun a s => Leaves e host name e s ∧ Made e host name a) (Unchanged e host) :=
    ensures_compile name true
  unfold resolve
  refine .get fun s hs => Ensures.pre (P := At e host) ?_ (by rintro _ rfl; exact hs)
  dsimp only
  rw [hs.engine]
  cases hcached : e.cache.get? name with
  | some shared =>
    have husable := (ensures_isUsable shared.artifact).mono (fun _ _ h => h) stay
    refine husable.bind fun usable => .fact fun hcurrent => ?_
    cases usable with
    | true =>
      exact fun s hs => ⟨.cached hcached (hcurrent rfl), e, .found hcached, hs.unchanged.leaves⟩
    | false =>
      exact hcompile.bind fun a => .fact fun hmade => ensures_keep (.made hmade) hmade.name_eq
  | none =>
    dsimp only
    split
    · rename_i halways
      refine hcompile.bind fun a => .fact fun hmade s hs => ?_
      exact ⟨.made hmade, e, .passed halways, hs.engine, hs.memories, hs.disk⟩
    · rename_i halways
      refine (ensures_load name halways).bind fun a => .fact fun hfound => ?_
      exact ensures_keep hfound.1 hfound.2

theorem ensures_evict (name : Text) :
    Ensures (At e host) (evict name)
      (fun _ => Leaves e host name { e with cache := e.cache.remove name })
      (Leaves e host name { e with cache := e.cache.remove name }) := by
  let e' : Engine := { e with cache := e.cache.remove name }
  unfold evict
  refine Ensures.bind (Q := fun _ => At e' host) ?_ fun _ => ?_
  · rintro s ⟨rfl, htexts⟩
    exact ⟨rfl, htexts⟩
  · refine .get fun s hs => Ensures.pre (P := At e' host) ?_ (by rintro _ rfl; exact hs)
    rw [hs.engine]
    refine (ensures_onDisk (Archive.ensures_remove (e'.recordPath name) host.disk)).mono ?_ ?_
    · rintro _ s ⟨hengine, hmemories, hdisk | hdisk⟩
      · exact ⟨hengine, hmemories, .same (by rw [hdisk]; exact ⟨rfl, rfl⟩)⟩
      · exact ⟨hengine, hmemories, by rw [hdisk]; exact .erased⟩
    · rintro s ⟨hengine, hmemories, hdisk⟩
      exact ⟨hengine, hmemories, .same (by rw [hdisk]; exact ⟨rfl, rfl⟩)⟩

end Session

/-! ## Failures -/

/--
A request that fails, for whatever cause and however far it came, has changed neither the cache nor
any file; directories it may have made. The texts in memory stay as well.
-/
theorem unchanged_of_error {s s' : Session} {name : Text} {cause : EngineError}
    (h : Session.resolve name s = .error cause s' ∨
      ∃ persist, Session.compile name persist s = .error cause s') :
    s'.engine = s.engine ∧ s'.host.disk.files = s.host.disk.files ∧
      s.host.SameMemories s'.host := by
  have hat : Session.At s.engine s.host s := ⟨rfl, rfl, fun _ => rfl⟩
  have hunchanged : Session.Unchanged s.engine s.host s' := by
    rcases h with hresolve | ⟨persist, hcompile⟩
    · exact (Session.ensures_resolve name).of_error hat hresolve
    · exact (Session.ensures_compile name persist).of_error hat hcompile
  exact ⟨hunchanged.engine, hunchanged.files.1, hunchanged.memories⟩

/-! A stale template is compiled, but there is no way to its record in the archive. -/

namespace Blocked

def name : Text := ['t']

def empty : Engine where
  options := ⟨0x80⟩
  archive := { directory := ['d', '/', 'e'], extension := ['a', '/', 'b'] }
  source := .memory ['m']

def stale : Shared := ⟨0, empty.artifact name ['o', 'l', 'd'] (some (.source 2))⟩

def engine : Engine := { empty with cache := (Cache.suited empty.options).insert stale }

def host : Host := Host.edit ⟨{ clock := 5 }, {}, 1⟩ ['m'] name ⟨['x'], 3⟩

/-- The directories that a run has left, if it failed. -/
def directoriesOf? (r : EStateM.Result EngineError Session α) : Option (List Place) :=
  match r with
  | .ok _ _ => none
  | .error _ s => some s.host.disk.directories

end Blocked

open Blocked in
theorem unchanged_of_error_blocked :
    ∃ cause s, Session.resolve name ⟨engine, host⟩ = .error cause s ∧
      host.disk.directories = [] ∧ s.host.disk.directories = [[['d'], ['e']], [['d']]] ∧
      (s.engine.cache.get? name).map (·.artifact.code) = some ['o', 'l', 'd'] ∧
      s.host.disk.files = host.disk.files := by
  have hfailed : directoriesOf? (Session.resolve name ⟨engine, host⟩) =
      some [[['d'], ['e']], [['d']]] := by decide +kernel
  cases hresolve : Session.resolve name ⟨engine, host⟩ with
  | ok shared s =>
    rw [hresolve] at hfailed
    cases hfailed
  | error cause s =>
    rw [hresolve] at hfailed
    obtain ⟨hengine, hfiles, -⟩ := unchanged_of_error (.inl hresolve)
    refine ⟨cause, s, rfl, rfl, Option.some.inj hfailed, ?_, hfiles⟩
    rw [hengine]
    decide +kernel

end Stencil
