import Stencil.Archive

/-!
# Places of records

Work on a disk is described by what it ensures, for runs that succeed and for runs that fail. A path
leads to one place whatever is on the disk, so an archive touches no file but the one at the place of
the path it was given.
-/

namespace Stencil

/-! ## What runs ensure -/

theorem run_get (s : σ) : (get : EStateM ε σ σ) s = .ok s s := rfl

theorem run_bind_of_ok {m : EStateM ε σ α} {f : α → EStateM ε σ β} {a : α} {s s' : σ}
    (h : m s = .ok a s') : (m >>= f) s = f a s' := by
  simp [bind, EStateM.bind, h]

theorem run_bind_of_error {m : EStateM ε σ α} {f : α → EStateM ε σ β} {e : ε} {s s' : σ}
    (h : m s = .error e s') : (m >>= f) s = .error e s' := by
  simp [bind, EStateM.bind, h]

/-- From a state with `P`, a run of `m` ends in `Q`, or fails and leaves `E` behind. -/
def Ensures (P : σ → Prop) (m : EStateM ε σ α) (Q : α → σ → Prop) (E : σ → Prop) : Prop :=
  ∀ s, P s → match m s with
    | .ok a s' => Q a s'
    | .error _ s' => E s'

namespace Ensures

variable {ε σ α β : Type} {P : σ → Prop} {Q : α → σ → Prop} {E : σ → Prop} {m : EStateM ε σ α}

protected theorem intro (hQ : ∀ s a s', P s → m s = .ok a s' → Q a s')
    (hE : ∀ s e s', P s → m s = .error e s' → E s') : Ensures P m Q E := by
  intro s hs
  cases hrun : m s with
  | ok a s' => exact hQ s a s' hs hrun
  | error e s' => exact hE s e s' hs hrun

theorem of_ok {s s' : σ} {a : α} (h : Ensures P m Q E) (hs : P s) (hrun : m s = .ok a s') :
    Q a s' := by
  have last := h s hs
  rwa [hrun] at last

theorem of_error {s s' : σ} {e : ε} (h : Ensures P m Q E) (hs : P s) (hrun : m s = .error e s') :
    E s' := by
  have last := h s hs
  rwa [hrun] at last

protected theorem bind {R : β → σ → Prop} {f : α → EStateM ε σ β} (hm : Ensures P m Q E)
    (hf : ∀ a, Ensures (Q a) (f a) R E) : Ensures P (m >>= f) R E := by
  intro s hs
  have first := hm s hs
  simp only [Bind.bind, EStateM.bind]
  cases hrun : m s with
  | ok a s' =>
    rw [hrun] at first
    exact hf a s' first
  | error e s' =>
    rw [hrun] at first
    exact first

protected theorem tryCatch {F : σ → Prop} {handle : ε → EStateM ε σ α} (hm : Ensures P m Q F)
    (hh : ∀ e, Ensures F (handle e) Q E) : Ensures P (tryCatch m handle) Q E := by
  intro s hs
  have first := hm s hs
  simp only [MonadExcept.tryCatch, tryCatchThe, MonadExceptOf.tryCatch]
  delta EStateM.tryCatch
  cases hrun : m s with
  | ok a s' =>
    rw [hrun] at first
    exact first
  | error e s' =>
    rw [hrun] at first
    exact hh e s' first

protected theorem pre {P' : σ → Prop} (hm : Ensures P m Q E) (hP : ∀ s, P' s → P s) :
    Ensures P' m Q E :=
  fun s hs => hm s (hP s hs)

protected theorem get {f : σ → EStateM ε σ α} (h : ∀ s, P s → Ensures (· = s) (f s) Q E) :
    Ensures P (get >>= f) Q E :=
  fun s hs => h s hs s rfl

protected theorem fact {p : Prop} (h : p → Ensures P m Q E) : Ensures (fun s => P s ∧ p) m Q E :=
  fun s hs => h hs.2 s hs.1

protected theorem guard {c : Prop} [Decidable c] {e : ε} {f : PUnit → EStateM ε σ α}
    (hE : ∀ s, P s → E s) (h : ¬ c → Ensures P m Q E) :
    Ensures P (if c then throw e >>= f else m) Q E := by
  split
  · exact hE
  · rename_i hc
    exact h hc

protected theorem mono {Q' : α → σ → Prop} {E' : σ → Prop} (hm : Ensures P m Q E)
    (hQ : ∀ a s, Q a s → Q' a s) (hE : ∀ s, E s → E' s) : Ensures P m Q' E' := by
  refine .intro ?_ ?_
  · intro s a s' hs hrun
    exact hQ a s' (hm.of_ok hs hrun)
  · intro s e s' hs hrun
    exact hE s' (hm.of_error hs hrun)

end Ensures

/-! ## Where paths lead -/

namespace Path

theorem pieces_of_not_mem {path : Text} (h : '/' ∉ path) : pieces path = [path] := by
  induction path with
  | nil => rfl
  | cons c rest ih =>
    rw [List.mem_cons, not_or] at h
    rw [pieces, if_neg (Ne.symm h.1), ih h.2]

theorem isAbsolute_of_not_mem {path : Text} (h : '/' ∉ path) : isAbsolute path = false :=
  decide_eq_false fun hslash => h (List.mem_of_head? hslash)

theorem named_of_length {piece : Text} (h : 2 < piece.length) :
    ¬ isIdle piece = true ∧ piece ≠ ['.', '.'] := by
  refine ⟨?_, ?_⟩
  · intro hidle
    rcases Bool.or_eq_true_iff.mp hidle with hidle | hidle <;>
      rw [of_decide_eq_true hidle] at h <;> contradiction
  · rintro rfl
    contradiction

theorem pieces_append (dir path : Text) :
    pieces (dir ++ '/' :: path) = pieces dir ++ pieces path := by
  induction dir with
  | nil => simp [pieces]
  | cons c rest ih =>
    rw [List.cons_append, pieces, pieces, ih]
    split
    · rfl
    · cases hpieces : pieces rest with
      | nil => exact absurd hpieces (pieces_ne_nil rest)
      | cons piece more => rfl

/-- The pieces of a directory to which those of a joined path are added: a slash at the end makes no
piece of its own. -/
def stem (dir : Text) : List Text :=
  if dir.isEmpty || dir.getLast? = some '/' then (pieces dir).dropLast else pieces dir

theorem pieces_concat_slash (front : Text) : pieces (front ++ ['/']) = pieces front ++ [[]] :=
  pieces_append front []

theorem pieces_eq_stem (dir : Text) : pieces dir = stem dir ∨ pieces dir = stem dir ++ [[]] := by
  unfold stem
  split
  · rename_i hend
    right
    rcases Bool.or_eq_true_iff.mp hend with hempty | hslash
    · rw [List.isEmpty_iff.mp hempty]
      rfl
    · obtain ⟨front, rfl⟩ := List.getLast?_eq_some_iff.mp (of_decide_eq_true hslash)
      rw [pieces_concat_slash, List.dropLast_concat]
  · exact .inl rfl

theorem pieces_join {dir path : Text} (h : isAbsolute path = false) :
    pieces (join dir path) = stem dir ++ pieces path := by
  unfold join stem
  rw [if_neg (by simp [h])]
  split
  · rename_i hend
    rcases Bool.or_eq_true_iff.mp hend with hempty | hslash
    · rw [List.isEmpty_iff.mp hempty]
      rfl
    · obtain ⟨front, rfl⟩ := List.getLast?_eq_some_iff.mp (of_decide_eq_true hslash)
      rw [pieces_concat_slash, List.dropLast_concat, List.append_assoc]
      exact pieces_append front path
  · exact pieces_append dir path

theorem foldl_stem {f : β → Text → β} (hidle : ∀ b, f b [] = b) (b : β) (dir : Text) :
    (stem dir).foldl f b = (pieces dir).foldl f b := by
  rcases pieces_eq_stem dir with hstem | hstem
  · rw [hstem]
  · rw [hstem, List.foldl_append, List.foldl_cons, hidle, List.foldl_nil]

end Path

namespace Disk

/-- Where one piece of a path leads to, if it leads anywhere. -/
def stepTo (place : Place) (piece : Text) : Place :=
  if Path.isIdle piece then place
  else if piece = ['.', '.'] then place.dropLast
  else place ++ [piece]

/-- The one place that a path can lead to. -/
def placeOf (path : Text) : Place := (Path.pieces path).foldl stepTo []

theorem placeOf_join {dir file : Text} (hslash : '/' ∉ file) (hlong : 2 < file.length) :
    placeOf (Path.join dir file) = placeOf dir ++ [file] := by
  have hstep : ∀ place, stepTo place file = place ++ [file] := by
    intro place
    obtain ⟨hidle, hup⟩ := Path.named_of_length hlong
    rw [stepTo, if_neg hidle, if_neg hup]
  have hidle : ∀ place, stepTo place [] = place := fun _ => rfl
  rw [placeOf, Path.pieces_join (Path.isAbsolute_of_not_mem hslash), Path.pieces_of_not_mem hslash, List.foldl_append,
    Path.foldl_stem hidle]
  exact hstep _

theorem child_eq {place next : Place} {name : Text} (h : child place name = .ok next) :
    next = place ++ [name] := by
  unfold child at h
  split at h
  · cases h
  · cases h
    rfl

theorem follow_eq {d : Disk} {place next : Place} {piece : Text}
    (h : d.follow place piece = .ok next) : next = stepTo place piece := by
  unfold follow at h
  unfold stepTo
  split at h
  · cases h
  split at h
  · rename_i hidle
    rw [if_pos hidle]
    cases h
    rfl
  rename_i hidle
  rw [if_neg hidle]
  split at h
  · rename_i hup
    rw [if_pos hup]
    cases h
    rfl
  rename_i hup
  rw [if_neg hup]
  cases hchild : child place piece with
  | error e =>
    rw [hchild] at h
    cases h
  | ok there =>
    rw [hchild] at h
    simp only [bind, Except.bind] at h
    split at h
    · cases h
      exact child_eq hchild
    · cases h

theorem foldlM_follow {d : Disk} {pieces : List Text} {place last : Place}
    (h : pieces.foldlM d.follow place = .ok last) : last = pieces.foldl stepTo place := by
  induction pieces generalizing place with
  | nil =>
    cases h
    rfl
  | cons piece more ih =>
    rw [List.foldlM_cons] at h
    cases hnext : d.follow place piece with
    | error e =>
      rw [hnext] at h
      cases h
    | ok next =>
      rw [hnext] at h
      rw [List.foldl_cons, ← follow_eq hnext]
      exact ih h

theorem locate_eq {d : Disk} {path : Text} {place : Place} (h : d.locate path = .ok place) :
    place = placeOf path := by
  unfold locate at h
  cases hcheck : checkPath path with
  | error e =>
    rw [hcheck] at h
    cases h
  | ok _ =>
    rw [hcheck] at h
    exact foldlM_follow h

theorem file?_of_read {d : Disk} {path : Text} {file : File} (h : d.read path = .ok file) :
    d.file? (placeOf path) = some file := by
  unfold read at h
  cases hplace : d.locate path with
  | error e =>
    rw [hplace] at h
    cases h
  | ok place =>
    rw [hplace] at h
    rw [← locate_eq hplace]
    simp only [bind, Except.bind] at h
    split at h
    · rename_i hfile
      cases h
      exact hfile
    · cases h

theorem decode?_of_readText {d : Disk} {path text : Text} {file : File}
    (htext : d.readText path = .ok text) (hfile : d.read path = .ok file) :
    Text.decode? file.content = some text := by
  unfold readText at htext
  rw [hfile] at htext
  simp only [bind, Except.bind] at htext
  split at htext
  · rename_i hdecode
    cases htext
    exact hdecode
  · cases htext

theorem stepTo_of_isPlain {t : Target} (h : t.isPlain = true) (place : Place) :
    stepTo place t.name = place ++ [t.name] := by
  unfold Target.isPlain at h
  obtain ⟨hidle, hup⟩ := Bool.and_eq_true_iff.mp h
  unfold stepTo
  rw [if_neg (by simpa using hidle), if_neg (by simpa using hup)]

theorem trimmed_eq {pieces : List Text}
    (h : pieces.length ≤ (pieces.reverse.dropWhile List.isEmpty).reverse.length) :
    (pieces.reverse.dropWhile List.isEmpty).reverse = pieces := by
  have hsuffix : pieces.reverse.dropWhile List.isEmpty <:+ pieces.reverse :=
    List.dropWhile_suffix List.isEmpty
  rw [hsuffix.eq_of_length_le (by simpa using h), List.reverse_reverse]

theorem foldl_last (f : β → α → β) {b : β} {l : List α} (h : l ≠ []) :
    f (l.dropLast.foldl f b) (l.getLast h) = l.foldl f b := by
  calc f (l.dropLast.foldl f b) (l.getLast h)
      = (l.dropLast ++ [l.getLast h]).foldl f b := by rw [List.foldl_append]; rfl
    _ = l.foldl f b := by rw [List.dropLast_concat_getLast h]

/-- A plain name with no slash behind it is the last piece of its path. -/
theorem target_eq {d : Disk} {path : Text} {t : Target} (h : d.target path = .ok t)
    (hplain : t.isPlain = true) (hslash : t.slashed = false) :
    t.directory ++ [t.name] = placeOf path := by
  unfold target at h
  cases hcheck : checkPath path with
  | error e =>
    rw [hcheck] at h
    cases h
  | ok _ =>
    rw [hcheck] at h
    simp only [bind, Except.bind] at h
    split at h
    · cases h
    · rename_i directory hdirectory
      split at h
      · cases h
      · cases h
        have hpieces := trimmed_eq (Nat.le_of_not_lt (of_decide_eq_false hslash))
        have hfilled := Path.pieces_ne_nil path
        rw [← stepTo_of_isPlain hplain, foldlM_follow hdirectory, hpieces,
          List.getLast?_eq_some_getLast hfilled, Option.getD_some, placeOf]
        exact foldl_last stepTo hfilled

/-! ## Changes -/

/-- The disks differ in their directories at most. -/
def SameFiles (d d' : Disk) : Prop := d'.files = d.files ∧ d'.clock = d.clock

theorem ensures_ofExcept {r : Except DiskError α} {f : α → Change β} {P : Disk → Prop}
    {Q : β → Disk → Prop} {E : Disk → Prop} (hE : ∀ d, P d → E d)
    (h : ∀ a, r = .ok a → Ensures P (f a) Q E) : Ensures P (ofExcept r >>= f) Q E := by
  cases r with
  | ok a => exact h a rfl
  | error e => exact hE

theorem ensures_makeDirectory (path : Text) (d : Disk) :
    Ensures (SameFiles d) (makeDirectory path) (fun _ => SameFiles d) (SameFiles d) := by
  unfold makeDirectory
  refine .get fun d' hd => ?_
  have stay : ∀ d'', d'' = d' → SameFiles d d'' := fun _ h => h ▸ hd
  refine ensures_ofExcept stay fun t _ => ?_
  refine .guard stay fun _ => ?_
  refine ensures_ofExcept stay fun place _ => ?_
  refine .guard stay fun _ => ?_
  rintro _ rfl
  exact hd

theorem ensures_ensureDirectory (path : Text) (d : Disk) :
    Ensures (SameFiles d) (ensureDirectory path) (fun _ => SameFiles d) (SameFiles d) := by
  unfold ensureDirectory
  refine (ensures_makeDirectory path d).tryCatch fun cause => ?_
  refine .get fun d' hd => ?_
  split
  · rintro _ rfl
    exact hd
  · rintro _ rfl
    exact hd

theorem ensures_makeDirectories (path : Text) (d : Disk) :
    Ensures (SameFiles d) (makeDirectories path) (fun _ => SameFiles d) (SameFiles d) := by
  have stay : ∀ d', SameFiles d d' → SameFiles d d' := fun _ h => h
  fun_induction makeDirectories path with
  | case1 => exact stay
  | case2 path _ ih =>
    refine (ensures_ensureDirectory path d).tryCatch fun cause => ?_
    split
    · split
      · rename_i outer houter
        exact (ih outer houter).bind fun _ => ensures_ensureDirectory path d
      · exact stay
    · exact stay

theorem ensures_enter (path : Text) (d : Disk) :
    Ensures (SameFiles d) (enter path) (fun _ => SameFiles d) (SameFiles d) := by
  unfold enter
  refine (ensures_makeDirectories path d).bind fun _ => ?_
  split
  · exact fun _ h => h
  · refine .get fun d' hd => ?_
    have stay : ∀ d'', d'' = d' → SameFiles d d'' := fun _ h => h ▸ hd
    cases d'.locate path with
    | ok place => exact stay
    | error e => exact stay

theorem file?_of_spare? {d : Disk} {home : Place} {name : Text} (h : d.spare? home = some name) :
    d.file? (home ++ [name]) = none := by
  have hfree := List.find?_some h
  simp only [isThere, Bool.not_eq_true', Bool.or_eq_false_iff, Option.isSome_eq_false_iff,
    Option.isNone_iff_eq_none] at hfree
  exact hfree.2

theorem ensures_makeTemporary (home : Place) (d : Disk) :
    Ensures (· = d) (makeTemporary home)
      (fun name d' => d.file? (home ++ [name]) = none ∧
        d' = d.putFile (home ++ [name]) ⟨.empty, d.clock⟩) (· = d) := by
  unfold makeTemporary
  refine .get ?_
  rintro _ rfl
  split
  · rename_i hspare
    rintro _ rfl
    exact ⟨file?_of_spare? hspare, rfl⟩
  · exact fun _ h => h

theorem ensures_fill (place : Place) (content : ByteArray) (d : Disk) :
    Ensures (· = d) (fill place content)
      (fun _ d' => d' = d.putFile place ⟨content, d.clock⟩)
      (fun d' => ∃ part, d' = d.putFile place ⟨part, d.clock⟩) := by
  unfold fill
  refine .get fun d hd => ?_
  subst hd
  refine Ensures.bind (Q := fun _ d' => d' = _) (fun _ _ => rfl) fun _ => ?_
  split
  · rintro _ rfl
    exact ⟨_, rfl⟩
  · rename_i hroom
    rintro _ rfl
    have hwhole : content.extract 0 (d.room?.getD content.size) = content := by
      refine ByteArray.ext ?_
      rw [ByteArray.data_extract]
      exact Array.extract_eq_self_of_le (Nat.le_of_not_lt hroom)
    rw [hwhole]
    rfl

theorem ensures_move (source : Place) (path : Text) (d : Disk) :
    Ensures (· = d) (move source path)
      (fun _ d' => ∃ file, d.file? source = some file ∧
        d'.files = (d.files.erase source).put (placeOf path) file ∧ d'.clock = d.clock + 1)
      (· = d) := by
  have stay : ∀ d', d' = d → d' = d := fun _ h => h
  unfold move
  refine .get ?_
  rintro _ rfl
  refine .guard stay fun _ => ?_
  refine ensures_ofExcept stay fun t ht => ?_
  refine .guard stay fun hplain => ?_
  refine ensures_ofExcept stay fun place hplace => ?_
  refine .guard stay fun hslash => ?_
  refine .guard stay fun _ => ?_
  refine .guard stay fun _ => ?_
  split
  · rename_i file hfile
    rintro _ rfl
    refine ⟨file, hfile, ?_, rfl⟩
    rw [child_eq hplace, target_eq ht (by simpa using hplain) (by simpa using hslash)]
    rfl
  · exact stay

theorem ensures_remove (path : Text) (d : Disk) :
    Ensures (· = d) (remove path) (fun _ d' => d' = d.eraseFile (placeOf path)) (· = d) := by
  have stay : ∀ d', d' = d → d' = d := fun _ h => h
  unfold remove
  refine .get ?_
  rintro _ rfl
  refine ensures_ofExcept stay fun t ht => ?_
  refine .guard stay fun hplain => ?_
  refine ensures_ofExcept stay fun place hplace => ?_
  refine .guard stay fun _ => ?_
  refine .guard stay fun _ => ?_
  refine .guard stay fun hslash => ?_
  rintro _ rfl
  rw [child_eq hplace, target_eq ht (by simpa using hplain) (by simpa using hslash)]
  rfl

end Disk

namespace Archive

/-! ## Access -/

/-- The place of a template's record. -/
def recordPlace (a : Archive) (name : Text) (options : Options) : Place :=
  Disk.placeOf (a.recordPath name options)

theorem not_mem_ofNat {c : Char} (h : c.isDigit = false) (n : Nat) : c ∉ Text.ofNat n := by
  intro hmem
  rw [Nat.isDigit_of_mem_toDigits (by decide) (by decide) hmem] at h
  cases h

theorem slash_not_mem_fileName {a : Archive} (h : '/' ∉ a.extension) (name : Text)
    (options : Options) : '/' ∉ a.fileName name options := by
  have hdigits : ∀ n, '/' ∉ Text.ofNat n := not_mem_ofNat (by decide)
  have hsegment : '/' ∉ lastSegment name := by
    intro hmem
    exact absurd (List.all_eq_true.mp List.all_takeWhile _ (List.mem_reverse.mp hmem)) (by decide)
  simp [fileName, hsegment, hdigits, h]

theorem two_lt_length_fileName (a : Archive) (name : Text) (options : Options) :
    2 < (a.fileName name options).length := by
  simp only [fileName, List.length_append, List.length_cons]
  omega

theorem recordPlace_eq {a : Archive} (h : '/' ∉ a.extension) (name : Text) (options : Options) :
    a.recordPlace name options = Disk.placeOf a.directory ++ [a.fileName name options] :=
  Disk.placeOf_join (slash_not_mem_fileName h name options) (two_lt_length_fileName a name options)

theorem ensures_attempt (context : DiskError → ArchiveError) {change : Disk.Change α}
    {P E : Disk → Prop} {Q : α → Disk → Prop} (h : Ensures P change Q E) :
    Ensures P (attempt context change) Q E := by
  refine .intro ?_ ?_
  · intro d a d' hd hrun
    unfold attempt at hrun
    split at hrun
    · rename_i hdone
      cases hrun
      exact h.of_ok hd hdone
    · cases hrun
  · intro d e d' hd hrun
    unfold attempt at hrun
    split at hrun
    · cases hrun
    · rename_i hcause
      cases hrun
      exact h.of_error hd hcause

theorem ensures_read? (path : Text) (d : Disk) :
    Ensures (· = d) (read? path)
      (fun found d' => d' = d ∧ ∀ record ∈ found, ∃ file, d.file? (Disk.placeOf path) = some file ∧
        Text.decode? file.content = some record.code ∧ file.modified = record.written) (· = d) := by
  refine .intro ?_ ?_
  · rintro d found d' rfl hrun
    unfold read? at hrun
    split at hrun
    · rename_i code file htext hfile
      cases hrun
      refine ⟨rfl, ?_⟩
      rintro _ ⟨⟩
      exact ⟨file, Disk.file?_of_read hfile, Disk.decode?_of_readText htext hfile, rfl⟩
    · cases hrun
      refine ⟨rfl, ?_⟩
      rintro _ ⟨⟩
    · cases hrun
    · cases hrun
  · rintro d _ d' rfl hrun
    unfold read? at hrun
    split at hrun <;> cases hrun <;> rfl

/-- Until a file is moved into place it is the only one that differs. -/
theorem ensures_complete (temporary : Place) (temporaryPath path code : Text) (d : Disk)
    (content : ByteArray) :
    Ensures (· = d.putFile temporary ⟨content, d.clock⟩) (complete temporary temporaryPath path code)
      (fun _ d' => d'.files = (d.files.erase temporary).put (Disk.placeOf path) ⟨code.encode, d.clock⟩ ∧
        d'.clock = d.clock + 1)
      (fun d' => d'.files.erase temporary = d.files.erase temporary ∧ d'.clock = d.clock) := by
  unfold complete
  have hfilled := ensures_attempt (.unwritten temporaryPath)
    (Disk.ensures_fill temporary code.encode (d.putFile temporary ⟨content, d.clock⟩))
  refine (hfilled.mono (fun _ _ h => h) ?_).bind fun _ => ?_
  · rintro _ ⟨part, rfl⟩
    simp [Disk.putFile]
  · refine (ensures_attempt (.unmoved path) (Disk.ensures_move temporary path _)).mono ?_ ?_
    · rintro _ d' ⟨file, hfile, hfiles, hclock⟩
      have hwhole : file = ⟨code.encode, d.clock⟩ :=
        (Option.some.inj ((Table.get?_put_self _ _ _).symm.trans hfile)).symm
      subst hwhole
      exact ⟨by simpa [Disk.putFile] using hfiles, hclock⟩
    · rintro _ rfl
      simp [Disk.putFile]

/-- The file that is moved into place leaves nothing behind where it was written, nor does it if it
cannot be moved. -/
theorem ensures_write (a : Archive) (path code : Text) (d : Disk) :
    Ensures (· = d) (a.write path code)
      (fun _ d' =>
        d'.files = d.files.put (Disk.placeOf path) ⟨code.encode, d.clock⟩ ∧ d'.clock = d.clock + 1)
      (Disk.SameFiles d) := by
  unfold write
  have hentered := ensures_attempt (.closed a.directory) (Disk.ensures_enter a.directory d)
  refine Ensures.bind (Q := fun _ => Disk.SameFiles d) ?_ fun home => ?_
  · rintro _ rfl
    exact hentered _ ⟨rfl, rfl⟩
  rintro d₁ ⟨hfiles, hclock⟩
  have hmade := ensures_attempt (.closed a.directory) (Disk.ensures_makeTemporary home d₁)
  refine (hmade.mono (fun _ _ h => h) ?_).bind (fun name => ?_) d₁ rfl
  · rintro _ rfl
    exact ⟨hfiles, hclock⟩
  rintro _ ⟨hfree, rfl⟩
  have herased : d₁.files.erase (home ++ [name]) = d.files := by
    rw [Table.erase_of_none hfree, hfiles]
  have hcompleted := ensures_complete (home ++ [name]) (Path.join a.directory name) path code d₁
  refine ((hcompleted .empty).mono ?_ fun _ h => h).tryCatch (fun cause => ?_) _ rfl
  · rintro _ d' ⟨hfiles', hclock'⟩
    rw [herased, hclock] at hfiles'
    rw [hclock] at hclock'
    exact ⟨hfiles', hclock'⟩
  · rintro d' ⟨hfiles', hclock'⟩
    exact ⟨hfiles'.trans herased, hclock'.trans hclock⟩

theorem ensures_remove (path : Text) (d : Disk) :
    Ensures (· = d) (remove path)
      (fun _ d' => d' = d ∨ d' = d.eraseFile (Disk.placeOf path)) (· = d) := by
  have hmove := Disk.ensures_remove path d
  refine .intro ?_ ?_
  · rintro d _ d' rfl hrun
    unfold remove at hrun
    split at hrun
    · rename_i hdone
      cases hrun
      exact .inr (hmove.of_ok rfl hdone)
    · rename_i hmissing
      cases hrun
      exact .inl (hmove.of_error rfl hmissing)
    · cases hrun
  · rintro d _ d' rfl hrun
    unfold remove at hrun
    split at hrun
    · cases hrun
    · cases hrun
    · rename_i hcause
      cases hrun
      exact hmove.of_error rfl hcause

end Archive

end Stencil
