import Stencil.Proofs.Places

/-!
# Removing files

A file that has been removed is missing afterwards: its path leads nowhere, and there is nothing to
remove a second time. The way to the file leads through directories only, which all stay.
-/

namespace Stencil

namespace Disk

variable {d d' : Disk} {path : Text} {t : Target} {place : Place}

/-! ## The last step of a path -/

/-- The pieces of a path up to the name of its target, and the empty ones behind it. -/
structure Target.Ends (t : Target) (d : Disk) (path : Text) (front back : List Text) : Prop where
  checked : checkPath path = .ok ()
  pieces : Path.pieces path = front ++ t.name :: back
  front : front.foldlM d.follow [] = .ok t.directory
  isDirectory : d.isDirectory t.directory = true
  back : t.slashed = false → back = []

/-- The pieces of a path up to the last one that is not empty. -/
def trimmed (path : Text) : List Text :=
  ((Path.pieces path).reverse.dropWhile List.isEmpty).reverse

theorem trimmed_starts (path : Text) : trimmed path <+: Path.pieces path :=
  List.reverse_suffix.mp (by simpa [trimmed] using List.dropWhile_suffix List.isEmpty)

theorem target_of_checked (hcheck : checkPath path = .ok ()) :
    d.target path = match (trimmed path).dropLast.foldlM d.follow [] with
      | .error cause => .error cause
      | .ok directory =>
        if d.isDirectory directory then
          .ok ⟨directory, (trimmed path).getLast?.getD [],
            (trimmed path).length < (Path.pieces path).length⟩
        else .error .notDirectory := by
  have htrimmed : ((Path.pieces path).reverse.dropWhile List.isEmpty).reverse = trimmed path := rfl
  simp only [target, hcheck, bind, Except.bind, htrimmed]
  cases (trimmed path).dropLast.foldlM d.follow [] with
  | error cause => rfl
  | ok directory => cases hdirectory : d.isDirectory directory <;> simp [hdirectory] <;> rfl

theorem target_eq_ok_iff :
    d.target path = .ok t ↔ checkPath path = .ok () ∧
      (trimmed path).dropLast.foldlM d.follow [] = .ok t.directory ∧
      d.isDirectory t.directory = true ∧ t.name = (trimmed path).getLast?.getD [] ∧
      t.slashed = decide ((trimmed path).length < (Path.pieces path).length) := by
  cases hcheck : checkPath path with
  | error cause => simp [target, hcheck, bind, Except.bind]
  | ok _ =>
    rw [target_of_checked hcheck]
    split
    · rename_i hfront
      rw [hfront]
      constructor
      · nofun
      · rintro ⟨-, ⟨⟩, -⟩
    rename_i directory hfront
    rw [hfront]
    obtain ⟨home, name, slashed⟩ := t
    split
    · rename_i hdirectory
      constructor
      · rintro ⟨⟩
        exact ⟨rfl, rfl, hdirectory, rfl, rfl⟩
      · rintro ⟨-, ⟨⟩, -, rfl, rfl⟩
        rfl
    · rename_i hdirectory
      constructor
      · nofun
      · rintro ⟨-, ⟨⟩, hhome, -⟩
        exact absurd hhome hdirectory

theorem ends_of_target (h : d.target path = .ok t) (hplain : t.isPlain = true) :
    ∃ front back, t.Ends d path front back := by
  obtain ⟨hcheck, hfront, hdirectory, hname, hslashed⟩ := target_eq_ok_iff.mp h
  obtain ⟨back, hback⟩ := trimmed_starts path
  cases hlast : (trimmed path).getLast? with
  | none => simp [Target.isPlain, hname, hlast, Path.isIdle] at hplain
  | some last =>
    obtain ⟨front, htrimmed⟩ := List.getLast?_eq_some_iff.mp hlast
    rw [htrimmed, List.dropLast_concat] at hfront
    rw [hlast, Option.getD_some] at hname
    refine ⟨front, back, hcheck, ?_, hfront, hdirectory, fun hslash => ?_⟩
    · rw [← hback, htrimmed, hname, List.append_assoc, List.singleton_append]
    · rw [hslashed] at hslash
      simpa [← hback] using of_decide_eq_false hslash

theorem Target.Ends.locate_eq {front back : List Text} (h : t.Ends d path front back) :
    d.locate path = d.follow t.directory t.name >>= back.foldlM d.follow := by
  simp [locate, h.checked, h.pieces, List.foldlM_append, h.front, bind, Except.bind]

theorem follow_target (hplain : t.isPlain = true) (hdirectory : d.isDirectory t.directory = true)
    (hplace : child t.directory t.name = .ok place) :
    d.follow t.directory t.name = if d.isThere place then .ok place else .error .missing := by
  obtain ⟨hidle, hup⟩ := Bool.and_eq_true_iff.mp hplain
  unfold follow
  rw [if_neg (by simpa using hdirectory), if_neg (by simpa using hidle),
    if_neg (by simpa using hup), hplace]
  rfl

/-- A way that breaks off before its last step leads nowhere. -/
theorem locate_of_target_missing (h : d.target path = .error .missing) :
    d.locate path = .error .missing := by
  cases hcheck : checkPath path with
  | error cause =>
    simp only [target, hcheck, bind, Except.bind] at h
    cases h
    simp [locate, hcheck, bind, Except.bind]
  | ok _ =>
    rw [target_of_checked hcheck] at h
    split at h
    · rename_i hfront
      cases h
      obtain ⟨more, hmore⟩ := (List.dropLast_prefix _).trans (trimmed_starts path)
      simp [locate, hcheck, ← hmore, List.foldlM_append, hfront, bind, Except.bind]
    · split at h <;> cases h

/-! ## Disks with the same directories -/

section

variable (hsame : d'.directories = d.directories)

include hsame

theorem isDirectory_of_same (place : Place) : d'.isDirectory place = d.isDirectory place := by
  unfold isDirectory
  rw [hsame]

theorem follow_of_same {next : Place} {piece : Text} (h : d.follow place piece = .ok next)
    (hnext : d.isDirectory next = true) : d'.follow place piece = .ok next := by
  have hthere : d'.isThere next = true := by simp [isThere, isDirectory_of_same hsame, hnext]
  unfold follow at h ⊢
  rw [isDirectory_of_same hsame]
  split at h
  · cases h
  rename_i hplace
  rw [if_neg hplace]
  split at h
  · rename_i hidle
    rw [if_pos hidle, h]
  rename_i hidle
  rw [if_neg hidle]
  split at h
  · rename_i hup
    rw [if_pos hup, h]
  rename_i hup
  rw [if_neg hup]
  cases hchild : child place piece with
  | error e => simp [hchild, bind, Except.bind] at h
  | ok other =>
    simp only [hchild, bind, Except.bind] at h ⊢
    split at h
    · cases h
      rw [if_pos hthere]
      rfl
    · cases h

theorem foldlM_follow_of_same {pieces : List Text} {last : Place}
    (h : pieces.foldlM d.follow place = .ok last) (hlast : d.isDirectory last = true) :
    pieces.foldlM d'.follow place = .ok last ∧ d.isDirectory place = true := by
  induction pieces generalizing place with
  | nil =>
    cases h
    exact ⟨rfl, hlast⟩
  | cons piece more ih =>
    rw [List.foldlM_cons] at h ⊢
    cases hnext : d.follow place piece with
    | error e => simp [hnext, bind, Except.bind] at h
    | ok next =>
      rw [hnext] at h
      -- What comes next is followed further, so it is a directory and there on both disks.
      obtain ⟨hmore, hdirectory⟩ := ih h
      refine ⟨?_, ?_⟩
      · rw [follow_of_same hsame hnext hdirectory]
        exact hmore
      · unfold follow at hnext
        split at hnext
        · cases hnext
        · rename_i hplace
          simpa using hplace

theorem target_of_same (h : d.target path = .ok t) : d'.target path = .ok t := by
  obtain ⟨hcheck, hfront, hdirectory, hlast⟩ := target_eq_ok_iff.mp h
  have hdirectory' : d'.isDirectory t.directory = true := by rwa [isDirectory_of_same hsame]
  exact target_eq_ok_iff.mpr
    ⟨hcheck, (foldlM_follow_of_same hsame hfront hdirectory).1, hdirectory', hlast⟩

end

/-! ## Removing -/

theorem remove_eq (path : Text) (d : Disk) :
    remove path d = match d.target path with
      | .error cause => .error cause d
      | .ok t =>
        if !t.isPlain then .error .isDirectory d
        else match child t.directory t.name with
          | .error cause => .error cause d
          | .ok place =>
            if d.isDirectory place then .error .isDirectory d
            else if (d.file? place).isNone then .error .missing d
            else if t.slashed then .error .notDirectory d
            else .ok () (d.eraseFile place) := by
  rw [remove, run_bind_of_ok (run_get d)]
  cases d.target path with
  | error cause => rfl
  | ok t =>
    change (if !t.isPlain then _ else _ : Change Unit) d = _
    dsimp only
    split
    · rfl
    cases child t.directory t.name with
    | error cause => rfl
    | ok place =>
      change (if d.isDirectory place then _ else _ : Change Unit) d = _
      dsimp only
      split
      · rfl
      split
      · rfl
      split <;> rfl

theorem child_ne_missing (place : Place) (name : Text) : child place name ≠ .error .missing := by
  unfold child
  split <;> nofun

theorem locate_of_remove_missing (h : remove path d = .error .missing d') :
    d' = d ∧ d.locate path = .error .missing := by
  rw [remove_eq] at h
  cases htarget : d.target path with
  | error cause =>
    rw [htarget] at h
    cases h
    exact ⟨rfl, locate_of_target_missing htarget⟩
  | ok t =>
    simp only [htarget] at h
    split at h
    · cases h
    rename_i hplain
    rw [Bool.not_eq_true, Bool.not_eq_false'] at hplain
    split at h
    · rename_i hplace
      cases h
      exact absurd hplace (child_ne_missing _ _)
    rename_i place hplace
    split at h
    · cases h
    rename_i hdirectory
    split at h
    · rename_i hfile
      cases h
      obtain ⟨front, back, hends⟩ := ends_of_target htarget hplain
      refine ⟨rfl, ?_⟩
      have habsent : d.isThere place = false := by simp_all [isThere]
      rw [hends.locate_eq, follow_target hplain hends.isDirectory hplace, habsent]
      rfl
    · split at h <;> cases h

theorem remove_twice (h : remove path d = .ok () d') :
    d.isFile path = true ∧ remove path d' = .error .missing d' := by
  rw [remove_eq] at h
  split at h
  · cases h
  rename_i t htarget
  split at h
  · cases h
  rename_i hplain
  split at h
  · cases h
  rename_i place hplace
  split at h
  · cases h
  rename_i hdirectory
  split at h
  · cases h
  rename_i hfile
  split at h
  · cases h
  rename_i hslash
  cases h
  constructor
  · obtain ⟨front, back, hends⟩ := ends_of_target htarget (by simpa using hplain)
    obtain ⟨file, hfile⟩ := Option.ne_none_iff_exists'.mp (mt Option.isNone_iff_eq_none.mpr hfile)
    have hlocate : d.locate path = .ok place := by
      rw [hends.locate_eq, follow_target (by simpa using hplain) hends.isDirectory hplace,
        hends.back (by simpa using hslash)]
      simp [isThere, hfile, bind, Except.bind, pure, Except.pure]
    simp [isFile, read, hlocate, hfile, bind, Except.bind, pure, Except.pure]
  · have hgone : (d.eraseFile place).file? place = none := Table.get?_erase_self _ _
    have hsame : (d.eraseFile place).directories = d.directories := rfl
    rw [remove_eq, target_of_same hsame htarget]
    simp [hplain, hplace, isDirectory_of_same hsame, hdirectory, hgone]

theorem isFile_of_locate_missing (h : d.locate path = .error .missing) : d.isFile path = false := by
  simp [isFile, read, h, bind, Except.bind]

end Disk

namespace Archive

variable {d d' : Disk} {path : Text}

theorem of_remove {removed : Bool} (h : remove path d = .ok removed d') :
    removed = d.isFile path ∧ d'.locate path = .error .missing ∧ remove path d' = .ok false d' := by
  unfold remove at h ⊢
  split at h
  · rename_i hremove
    cases h
    obtain ⟨hfile, hagain⟩ := Disk.remove_twice hremove
    rw [hagain]
    exact ⟨hfile.symm, (Disk.locate_of_remove_missing hagain).2, rfl⟩
  · rename_i hmissing
    cases h
    obtain ⟨rfl, hlocate⟩ := Disk.locate_of_remove_missing hmissing
    rw [hmissing]
    exact ⟨(Disk.isFile_of_locate_missing hlocate).symm, hlocate, rfl⟩
  · cases h

theorem read?_of_locate_missing (h : d.locate path = .error .missing) :
    read? path d = .ok none d := by
  have hread : d.read path = .error .missing := by simp [Disk.read, h, bind, Except.bind]
  simp [read?, Disk.readText, hread, bind, Except.bind]

end Archive

end Stencil
