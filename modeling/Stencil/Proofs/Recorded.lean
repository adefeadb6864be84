import Stencil.Proofs.Cuts
import Stencil.Proofs.Contained

/-!
# Paths of records

A record's file name ends with three marked fields, and the key of a template with one. The fields
of numbers hold digits only, so a name is read back from its end whatever stands in front: records
of different templates share a path only if their keys share digest and length.
-/

namespace Stencil

namespace Text

theorem ofNat_injective : Function.Injective ofNat := by
  intro m n h
  have hread := congrArg (fun digits => Nat.ofDigitChars 10 digits 0) h
  simpa [ofNat] using hread

end Text

namespace Archive

variable {a : Archive} {name name' : Text} {options options' : Options}

/-! ## Keys and file names are readable -/

theorem key_inj : key name options = key name' options' ↔ name = name' ∧ options = options' := by
  have hdigits : ∀ n, ':' ∉ Text.ofNat n := not_mem_ofNat (by decide)
  unfold key
  rw [Text.append_mark_inj (hdigits _) (hdigits _), Text.ofNat_injective.eq_iff, UInt32.toNat_inj]
  cases options
  cases options'
  simp

theorem fileName_inj : a.fileName name options = a.fileName name' options' ↔
    lastSegment name = lastSegment name' ∧
      Digest.ofBytes (key name options).encode = Digest.ofBytes (key name' options').encode ∧
      (key name options).encode.size = (key name' options').encode.size := by
  have hdigits : ∀ n, '.' ∉ Text.ofNat n := not_mem_ofNat (by decide)
  unfold fileName
  rw [List.append_left_inj, Text.append_mark_inj (hdigits _) (hdigits _),
    Text.append_mark_inj (hdigits _) (hdigits _), Text.ofNat_injective.eq_iff,
    Text.ofNat_injective.eq_iff, UInt64.toNat_inj, and_assoc]

/-! ## One name below the directory -/

theorem lead_fileName (hext : '/' ∉ a.extension) (name : Text) (options : Options) :
    Path.lead (a.fileName name options) = [] := by
  have hslash := slash_not_mem_fileName hext name options
  have hidle := (Path.named_of_length (two_lt_length_fileName a name options)).1
  have hdot : a.fileName name options ≠ ['.'] := fun hdot => hidle (by rw [hdot]; rfl)
  simp [Path.lead, Path.isAbsolute_of_not_mem hslash, Path.pieces_of_not_mem hslash, hdot]

theorem components_fileName (hext : '/' ∉ a.extension) (name : Text) (options : Options) :
    Path.components (a.fileName name options) = [.name (a.fileName name options)] := by
  have hslash := slash_not_mem_fileName hext name options
  obtain ⟨hidle, hup⟩ := Path.named_of_length (two_lt_length_fileName a name options)
  have hname : Path.Component.ofPiece? (a.fileName name options) =
      some (.name (a.fileName name options)) := by
    rw [Path.Component.ofPiece?, if_neg hidle, if_neg hup]
  rw [Path.components, lead_fileName hext, Path.pieces_of_not_mem hslash, List.nil_append,
    List.filterMap_cons_some hname, List.filterMap_nil]

theorem components_recordPath (hext : '/' ∉ a.extension) (name : Text) (options : Options) :
    Path.components (a.recordPath name options) =
      Path.components a.directory ++ [.name (a.fileName name options)] := by
  rw [recordPath, Path.components_join _ (lead_fileName hext name options),
    components_fileName hext]

/-- Whatever is on the disk, a record that is found lies in the directory of the archive. -/
theorem inside_of_locate {d : Disk} {place : Place} (hext : '/' ∉ a.extension)
    (h : d.locate (a.recordPath name options) = .ok place) :
    ∃ home, d.Opens a.directory home ∧ place = home ++ [a.fileName name options] := by
  have hcomponents := components_fileName hext name options
  have hcontained : Path.isContained (a.fileName name options) = true := by
    rw [Path.isContained_iff, hcomponents]
    simp
  obtain ⟨home, hhome, hplace⟩ := Disk.below_of_locate hcontained h
  rw [Path.names, hcomponents] at hplace
  exact ⟨home, hhome, hplace⟩

end Archive

/--
Records lie in the directory of their archive, under one name each. Two of them are at one path
exactly if the last segments of their templates' names agree and so do the digests and the lengths
of their keys; and the keys of different templates, or of different options, differ.
-/
theorem recordPaths_apart {a : Archive} (hext : '/' ∉ a.extension) :
    (∀ name options,
      Path.components (a.recordPath name options) =
        Path.components a.directory ++ [.name (a.fileName name options)] ∧
      ∀ (d : Disk) place, d.locate (a.recordPath name options) = .ok place →
        ∃ home, d.Opens a.directory home ∧ place = home ++ [a.fileName name options]) ∧
    ∀ name name' options options',
      (Path.components (a.recordPath name options) = Path.components (a.recordPath name' options') ↔
        Archive.lastSegment name = Archive.lastSegment name' ∧
        Digest.ofBytes (Archive.key name options).encode =
          Digest.ofBytes (Archive.key name' options').encode ∧
        (Archive.key name options).encode.size = (Archive.key name' options').encode.size) ∧
      ((name, options) ≠ (name', options') →
        Archive.key name options ≠ Archive.key name' options') := by
  refine ⟨?_, ?_⟩
  · intro name options
    exact ⟨Archive.components_recordPath hext name options,
      fun _ _ => Archive.inside_of_locate hext⟩
  · intro name name' options options'
    refine ⟨?_, ?_⟩
    · rw [Archive.components_recordPath hext, Archive.components_recordPath hext,
        List.append_right_inj, List.singleton_inj, Path.Component.name.injEq, Archive.fileName_inj]
    · intro hpairs hkeys
      obtain ⟨rfl, rfl⟩ := Archive.key_inj.mp hkeys
      exact hpairs rfl

theorem recordPaths_apart_sameSegment :
    '/' ∉ (⟨"./store/", "aspect"⟩ : Archive).extension ∧
      Path.components (Archive.recordPath ⟨"./store/", "aspect"⟩ "../x.7" ⟨16⟩) =
        [.current, .name "store", .name (Archive.fileName ⟨"./store/", "aspect"⟩ "../x.7" ⟨16⟩)] ∧
      Archive.lastSegment "../x.7" = Archive.lastSegment "c:\\x.7" ∧
      Archive.recordPath ⟨"./store/", "aspect"⟩ "../x.7" ⟨16⟩ ≠
        Archive.recordPath ⟨"./store/", "aspect"⟩ "c:\\x.7" ⟨16⟩ := by
  have happart := @recordPaths_apart ⟨"./store/", "aspect"⟩ (by decide)
  have hdigest : Digest.ofBytes (Archive.key "../x.7" ⟨16⟩).encode ≠
      Digest.ofBytes (Archive.key "c:\\x.7" ⟨16⟩).encode := by decide +kernel
  refine ⟨by decide, (happart.1 "../x.7" ⟨16⟩).1, by decide, ?_⟩
  intro hpath
  exact hdigest ((happart.2 _ _ _ _).1.mp (congrArg Path.components hpath)).2.1

end Stencil
