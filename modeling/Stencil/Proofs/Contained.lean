import Stencil.Proofs.Places
import Stencil.Source

/-!
# Paths that stay inside

What a path says is told by its components: pieces that lead nowhere drop out, save for a dot at the
front. A path without a root and without a way up leads below the directory it is seen from. So
directories that are searched for texts are never left, and the text and the time of a template come
from one file.
-/

namespace Stencil

namespace Path

/-! ## Components -/

inductive Component where
  | root
  | current
  | parent
  | name (text : Text)
deriving DecidableEq, Repr

/-- What a piece says wherever it stands. -/
def Component.ofPiece? (piece : Text) : Option Component :=
  if isIdle piece then none
  else if piece = ['.', '.'] then some .parent
  else some (.name piece)

def Component.name? : Component → Option Text
  | .name text => some text
  | .root | .current | .parent => none

/-- What the front of a path says beyond its pieces. -/
def lead (path : Text) : List Component :=
  if isAbsolute path then [.root]
  else if (pieces path).head? = some ['.'] then [.current]
  else []

def components (path : Text) : List Component :=
  lead path ++ (pieces path).filterMap Component.ofPiece?

/-- The names that a path goes through. -/
def names (path : Text) : List Text := (components path).filterMap Component.name?

theorem ofPiece?_eq_parent {piece : Text} :
    Component.ofPiece? piece = some .parent ↔ piece = ['.', '.'] := by
  constructor
  · intro h
    unfold Component.ofPiece? at h
    split at h
    · cases h
    split at h
    · assumption
    · cases h
  · rintro rfl
    rfl

theorem ofPiece?_ne_root (piece : Text) : Component.ofPiece? piece ≠ some .root := by
  unfold Component.ofPiece?
  split
  · simp
  split <;> simp

theorem root_mem_components {path : Text} : .root ∈ components path ↔ isAbsolute path = true := by
  have hpieces : .root ∉ (pieces path).filterMap Component.ofPiece? := by
    intro hmem
    obtain ⟨piece, _, hroot⟩ := List.mem_filterMap.mp hmem
    exact ofPiece?_ne_root piece hroot
  unfold components lead
  split
  · simp_all
  · split <;> simp_all

theorem parent_mem_components {path : Text} :
    .parent ∈ components path ↔ ['.', '.'] ∈ pieces path := by
  have hlead : .parent ∉ lead path := by
    unfold lead
    split
    · simp
    split <;> simp
  unfold components
  rw [List.mem_append, or_iff_right hlead, List.mem_filterMap]
  simp [ofPiece?_eq_parent]

theorem isContained_iff {path : Text} :
    isContained path = true ↔ .root ∉ components path ∧ .parent ∉ components path := by
  rw [root_mem_components, parent_mem_components]
  simp [isContained]

theorem names_eq (path : Text) :
    names path = ((pieces path).filterMap Component.ofPiece?).filterMap Component.name? := by
  have hlead : (lead path).filterMap Component.name? = [] := by
    unfold lead
    split
    · rfl
    split <;> rfl
  rw [names, components, List.filterMap_append, hlead, List.nil_append]

/-! ## Joined paths -/

theorem exists_join (dir : Text) {path : Text} (h : isAbsolute path = false) :
    ∃ rest, join dir path = dir ++ rest := by
  unfold join
  rw [if_neg (by simp [h])]
  split <;> exact ⟨_, rfl⟩

theorem filterMap_stem (dir : Text) :
    (stem dir).filterMap Component.ofPiece? = (pieces dir).filterMap Component.ofPiece? := by
  rcases pieces_eq_stem dir with hstem | hstem
  · rw [hstem]
  · rw [hstem, List.filterMap_append]
    exact (List.append_nil _).symm

theorem isAbsolute_join {dir path : Text} (h : isAbsolute path = false) :
    isAbsolute (join dir path) = isAbsolute dir := by
  unfold join
  rw [if_neg (by simp [h])]
  cases dir with
  | nil => exact h
  | cons c rest => split <;> rfl

theorem head?_stem {dir : Text} (h : dir ≠ []) : (stem dir).head? = (pieces dir).head? := by
  rcases pieces_eq_stem dir with hstem | hstem
  · rw [hstem]
  · cases hfirst : stem dir with
    | nil =>
      rw [hfirst] at hstem
      have hdir := ofPieces_pieces dir
      rw [hstem] at hdir
      exact absurd hdir.symm h
    | cons piece more => rw [hstem, hfirst]; rfl

theorem isAbsolute_of_lead {path : Text} (h : lead path = []) : isAbsolute path = false := by
  unfold lead at h
  split at h
  · cases h
  · simp_all

theorem lead_join {dir path : Text} (h : lead path = []) : lead (join dir path) = lead dir := by
  by_cases hdir : dir = []
  · subst hdir
    have hjoin : join [] path = path := by simp [join]
    rw [hjoin, h]
    rfl
  · have hhead : (stem dir ++ pieces path).head? = (pieces dir).head? := by
      rw [List.head?_append, head?_stem hdir]
      exact Option.or_of_isSome (by simp [pieces_ne_nil])
    unfold lead
    rw [isAbsolute_join (isAbsolute_of_lead h), pieces_join (isAbsolute_of_lead h), hhead]

theorem components_join (dir : Text) {path : Text} (h : lead path = []) :
    components (join dir path) = components dir ++ components path := by
  unfold components
  rw [lead_join h, pieces_join (isAbsolute_of_lead h), List.filterMap_append, filterMap_stem, h,
    List.nil_append, List.append_assoc]

end Path

/-! ## Where contained paths lead -/

namespace Disk

variable {d : Disk} {dir path : Text} {home place : Place} {file : File}

/-- What is a directory is no file. -/
def WellFormed (d : Disk) : Prop := ∀ place, d.isDirectory place = true → d.file? place = none

/-- The path leads to a regular file. -/
structure Holds (d : Disk) (path : Text) (place : Place) (file : File) : Prop where
  located : d.locate path = .ok place
  there : d.file? place = some file

/-- The path leads to a directory. An empty one stands for the top. -/
structure Opens (d : Disk) (dir : Text) (home : Place) : Prop where
  located : if dir = [] then home = [] else d.locate dir = .ok home
  directory : d.isDirectory home = true

theorem read_eq_ok : d.read path = .ok file ↔ ∃ place, d.Holds path place file := by
  unfold read
  constructor
  · intro h
    cases hplace : d.locate path with
    | error e =>
      rw [hplace] at h
      cases h
    | ok place =>
      rw [hplace] at h
      simp only [bind, Except.bind] at h
      split at h
      · rename_i hfile
        cases h
        exact ⟨place, hplace, hfile⟩
      · cases h
  · rintro ⟨place, hplace, hfile⟩
    rw [hplace]
    simp only [bind, Except.bind, hfile]
    rfl

theorem isFile_iff : d.isFile path = true ↔ ∃ place file, d.Holds path place file := by
  unfold isFile
  cases hread : d.read path with
  | ok file =>
    obtain ⟨place, holds⟩ := read_eq_ok.mp hread
    exact iff_of_true rfl ⟨place, file, holds⟩
  | error e =>
    refine iff_of_false Bool.false_ne_true ?_
    rintro ⟨place, file, holds⟩
    rw [read_eq_ok.mpr ⟨place, holds⟩] at hread
    cases hread

/-- Without a way up, each piece that says something is a name to go down by. -/
theorem foldl_stepTo {pieces : List Text} (h : ['.', '.'] ∉ pieces) (place : Place) :
    pieces.foldl stepTo place =
      place ++ (pieces.filterMap Path.Component.ofPiece?).filterMap Path.Component.name? := by
  induction pieces generalizing place with
  | nil => simp
  | cons piece more ih =>
    obtain ⟨hpiece, hmore⟩ := not_or.mp (mt List.mem_cons.mpr h)
    rw [List.foldl_cons, ih hmore]
    unfold stepTo
    split
    · rename_i hidle
      have hnone : Path.Component.ofPiece? piece = none := if_pos hidle
      rw [List.filterMap_cons_none hnone]
    · rename_i hidle
      have hup : ¬ piece = ['.', '.'] := Ne.symm hpiece
      have hname : Path.Component.ofPiece? piece = some (.name piece) := by
        rw [Path.Component.ofPiece?, if_neg hidle, if_neg hup]
      rw [if_neg hup, List.filterMap_cons_some hname, List.append_assoc]
      rfl

theorem isDirectory_of_foldlM {pieces : List Text} (hfilled : pieces ≠ [])
    (h : pieces.foldlM d.follow home = .ok place) : d.isDirectory home = true := by
  cases pieces with
  | nil => exact absurd rfl hfilled
  | cons piece more =>
    rw [List.foldlM_cons, follow] at h
    cases hhome : d.isDirectory home with
    | true => rfl
    | false =>
      rw [hhome] at h
      cases h

theorem follow_nil (h : d.isDirectory home = true) : d.follow home [] = .ok home := by
  simp [follow, h, Path.isIdle]

theorem checkPath_of_append {front rest : Text} (hfront : front ≠ [])
    (h : checkPath (front ++ rest) = .ok ()) : checkPath front = .ok () := by
  unfold checkPath at h ⊢
  split at h
  · cases h
  split at h
  · cases h
  split at h
  · cases h
  rename_i hnul _ hlong
  have hsize : front.encode.size ≤ (front ++ rest).encode.size := by
    simp [Text.encode_eq, List.utf8Encode_append]
  rw [if_neg, if_neg, if_neg]
  · omega
  · simpa using hfront
  · simp only [List.contains_eq_mem, List.mem_append, decide_eq_true_eq] at hnul ⊢
    exact fun hmem => hnul (.inl hmem)

theorem locate_eq_ok : d.locate path = .ok place ↔
    checkPath path = .ok () ∧ (Path.pieces path).foldlM d.follow [] = .ok place := by
  unfold locate
  cases checkPath path with
  | error e => simp [bind, Except.bind]
  | ok _ => simp [bind, Except.bind]

theorem below_of_locate (hpath : Path.isContained path = true)
    (h : d.locate (Path.join dir path) = .ok place) :
    ∃ home, d.Opens dir home ∧ place = home ++ Path.names path := by
  obtain ⟨hrelative, hdown⟩ : Path.isAbsolute path = false ∧ ['.', '.'] ∉ Path.pieces path := by
    simpa [Path.isContained] using hpath
  obtain ⟨hcheck, hfollow⟩ := locate_eq_ok.mp h
  rw [Path.pieces_join hrelative, List.foldlM_append] at hfollow
  cases hstem : (Path.stem dir).foldlM d.follow [] with
  | error e =>
    rw [hstem] at hfollow
    cases hfollow
  | ok home =>
    rw [hstem] at hfollow
    have hhome : d.isDirectory home = true :=
      isDirectory_of_foldlM (Path.pieces_ne_nil path) hfollow
    refine ⟨home, ⟨?_, hhome⟩, ?_⟩
    · split
      · rename_i hdir
        rw [hdir] at hstem
        cases hstem
        rfl
      · rename_i hdir
        obtain ⟨rest, hjoin⟩ := Path.exists_join dir hrelative
        rw [hjoin] at hcheck
        refine locate_eq_ok.mpr ⟨checkPath_of_append hdir hcheck, ?_⟩
        -- A slash at the end of the directory makes one more piece, which leads nowhere.
        rcases Path.pieces_eq_stem dir with hpieces | hpieces
        · rwa [hpieces]
        · rw [hpieces, List.foldlM_append, hstem]
          simp [bind, Except.bind, follow_nil hhome, pure, Except.pure]
    · rw [foldlM_follow hfollow, foldl_stepTo hdown, ← Path.names_eq]

/-- A file is no directory, so the path to one inside a directory has a name in it. -/
theorem names_ne_nil_of_holds (hdisk : d.WellFormed) (hhome : d.Opens dir home)
    (hplace : place = home ++ Path.names path) (hfile : d.file? place = some file) :
    Path.names path ≠ [] := by
  intro hnone
  rw [hplace, hnone, List.append_nil, hdisk home hhome.directory] at hfile
  cases hfile

end Disk

/-! ## Directories that are searched -/

namespace Source

variable {paths : List Text} {path dir : Text} {place : Place} {file : File} {h : Host}

/-- The directory is the first one with a regular file for the path. -/
structure First (d : Disk) (paths : List Text) (path dir : Text) (place : Place) (file : File) :
    Prop where
  earlier : ∃ before after, paths = before ++ dir :: after ∧
    ∀ other ∈ before, ∀ place file, ¬ d.Holds (Path.join other path) place file
  holds : d.Holds (Path.join dir path) place file

theorem locate?_of_first {d : Disk} (hpath : Path.isContained path = true)
    (hfirst : First d paths path dir place file) :
    locate? paths d path = some (Path.join dir path) := by
  obtain ⟨before, after, rfl, hearlier⟩ := hfirst.earlier
  have hnone : (before.map (Path.join · path)).find? d.isFile = none := by
    rw [List.find?_eq_none]
    intro joined hjoined hfile
    obtain ⟨other, hother, rfl⟩ := List.mem_map.mp hjoined
    obtain ⟨place, file, holds⟩ := Disk.isFile_iff.mp hfile
    exact hearlier other hother place file holds
  have hhere : d.isFile (Path.join dir path) = true :=
    Disk.isFile_iff.mpr ⟨place, file, hfirst.holds⟩
  rw [locate?, if_pos hpath, List.map_append, List.find?_append, hnone, Option.none_or,
    List.map_cons, List.find?_cons_of_pos hhere]

theorem locate?_of_none {d : Disk}
    (hnone : ∀ dir ∈ paths, ∀ place file, ¬ d.Holds (Path.join dir path) place file) :
    locate? paths d path = none := by
  unfold locate?
  split
  · rw [List.find?_eq_none]
    intro joined hjoined hfile
    obtain ⟨dir, hdir, rfl⟩ := List.mem_map.mp hjoined
    obtain ⟨place, file, holds⟩ := Disk.isFile_iff.mp hfile
    exact hnone dir hdir place file holds
  · rfl

theorem notFound_of_locate? (hnone : locate? paths h.disk path = none) :
    (directories paths).load h path = .error (.notFound path) ∧
      (directories paths).modified h path = .error (.notFound path) := by
  unfold load modified
  simp only [hnone, and_self]

/-- What is handed out for the content of a file. -/
def contentOf (h : Host) (joined : Text) (file : File) : Except SourceError (Text × Host) :=
  match Text.decode? file.content with
  | some text => .ok (text, h)
  | none => .error (.unreadable joined .notText)

theorem modified_of_locate? {joined : Text} (hjoined : locate? paths h.disk path = some joined)
    (holds : h.disk.Holds joined place file) :
    (directories paths).modified h path = .ok file.modified := by
  unfold modified
  simp only [hjoined, Disk.read_eq_ok.mpr ⟨place, holds⟩]

theorem load_of_locate? {joined : Text} (hjoined : locate? paths h.disk path = some joined)
    (holds : h.disk.Holds joined place file) :
    (directories paths).load h path = contentOf h joined file := by
  unfold load contentOf
  simp only [hjoined, Disk.readText, Disk.read_eq_ok.mpr ⟨place, holds⟩, bind, Except.bind]
  cases Text.decode? file.content with
  | some text => rfl
  | none => rfl

end Source

/--
Directories that are searched for texts are not left. A path with a root or a way up finds nothing;
any other finds what the first directory with a regular file for it has there, below that directory,
and the text and the time are both taken from that file.
-/
theorem directories_contained {h : Host} (hdisk : h.disk.WellFormed) (paths : List Text)
    (path : Text) :
    let source := Source.directories paths
    let missing : Prop := source.load h path = .error (.notFound path) ∧
      source.modified h path = .error (.notFound path)
    (.root ∈ Path.components path ∨ .parent ∈ Path.components path → missing) ∧
    (.root ∉ Path.components path → .parent ∉ Path.components path →
      ((∀ dir ∈ paths, ∀ place file, ¬ h.disk.Holds (Path.join dir path) place file) → missing) ∧
      ∀ dir place file, Source.First h.disk paths path dir place file →
        source.load h path = Source.contentOf h (Path.join dir path) file ∧
        source.modified h path = .ok file.modified ∧
        ∃ home, h.disk.Opens dir home ∧ place = home ++ Path.names path ∧
          Path.names path ≠ []) := by
  intro source missing
  refine ⟨?_, ?_⟩
  · intro hout
    have hpath : ¬ Path.isContained path = true := by
      rw [Path.isContained_iff, ← not_or]
      exact not_not_intro hout
    exact Source.notFound_of_locate? (if_neg hpath)
  · intro hroot hparent
    have hpath : Path.isContained path = true := Path.isContained_iff.mpr ⟨hroot, hparent⟩
    refine ⟨fun hnone => Source.notFound_of_locate? (Source.locate?_of_none hnone), ?_⟩
    intro dir place file hfirst
    have hjoined := Source.locate?_of_first hpath hfirst
    obtain ⟨home, hhome, hplace⟩ := Disk.below_of_locate hpath hfirst.holds.located
    exact ⟨Source.load_of_locate? hjoined hfirst.holds,
      Source.modified_of_locate? hjoined hfirst.holds, home, hhome, hplace,
      Disk.names_ne_nil_of_holds hdisk hhome hplace hfirst.holds.there⟩

/-- Two shelves, of which the first has a directory where the second has a page. -/
def Host.shelves : Host where
  disk :=
    { files := ⟨[(["second", "page", "draft"], ⟨Text.encode "text", 7⟩)]⟩
      directories :=
        [["first"], ["first", "page"], ["first", "page", "draft"], ["second"], ["second", "page"]]
      clock := 9 }

theorem directories_contained_secondShelf :
    Host.shelves.disk.WellFormed ∧
      Source.First Host.shelves.disk ["first", "second/"] "./page//draft" "second/"
        ["second", "page", "draft"] ⟨Text.encode "text", 7⟩ ∧
      (Source.directories ["first", "second/"]).load Host.shelves "./page//draft" =
        .ok ("text", Host.shelves) ∧
      (Source.directories ["first", "second/"]).modified Host.shelves "./page//draft" = .ok 7 := by
  have hdisk : Host.shelves.disk.WellFormed := by
    have hnone : ∀ place ∈ ([] :: Host.shelves.disk.directories : List Place),
        (Host.shelves.disk.file? place).isNone = true := by decide +kernel
    intro place hplace
    exact Option.isNone_iff_eq_none.mp (hnone place (by simpa [Disk.isDirectory] using hplace))
  have hfirst : Source.First Host.shelves.disk ["first", "second/"] "./page//draft" "second/"
      ["second", "page", "draft"] ⟨Text.encode "text", 7⟩ := by
    have hnone : Host.shelves.disk.isFile (Path.join "first" "./page//draft") = false := by
      decide +kernel
    refine ⟨⟨["first"], [], rfl, ?_⟩, rfl, rfl⟩
    intro other hother place file holds
    rw [List.mem_singleton.mp hother] at holds
    rw [Disk.isFile_iff.mpr ⟨place, file, holds⟩] at hnone
    cases hnone
  have hfound := ((directories_contained hdisk ["first", "second/"] "./page//draft").2 (by decide)
    (by decide)).2 _ _ _ hfirst
  exact ⟨hdisk, hfirst, hfound.1, hfound.2.1⟩

end Stencil
