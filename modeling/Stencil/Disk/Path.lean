import Stencil.Text.Basic

/-!
# Paths

A path is a text whose pieces stand between slashes. It is kept as it was written: `.`, `..` and
doubled slashes mean something only once the path is followed.
-/

namespace Stencil.Path

def isAbsolute (path : Text) : Bool := path.head? = some '/'

/-- A path seen from the directory `dir`. An absolute path stands for itself. -/
def join (dir path : Text) : Text :=
  if isAbsolute path then path
  else if dir.isEmpty || dir.getLast? = some '/' then dir ++ path
  else dir ++ '/' :: path

/-- The texts between the slashes. -/
def pieces : Text → List Text
  | [] => [[]]
  | c :: rest =>
    if c = '/' then [] :: pieces rest
    else match pieces rest with
      | [] => [[c]]
      | piece :: more => (c :: piece) :: more

/-- Pieces with a slash between them. -/
def ofPieces : List Text → Text
  | [] => []
  | [piece] => piece
  | piece :: more => piece ++ '/' :: ofPieces more

theorem pieces_ne_nil (path : Text) : pieces path ≠ [] := by
  cases path with
  | nil => simp [pieces]
  | cons c rest =>
    unfold pieces
    split
    · simp
    · split <;> simp

theorem ofPieces_pieces (path : Text) : ofPieces (pieces path) = path := by
  induction path with
  | nil => rfl
  | cons c rest ih =>
    unfold pieces
    split
    · rename_i hc
      subst hc
      cases hp : pieces rest with
      | nil => exact absurd hp (pieces_ne_nil rest)
      | cons piece more => rw [hp] at ih; simp [ofPieces, ih]
    · cases hp : pieces rest with
      | nil => exact absurd hp (pieces_ne_nil rest)
      | cons piece more =>
        rw [hp] at ih
        cases more with
        | nil => simp_all [ofPieces]
        | cons next more => simpa [ofPieces] using ih

/-- The path stays below the directory it is seen from. -/
def isContained (path : Text) : Bool := !isAbsolute path && !(pieces path).contains ['.', '.']

/-- The piece leads nowhere. -/
def isIdle (piece : Text) : Bool := piece = [] || piece = ['.']

/-- The pieces without idle ones at the end. -/
def trimIdle (pieces : List Text) : List Text := (pieces.reverse.dropWhile isIdle).reverse

/-- The pieces without the last one that leads somewhere, if there is such a one. -/
def outer? (pieces : List Text) : Option (List Text) :=
  if (trimIdle pieces).isEmpty then none else some (trimIdle (trimIdle pieces).dropLast)

/-- The path of the directory that a path lies in. A slash or a dot that a path starts with stays. -/
def parent? (path : Text) : Option Text :=
  match pieces path with
  | [] :: next :: more => (outer? (next :: more)).map ('/' :: ofPieces ·)
  | ['.'] :: more =>
    match outer? more with
    | none => some []
    | some [] => some ['.']
    | some outer => some ('.' :: '/' :: ofPieces outer)
  | all => (outer? all).map ofPieces

/-! ## A parent is shorter -/

theorem length_ofPieces_cons (piece : Text) {more : List Text} (h : more ≠ []) :
    (ofPieces (piece :: more)).length = piece.length + 1 + (ofPieces more).length := by
  cases more with
  | nil => exact absurd rfl h
  | cons next more => simp [ofPieces, Nat.add_assoc, Nat.add_comm 1]

theorem length_ofPieces_concat (outer : List Text) (piece : Text) :
    (ofPieces outer).length + piece.length ≤ (ofPieces (outer ++ [piece])).length := by
  induction outer with
  | nil => simp [ofPieces]
  | cons first more ih =>
    cases more with
    | nil =>
      simp only [ofPieces, List.cons_append, List.nil_append, List.length_append, List.length_cons]
      omega
    | cons next more =>
      rw [List.cons_append, length_ofPieces_cons first (by simp),
        length_ofPieces_cons first (by simp)]
      omega

theorem length_ofPieces_append_le (outer more : List Text) :
    (ofPieces outer).length ≤ (ofPieces (outer ++ more)).length := by
  induction more generalizing outer with
  | nil => simp
  | cons next more ih =>
    have first := length_ofPieces_concat outer next
    have rest := ih (outer ++ [next])
    rw [List.append_assoc, List.singleton_append] at rest
    omega

theorem trimIdle_append (pieces : List Text) :
    trimIdle pieces ++ (pieces.reverse.takeWhile isIdle).reverse = pieces := by
  rw [trimIdle, ← List.reverse_append, List.takeWhile_append_dropWhile, List.reverse_reverse]

theorem length_ofPieces_trimIdle_le (pieces : List Text) :
    (ofPieces (trimIdle pieces)).length ≤ (ofPieces pieces).length := by
  have h := length_ofPieces_append_le (trimIdle pieces) (pieces.reverse.takeWhile isIdle).reverse
  rwa [trimIdle_append] at h

theorem getLast_trimIdle {pieces : List Text} (h : trimIdle pieces ≠ []) :
    isIdle ((trimIdle pieces).getLast h) = false := by
  simp only [trimIdle, List.getLast_reverse]
  exact List.head_dropWhile_not isIdle _

theorem length_outer?_lt {pieces outer : List Text} (h : outer? pieces = some outer) :
    (ofPieces outer).length < (ofPieces pieces).length := by
  unfold outer? at h
  split at h
  · cases h
  · rename_i filled
    cases h
    have filled : trimIdle pieces ≠ [] := fun empty => filled (by rw [empty]; rfl)
    have named := getLast_trimIdle filled
    have last : 0 < ((trimIdle pieces).getLast filled).length := by
      cases hl : (trimIdle pieces).getLast filled with
      | nil => rw [hl] at named; cases named
      | cons c more => exact Nat.succ_pos _
    have cut := length_ofPieces_concat (trimIdle pieces).dropLast ((trimIdle pieces).getLast filled)
    rw [List.dropLast_concat_getLast] at cut
    have whole := length_ofPieces_trimIdle_le pieces
    have outer := length_ofPieces_trimIdle_le (trimIdle pieces).dropLast
    omega

theorem length_parent?_lt {path outer : Text} (h : parent? path = some outer) :
    outer.length < path.length := by
  rw [← ofPieces_pieces path]
  unfold parent? at h
  split at h
  · rename_i next more hp
    obtain ⟨pieces, ho, rfl⟩ := Option.map_eq_some_iff.mp h
    have := length_outer?_lt ho
    rw [hp, length_ofPieces_cons [] (by simp)]
    simp only [List.length_cons, List.length_nil]
    omega
  · rename_i more hp
    rw [hp]
    split at h
    · cases h
      have := length_ofPieces_append_le [['.']] more
      exact Nat.lt_of_lt_of_le (by decide) this
    all_goals
      rename_i ho
      cases h
      have := length_outer?_lt ho
      have filled : more ≠ [] := fun empty => by rw [empty] at ho; cases ho
      rw [length_ofPieces_cons ['.'] filled]
      simp only [List.length_cons, List.length_nil]
      omega
  · obtain ⟨pieces, ho, rfl⟩ := Option.map_eq_some_iff.mp h
    exact length_outer?_lt ho

end Stencil.Path
