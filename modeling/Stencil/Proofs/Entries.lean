import Stencil.Proofs.Handled
import Stencil.Proofs.Trees

/-!
# Entries of argument lists

The code of an argument list is a form that holds one form for each entry: the name of a named
entry, or a word that stands for having none, and then the value. A value ends where its own form
ends, so the code tells where each entry starts and what is in it. The one thing it does not tell is
whether an entry has that word for a name or has no name.
-/

namespace Stencil

open Form (Reads isAtom isAtomPart readFrom readFrom_nil)
open Grammar Reading

/-! ## Where a form ends -/

namespace Form

theorem readFrom_close_nil (done : List Form) (t : Text) : readFrom [] done (')' :: t) = none := by
  have hblank : isBlank ')' = false := by decide
  rw [readFrom.eq_def]
  simp [hblank]

theorem Reads.not_reads_append_close {t : Text} {f : Form} (h : Reads t f) (rest : Text)
    (g : Form) : ¬ Reads (t ++ ')' :: rest) g := by
  intro hlonger
  have hwhole := hlonger [] [] [] (by simp)
  have hclosed := h [] [] (')' :: rest) (by simp; decide)
  rw [List.append_nil, readFrom_nil, hclosed, readFrom_close_nil] at hwhole
  cases hwhole

/-- In front of a closing parenthesis there is only one place where a form can end. -/
theorem Reads.append_close_inj {s t rest rest' : Text} {f g : Form} (hs : Reads s f)
    (ht : Reads t g) (h : s ++ ')' :: rest = t ++ ')' :: rest') : s = t ∧ rest = rest' := by
  rcases List.append_eq_append_iff.mp h with ⟨more, rfl, hmore⟩ | ⟨more, rfl, hmore⟩
  · cases more with
    | nil => simpa using hmore
    | cons x more =>
      obtain ⟨rfl, -⟩ := List.cons.inj hmore
      exact absurd ht (hs.not_reads_append_close _ _)
  · cases more with
    | nil => simpa [eq_comm] using hmore
    | cons x more =>
      obtain ⟨rfl, -⟩ := List.cons.inj hmore
      exact absurd hs (ht.not_reads_append_close _ _)

end Form

/-! ## One entry -/

namespace Param

def name? : Param → Option Text
  | .named name _ => some name
  | .positional _ => none

def value : Param → Expr
  | .named _ value | .positional value => value

/-- An entry as it counts: its name, if it has one, and the code of its value. -/
def entry (p : Param) : Option Text × Text := (p.name?, p.value.code)

/-- The word in front of the value. -/
def head (p : Param) : Text := p.name?.getD "arg"

theorem code_eq (p : Param) : p.code = Stencil.form p.head [p.value.code] := by
  cases p <;> rfl

/-- The code of the entry is read back as its head and one form. -/
structure Plain (p : Param) : Prop where
  head : isAtom p.head = true
  value : ∃ f, Reads p.value.code f

theorem isAtom_arg : isAtom "arg" = true := by decide

theorem Licensed.plain {scope : Scope} (hscope : scope.library.Bare) :
    ∀ {p : Param}, p.Licensed scope → p.Plain
  | .named _ _, h => ⟨h.1, _, (Expr.spells_code_tree hscope h.2).reads⟩
  | .positional _, h => ⟨isAtom_arg, _, (Expr.spells_code_tree hscope h).reads⟩

theorem append_code_inj {p q : Param} (hp : p.Plain) (hq : q.Plain) {rest rest' : Text}
    (h : p.code ++ rest = q.code ++ rest') :
    p.head = q.head ∧ p.value.code = q.value.code ∧ rest = rest' := by
  obtain ⟨f, hf⟩ := hp.value
  obtain ⟨g, hg⟩ := hq.value
  have hsplit : p.head ++ ' ' :: (p.value.code ++ ')' :: rest) =
      q.head ++ ' ' :: (q.value.code ++ ')' :: rest') := by
    simpa [code_eq, Stencil.form] using h
  have hcut := congrArg (Text.cut? [' ']) hsplit
  rw [Script.cut?_of_notMem (Form.space_not_mem_of_isAtom hp.head),
    Script.cut?_of_notMem (Form.space_not_mem_of_isAtom hq.head)] at hcut
  obtain ⟨hhead, hvalue⟩ := Prod.mk.inj (Option.some.inj hcut)
  exact ⟨hhead, hf.append_close_inj hg hvalue⟩

/-- The same entry, but that one may have no name and the other the word that stands for that. -/
def Matches (p q : Param) : Prop :=
  p.value.code = q.value.code ∧
    (p.name? = q.name? ∨ (p.name? = none ∧ q.name? = some "arg".toList) ∨
      (p.name? = some "arg".toList ∧ q.name? = none))

theorem matches_of_head {p q : Param} (hhead : p.head = q.head)
    (hvalue : p.value.code = q.value.code) : p.Matches q := by
  refine ⟨hvalue, ?_⟩
  unfold head at hhead
  cases hp : p.name? <;> cases hq : q.name? <;> simp_all

/-! ## All entries -/

theorem matches_of_codes {ps qs : List Param} (hps : ∀ p ∈ ps, p.Plain) (hqs : ∀ q ∈ qs, q.Plain)
    (h : (ps.map code).flatMap (' ' :: ·) ++ [')'] = (qs.map code).flatMap (' ' :: ·) ++ [')']) :
    List.Forall₂ Matches ps qs := by
  induction ps generalizing qs with
  | nil =>
    cases qs with
    | nil => exact .nil
    | cons q qs => simp at h
  | cons p ps ih =>
    cases qs with
    | nil => simp at h
    | cons q qs =>
      obtain ⟨hp, hps⟩ := List.forall_mem_cons.mp hps
      obtain ⟨hq, hqs⟩ := List.forall_mem_cons.mp hqs
      simp only [List.map_cons, List.flatMap_cons, List.cons_append, List.append_assoc,
        List.cons.injEq, true_and] at h
      obtain ⟨hhead, hvalue, hrest⟩ := append_code_inj hp hq h
      exact .cons (matches_of_head hhead hvalue) (ih hps hqs hrest)

theorem matches_of_listCode {ps qs : List Param} (hps : ∀ p ∈ ps, p.Plain)
    (hqs : ∀ q ∈ qs, q.Plain) (h : listCode ps = listCode qs) : List.Forall₂ Matches ps qs := by
  refine matches_of_codes hps hqs ?_
  simpa [listCode, Stencil.form] using h

end Param

theorem Param.entries_eq {ps qs : List Param} (h : List.Forall₂ Param.Matches ps qs)
    (hps : ∀ p ∈ ps, p.name? ≠ some "arg".toList) (hqs : ∀ q ∈ qs, q.name? ≠ some "arg".toList) :
    ps.map Param.entry = qs.map Param.entry := by
  induction h with
  | nil => rfl
  | @cons p q ps qs hpq _ ih =>
    obtain ⟨hp, hps⟩ := List.forall_mem_cons.mp hps
    obtain ⟨hq, hqs⟩ := List.forall_mem_cons.mp hqs
    obtain ⟨hvalue, hname | ⟨-, hname⟩ | ⟨hname, -⟩⟩ := hpq
    · rw [List.map_cons, List.map_cons, ih hps hqs, Param.entry, Param.entry, hname, hvalue]
    · exact absurd hname hq
    · exact absurd hname hp

/--
Two argument lists with the same code have the same entries in the same order, as far as the symbols
of modifiers can stand in a script. Only an entry that has the name `arg` is not told apart from one
that has no name.
-/
theorem params_apart {scope scope' : Scope} (hscope : scope.library.Bare)
    (hscope' : scope'.library.Bare) {c c' d d' : Cursor} (hc : c.Lexed) (hd : d.Lexed)
    {ps qs : List Param} (hps : params scope true c = .ok ps c')
    (hqs : params scope' true d = .ok qs d') (hcode : Param.listCode ps = Param.listCode qs) :
    List.Forall₂ Param.Matches ps qs ∧
    ((∀ p ∈ ps, p.name? ≠ some "arg".toList) → (∀ q ∈ qs, q.name? ≠ some "arg".toList) →
      ps.map Param.entry = qs.map Param.entry) := by
  have hplain : ∀ p ∈ ps, p.Plain := fun p hp =>
    ((gives_params true c ps c' hc hps).1 p hp).plain hscope
  have hplain' : ∀ q ∈ qs, q.Plain := fun q hq =>
    ((gives_params true d qs d' hd hqs).1 q hq).plain hscope'
  have hmatches := Param.matches_of_listCode hplain hplain' hcode
  exact ⟨hmatches, Param.entries_eq hmatches⟩

namespace Listed

/-- The entries of a list that is written as `source`, and its code. -/
def read? (scope : Scope) (source : Text) : Option (List (Option Text × Text) × Text) :=
  match params scope true (Cursor.ofText source 1) with
  | .ok ps _ => some (ps.map Param.entry, Param.listCode ps)
  | .error _ _ => none

theorem exists_of_read? {scope : Scope} {source : Text} {entries : List (Option Text × Text)}
    {code : Text} (h : read? scope source = some (entries, code)) :
    ∃ ps c, params scope true (Cursor.ofText source 1) = .ok ps c ∧ ps.map Param.entry = entries ∧
      Param.listCode ps = code := by
  unfold read? at h
  split at h
  · rename_i ps c hread
    obtain ⟨rfl, rfl⟩ := Prod.mk.inj (Option.some.inj h)
    exact ⟨ps, c, hread, rfl, rfl⟩
  · cases h

theorem names_of_entries {ps : List Param} {entries : List (Option Text × Text)}
    (h : ps.map Param.entry = entries) (hnames : ∀ e ∈ entries, e.1 ≠ some "arg".toList) :
    ∀ p ∈ ps, p.name? ≠ some "arg".toList := by
  subst h
  exact fun p hp => hnames p.entry (List.mem_map_of_mem hp)

def plain : Scope := ⟨Library.standard, Options.empty⟩

/-- A modifier whose symbol closes two forms and opens two others. -/
def hostile : Scope :=
  ⟨{ modifiers := [("m", "f 1)) (b (mod g")], host := ["f", "g"] }, Options.empty⟩

/-- Two ways to write one list. -/
def spaced : Text := "$x polite=(TRUE) tail = 'a' + \"'\""

def tight : Text := "($x)polite=true tail='a'+'\\'' "

def entries : List (Option Text × Text) :=
  [(none, "(var x)"), (some "polite".toList, "true"), (some "tail".toList, "(+ \"a\" \"'\")")]

end Listed

open Listed in
theorem params_apart_respelt :
    ∃ ps c qs d, params plain true (Cursor.ofText spaced 1) = .ok ps c ∧
      params plain true (Cursor.ofText tight 1) = .ok qs d ∧
      Param.listCode ps = Param.listCode qs ∧ List.Forall₂ Param.Matches ps qs ∧
      ps.map Param.entry = qs.map Param.entry := by
  have hbare : plain.library.Bare := by
    unfold Library.Bare
    decide
  have hnames : ∀ e ∈ entries, e.1 ≠ some "arg".toList := by decide
  obtain ⟨code, hspaced, htight⟩ : ∃ code, read? plain spaced = some (entries, code) ∧
      read? plain tight = some (entries, code) :=
    ⟨"(params (arg (var x)) (polite true) (tail (+ \"a\" \"'\")))", by decide +kernel,
      by decide +kernel⟩
  obtain ⟨ps, c, hps, hentries, rfl⟩ := exists_of_read? hspaced
  obtain ⟨qs, d, hqs, hentries', hcode⟩ := exists_of_read? htight
  obtain ⟨hmatches, hequal⟩ := params_apart hbare hbare (Cursor.lexed_ofText _ _)
    (Cursor.lexed_ofText _ _) hps hqs hcode.symm
  exact ⟨ps, c, qs, d, hps, hqs, hcode.symm, hmatches,
    hequal (names_of_entries hentries hnames) (names_of_entries hentries' hnames)⟩

open Listed in
/-- A name that looks like none, and a symbol that ends the entry it stands in. -/
theorem params_broken_marker :
    (∃ ps c qs d, params plain true (Cursor.ofText "arg=1" 1) = .ok ps c ∧
      params plain true (Cursor.ofText "1" 1) = .ok qs d ∧ Param.listCode ps = Param.listCode qs ∧
      ps.map Param.entry ≠ qs.map Param.entry) ∧
    ∃ ps c qs d, params hostile true (Cursor.ofText "a=2|m" 1) = .ok ps c ∧
      params hostile true (Cursor.ofText "a=1|f b=2|g" 1) = .ok qs d ∧
      Param.listCode ps = Param.listCode qs ∧ ps.map Param.entry ≠ qs.map Param.entry := by
  constructor
  · have hnamed : read? plain "arg=1" =
        some ([(some "arg".toList, ['1'])], "(params (arg 1))".toList) := by decide +kernel
    have hbare : read? plain "1" = some ([(none, ['1'])], "(params (arg 1))".toList) := by
      decide +kernel
    obtain ⟨ps, c, hps, hentries, hcode⟩ := exists_of_read? hnamed
    obtain ⟨qs, d, hqs, hentries', hcode'⟩ := exists_of_read? hbare
    refine ⟨ps, c, qs, d, hps, hqs, hcode.trans hcode'.symm, ?_⟩
    rw [hentries, hentries']
    decide
  · have hone : read? hostile "a=2|m" = some ([(some ['a'], "(mod f 1)) (b (mod g 2)".toList)],
        "(params (a (mod f 1)) (b (mod g 2)))".toList) := by decide +kernel
    have htwo : read? hostile "a=1|f b=2|g" =
        some ([(some ['a'], "(mod f 1)".toList), (some ['b'], "(mod g 2)".toList)],
          "(params (a (mod f 1)) (b (mod g 2)))".toList) := by decide +kernel
    obtain ⟨ps, c, hps, hentries, hcode⟩ := exists_of_read? hone
    obtain ⟨qs, d, hqs, hentries', hcode'⟩ := exists_of_read? htwo
    refine ⟨ps, c, qs, d, hps, hqs, hcode.trans hcode'.symm, ?_⟩
    rw [hentries, hentries']
    decide

end Stencil
