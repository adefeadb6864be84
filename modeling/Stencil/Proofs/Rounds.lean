import Stencil.Proofs.Cuts
import Stencil.Proofs.Handled
import Stencil.Script.Run

/-!
# Rounds of a loop over a list

A loop over a list names a variable for the items and may name one for the keys. Its statement is
read back as a step with these names, except that the name which stands for having no key variable
counts as none. Before each round the step gives the variables the key and the item of the round.
-/

namespace Stencil

open Form (isAtom isAtomPart readFrom readAll Reads)
open Grammar Reading
open Tag (openForeach)

/-! ## A text that is one form -/

namespace Form

/-- The same open lists, with `before` in front of the outermost and `around` around it. -/
def beneath (before : List Form) (around : List (List Form)) :
    List Form → List (List Form) → List Form × List (List Form)
  | done, [] => (done ++ before, around)
  | done, next :: outer =>
    let (next, outer) := beneath before around next outer
    (done, next :: outer)

theorem beneath_cons (before : List Form) (around : List (List Form)) (f : Form)
    (done : List Form) (outer : List (List Form)) :
    beneath before around (f :: done) outer =
      (f :: (beneath before around done outer).1, (beneath before around done outer).2) := by
  cases outer <;> rfl

theorem close?_append_right {t inside left : Text} (h : Quoted.close? t = some (inside, left))
    (rest : Text) : Quoted.close? (t ++ rest) = some (inside, left ++ rest) := by
  fun_induction Quoted.close? t generalizing inside left with
  | case1 => simp at h
  | case2 => simp_all [Quoted.close?]
  | case3 => simp at h
  | case4 c t ih =>
    simp only [Option.map_eq_some_iff, Prod.mk.injEq] at h
    obtain ⟨⟨a, b⟩, hab, rfl, rfl⟩ := h
    rw [List.cons_append, List.cons_append, Quoted.close?_backslash, ih hab]
    rfl
  | case5 c t hquote hlast hslash ih =>
    simp only [Option.map_eq_some_iff, Prod.mk.injEq] at h
    obtain ⟨⟨a, b⟩, hab, rfl, rfl⟩ := h
    have hc : c ≠ '\\' := by
      intro hc
      cases t with
      | nil => exact hlast hc rfl
      | cons x t => exact hslash x t hc rfl
    rw [List.cons_append, Quoted.close?_cons hquote hc, ih hab]
    rfl

/-- Forms that are complete are read alike inside any lists, whatever comes behind them. -/
theorem readFrom_beneath {outer : List (List Form)} {done : List Form} {t : Text}
    {forms : List Form} (h : readFrom outer done t = some forms) {rest : Text}
    (hrest : ∀ c ∈ rest.head?, isAtomPart c = false) (before : List Form)
    (around : List (List Form)) :
    readFrom (beneath before around done outer).2 (beneath before around done outer).1
        (t ++ rest) =
      readFrom around (forms.reverse ++ before) rest := by
  fun_induction readFrom outer done t with
  | case1 outer done hempty =>
    cases h
    rw [List.isEmpty_iff.mp hempty]
    simp [beneath]
  | case2 | case5 | case8 | case9 => cases h
  | case3 outer done c t hblank ih =>
    rw [List.cons_append, readFrom_blank _ _ hblank]
    exact ih h
  | case4 outer done t _ ih =>
    rw [List.cons_append, readFrom_open]
    exact ih h
  | case6 done t next outer _ _ ih =>
    simp only [List.unattach_reverse, List.unattach_attach] at ih
    have hread := ih h
    rw [beneath_cons] at hread
    rwa [beneath, List.cons_append, readFrom_close]
  | case7 outer done t inside left hclose value hvalue _ _ _ ih =>
    have hread := ih h
    rw [beneath_cons] at hread
    rwa [List.cons_append, readFrom_quote _ _ (close?_append_right hclose rest) hvalue]
  | case10 outer done c t hblank hopen hshut hquote ih =>
    have hread := ih h
    rw [beneath_cons] at hread
    have hpart : isAtomPart c = true := by simp [isAtomPart, hblank, hopen, hshut]
    rwa [List.cons_append, readFrom_atomPart _ _ hpart hquote, Lexeme.takeWhile_append_stop t hrest,
      Lexeme.dropWhile_append_stop t hrest]

theorem reads_iff_readAll {t : Text} {f : Form} : Reads t f ↔ readAll t = some [f] := by
  constructor
  · intro h
    have := h [] [] [] (by simp)
    rwa [List.append_nil, readFrom_nil] at this
  · intro h outer done rest hrest
    have := readFrom_beneath h hrest done outer
    simpa [beneath] using this

end Form

/-! ## Words and variables -/

theorem Reading.takeWord_cons {word : Token} {text : Text} {behind ahead : List Token}
    {endLine : Nat} (h : word.kind = .name ∧ word.text = text) :
    takeWord text ⟨behind, word :: ahead, endLine⟩ = .ok () ⟨word :: behind, ahead, endLine⟩ := by
  simp [takeWord, Cursor.current?, h.1, h.2, Cursor.advance]

theorem Reading.takeWord_eq_ok {text : Text} {c c' : Cursor} (h : takeWord text c = .ok () c') :
    ∃ behind word ahead endLine, c = ⟨behind, word :: ahead, endLine⟩ ∧
      (word.kind = .name ∧ word.text = text) ∧ c' = ⟨word :: behind, ahead, endLine⟩ := by
  rcases c with ⟨behind, _ | ⟨word, ahead⟩, endLine⟩
  · cases h
  · unfold takeWord at h
    simp only [Cursor.current?, List.head?_cons] at h
    split at h
    · rename_i hword
      cases h
      exact ⟨behind, word, ahead, endLine, rfl, by simpa using hword, rfl⟩
    · cases h

theorem Grammar.loopVariable_cons {t : Token} {behind ahead : List Token} {endLine : Nat}
    (h : t.kind = .variable) :
    loopVariable ⟨behind, t :: ahead, endLine⟩ = .ok t.name ⟨t :: behind, ahead, endLine⟩ := by
  rw [loopVariable, bind_of_ok (need_cons h), bind_of_ok (advance_cons t)]
  rfl

theorem Grammar.loopVariable_eq_ok {name : Text} {c c' : Cursor}
    (h : loopVariable c = .ok name c') :
    ∃ behind t ahead endLine, c = ⟨behind, t :: ahead, endLine⟩ ∧ t.kind = .variable ∧
      name = t.name ∧ c' = ⟨t :: behind, ahead, endLine⟩ := by
  obtain ⟨t, d, hneed, hname⟩ := bind_eq_ok h
  obtain ⟨hcurrent, hkind, rfl⟩ := need_eq_ok hneed
  rcases d with ⟨behind, _ | ⟨next, ahead⟩, endLine⟩
  · cases hcurrent
  · cases hcurrent
    cases hname
    exact ⟨behind, t, ahead, endLine, rfl, hkind, rfl, rfl⟩

/-! ## Headers -/

/-- What stands in a tag that opens a loop: a list, `as`, and one variable or two. -/
inductive LoopHeader (scope : Scope) (c : Cursor) : Expr → Option Text → Text → Cursor → Prop
  | keyed {list : Expr} {behind ahead : List Token} {word key arrow item : Token} {endLine : Nat}
      (hlist : expression scope c =
        .ok list ⟨behind, word :: key :: arrow :: item :: ahead, endLine⟩)
      (hword : word.kind = .name ∧ word.text = "as".toList) (hkey : key.kind = .variable)
      (harrow : arrow.kind = .symbol "=>") (hitem : item.kind = .variable) :
      LoopHeader scope c list (some key.name) item.name
        ⟨item :: arrow :: key :: word :: behind, ahead, endLine⟩
  | plain {list : Expr} {behind ahead : List Token} {word item : Token} {endLine : Nat}
      (hlist : expression scope c = .ok list ⟨behind, word :: item :: ahead, endLine⟩)
      (hword : word.kind = .name ∧ word.text = "as".toList) (hitem : item.kind = .variable)
      (hend : nextKind ahead ≠ some (.symbol "=>")) :
      LoopHeader scope c list none item.name ⟨item :: word :: behind, ahead, endLine⟩

namespace LoopHeader

variable {scope : Scope} {c c' : Cursor} {list : Expr} {key : Option Text} {value : Text}

theorem openForeach_eq (h : LoopHeader scope c list key value c') :
    openForeach scope c = .ok (.foreach list key value) c' := by
  cases h with
  | keyed hlist hword hkey harrow hitem =>
    rw [openForeach, bind_of_ok hlist, bind_of_ok (takeWord_cons hword),
      bind_of_ok (loopVariable_cons hkey), skip_bind, if_pos (by simp [harrow])]
    simp only [if_true]
    rw [Cursor.advance, bind_of_ok (loopVariable_cons hitem)]
    rfl
  | plain hlist hword hitem hend =>
    rw [openForeach, bind_of_ok hlist, bind_of_ok (takeWord_cons hword),
      bind_of_ok (loopVariable_cons hitem), skip_bind, if_neg hend]
    rfl

theorem of_openForeach {st : Statement} (h : openForeach scope c = .ok st c') :
    ∃ list key value, st = .foreach list key value ∧ LoopHeader scope c list key value c' := by
  obtain ⟨list, d, hlist, h⟩ := bind_eq_ok h
  obtain ⟨⟨⟩, d₁, has, h⟩ := bind_eq_ok h
  obtain ⟨first, d₂, hfirst, h⟩ := bind_eq_ok h
  obtain ⟨behind, word, ahead, endLine, rfl, hword, rfl⟩ := takeWord_eq_ok has
  obtain ⟨_, t, ahead, _, hat, ht, rfl, rfl⟩ := loopVariable_eq_ok hfirst
  cases hat
  rw [skip_bind] at h
  split at h
  · rename_i hnext
    cases ahead with
    | nil => cases hnext
    | cons arrow ahead =>
      simp only [if_true] at h
      obtain ⟨value, d₃, hvalue, h⟩ := bind_eq_ok h
      obtain ⟨_, item, ahead, _, hat, hitem, rfl, rfl⟩ := loopVariable_eq_ok hvalue
      cases hat
      cases h
      exact ⟨list, some t.name, item.name, rfl,
        .keyed hlist hword ht (by simpa using hnext) hitem⟩
  · rename_i hnext
    cases h
    exact ⟨list, none, t.name, rfl, .plain hlist hword ht hnext⟩

theorem isAtom_names (hc : c.Lexed) (h : LoopHeader scope c list key value c') :
    isAtom (key.getD ['_']) = true ∧ isAtom value = true :=
  (gives_openForeach (S := fun _ => True) (T := fun _ => True) c _ c' hc h.openForeach_eq).1.1.2

end LoopHeader

/-! ## The statement as a line -/

/-- The key variable that a loop fills; an underscore stands for none. -/
def filledKey (key : Option Text) : Option Text := key.filter (· ≠ ['_'])

theorem keyName_getD (key : Option Text) : Script.keyName (key.getD ['_']) = filledKey key := by
  cases key with
  | none => rfl
  | some name => by_cases h : name = ['_'] <;> simp [Script.keyName, filledKey, Option.filter, h]

theorem shows_foreach {list : Expr} {key : Option Text} {value : Text} {form : Form}
    (hone : Text.OneLine list.code) (hform : readAll list.code = some [form])
    (hkey : isAtom (key.getD ['_']) = true) (hvalue : isAtom value = true) :
    Script.Shows (Statement.foreach list key value).render
      ⟨"foreach", [form, .atom (key.getD ['_']), .atom value]⟩ :=
  Script.shows_words (by decide) (.cons ⟨Form.reads_iff_readAll.mpr hform, hone⟩
    (.cons (Form.spells_atom hkey) (.cons (Form.spells_atom hvalue) .nil)))

theorem readStep_foreach (body : Script.BodyReader) (form : Form) (key : Option Text)
    (value : Text) (rest : List Script.Line) :
    Script.readStep body ⟨"foreach", [form, .atom (key.getD ['_']), .atom value]⟩ rest =
      (Script.readElse body "foreachelse" rest).map fun (steps, others, rest) =>
        (.foreach form (filledKey key) value steps others, rest) := by
  rw [← keyName_getD, Option.map_eq_bind]
  rfl

theorem render_foreach (list : Expr) (key : Option Text) (value : Text) :
    (Statement.foreach list key value).render =
      (("foreach ".toList ++ list.code) ++ ' ' :: key.getD ['_']) ++ ' ' :: value := by
  show Statement.words ["foreach", list.code, key.getD ['_'], value] = _
  simp only [Statement.words, List.append_assoc, List.cons_append]
  rfl

theorem render_foreach_inj {list list' : Expr} {key key' : Option Text} {value value' : Text}
    (hkey : isAtom (key.getD ['_']) = true) (hvalue : isAtom value = true)
    (hkey' : isAtom (key'.getD ['_']) = true) (hvalue' : isAtom value' = true)
    (h : (Statement.foreach list key value).render = (Statement.foreach list' key' value').render) :
    list.code = list'.code ∧ filledKey key = filledKey key' ∧ value = value' := by
  rw [render_foreach, render_foreach] at h
  obtain ⟨hfront, hitem⟩ := (Text.append_mark_inj (Form.space_not_mem_of_isAtom hvalue)
    (Form.space_not_mem_of_isAtom hvalue')).mp h
  obtain ⟨hlist, hname⟩ := (Text.append_mark_inj (Form.space_not_mem_of_isAtom hkey)
    (Form.space_not_mem_of_isAtom hkey')).mp hfront
  refine ⟨List.append_cancel_left hlist, ?_, hitem⟩
  rw [← keyName_getD, ← keyName_getD, hname]

/-! ## Rounds -/

section Rounds

open Script

/-- The variables of a round have its key and item, and nothing else has changed since `s`. -/
structure Begins (key : Option Text) (value : Text) (k v : Value) (s start : State) : Prop where
  hasItem : start.bindings.get? value = some v
  hasKey : ∀ name ∈ key, name ≠ value → start.bindings.get? name = some k
  others : ∀ name ∉ key, name ≠ value → start.bindings.get? name = s.bindings.get? name
  printed : start.printed = s.printed

/-- One round for each entry, in order, until the body leaves the loop or cannot go on. -/
inductive Rounds (run : Runner) (key : Option Text) (value : Text) (body : List Step) :
    List (Value × Value) → State → Outcome State → Prop
  | over {s : State} : Rounds run key value body [] s (.done s)
  | left {k v : Value} {more : List (Value × Value)} {s start t : State}
      (hstart : Begins key value k v s start) (hrun : run body start = .done (.broken, t)) :
      Rounds run key value body ((k, v) :: more) s (.done t)
  | next {k v : Value} {more : List (Value × Value)} {s start t : State} {flow : Flow}
      {o : Outcome State} (hstart : Begins key value k v s start)
      (hrun : run body start = .done (flow, t)) (hflow : flow ≠ .broken)
      (hmore : Rounds run key value body more t o) :
      Rounds run key value body ((k, v) :: more) s o
  | stuck {k v : Value} {more : List (Value × Value)} {s start : State}
      (hstart : Begins key value k v s start) (hrun : run body start = .stuck) :
      Rounds run key value body ((k, v) :: more) s .stuck
  | exhausted {k v : Value} {more : List (Value × Value)} {s start : State}
      (hstart : Begins key value k v s start) (hrun : run body start = .exhausted) :
      Rounds run key value body ((k, v) :: more) s .exhausted

theorem begins_assign (key : Option Text) (value : Text) (k v : Value) (s : State) :
    Begins key value k v s ((match key with
      | some name => s.assign name k
      | none => s).assign value v) := by
  cases key with
  | none =>
    exact ⟨by simp [State.assign], by simp, by simp +contextual [State.assign], rfl⟩
  | some name =>
    refine ⟨by simp [State.assign], ?_, ?_, rfl⟩
    · rintro _ ⟨⟩ hne
      simp [State.assign, hne]
    · intro other hother hne
      have hother : other ≠ name := by simpa [eq_comm] using hother
      simp [State.assign, hne, hother]

theorem rounds_runEntries (run : Runner) (key : Option Text) (value : Text) (body : List Step)
    (items : List (Value × Value)) (s : State) :
    Rounds run key value body items s (runEntries run key value body items s) := by
  induction items generalizing s with
  | nil => exact .over
  | cons entry more ih =>
    obtain ⟨k, v⟩ := entry
    have hstart := begins_assign key value k v s
    unfold runEntries
    simp only [Bind.bind, Outcome.bind]
    split
    · rename_i result hrun
      obtain ⟨flow, t⟩ := result
      dsimp only
      split
      · rename_i hflow
        subst hflow
        exact .left hstart hrun
      · rename_i hflow
        exact .next hstart hrun hflow (ih t)
    · exact .stuck hstart ‹_›
    · exact .exhausted hstart ‹_›

/-- Wherever the list has a value, the step goes round once for each of its entries. -/
def GoesRound (list : Form) (key : Option Text) (value : Text) : Prop :=
  ∀ (run : Runner) (bound : Nat) (body otherwise : List Step) (s : State) (items : Value),
    Script.eval s.bindings list = some items →
    (entries items = [] →
      runStep run bound (.foreach list key value body otherwise) s = run otherwise s) ∧
    (entries items ≠ [] → ∃ o, Rounds run key value body (entries items) s o ∧
      runStep run bound (.foreach list key value body otherwise) s =
        o.bind fun t => .done (.normal, t))

theorem goesRound_foreach (list : Form) (key : Option Text) (value : Text) :
    GoesRound list key value := by
  intro run bound body otherwise s items h
  have heval : s.eval list = .done items := by rw [State.eval, h, Outcome.ofOption]
  constructor
  · intro hnone
    simp only [runStep, heval, Bind.bind, Outcome.bind, hnone]
  · intro hsome
    obtain ⟨entry, more, hentries⟩ := List.exists_cons_of_ne_nil hsome
    refine ⟨_, rounds_runEntries .., ?_⟩
    simp only [runStep, heval, Bind.bind, Outcome.bind, hentries]
    rfl

end Rounds

/-! ## What a header says is what the loop does -/

/--
A header is accepted, and a script reads its statement as a loop over the same list that fills the
variables named. Only a header with the same list and variables is written like that, but that an
underscore is no key variable.
-/
theorem foreach_binds {scope : Scope} {c c' : Cursor} {list : Expr} {key : Option Text}
    {value : Text} (hc : c.Lexed) (h : LoopHeader scope c list key value c') :
    openForeach scope c = .ok (.foreach list key value) c' ∧
    (∀ form, Text.OneLine list.code → readAll list.code = some [form] →
      ∃ line, Script.Shows (Statement.foreach list key value).render line ∧
        (∀ body rest, Script.readStep body line rest =
          (Script.readElse body "foreachelse" rest).map fun (steps, others, rest) =>
            (.foreach form (filledKey key) value steps others, rest)) ∧
        GoesRound form (filledKey key) value) ∧
    ∀ {scope₂ : Scope} {c₂ c₂' : Cursor} {st : Statement}, c₂.Lexed →
      openForeach scope₂ c₂ = .ok st c₂' →
      st.render = (Statement.foreach list key value).render →
      ∃ list₂ key₂, LoopHeader scope₂ c₂ list₂ key₂ value c₂' ∧ list₂.code = list.code ∧
        filledKey key₂ = filledKey key := by
  obtain ⟨hkey, hvalue⟩ := h.isAtom_names hc
  refine ⟨h.openForeach_eq, ?_, ?_⟩
  · intro form hone hform
    exact ⟨_, shows_foreach hone hform hkey hvalue, fun body rest => readStep_foreach ..,
      goesRound_foreach form _ value⟩
  · intro scope₂ c₂ c₂' st hc₂ hopen hrender
    obtain ⟨list₂, key₂, value₂, rfl, h₂⟩ := LoopHeader.of_openForeach hopen
    obtain ⟨hkey₂, hvalue₂⟩ := h₂.isAtom_names hc₂
    obtain ⟨hlist, hkeys, rfl⟩ := render_foreach_inj hkey₂ hvalue₂ hkey hvalue hrender
    exact ⟨list₂, key₂, h₂, hlist, hkeys⟩

namespace Looped

def plain : Scope := Dialect.standard.scope ⟨0⟩

/-- The list, in code, and the variables of a header. -/
def opened? (source : Text) : Option (Text × Option Text × Text) :=
  match openForeach plain (Cursor.ofText source 1) with
  | .ok (.foreach list key value) _ => some (list.code, key, value)
  | _ => none

theorem exists_of_opened? {source code value : Text} {key : Option Text}
    (h : opened? source = some (code, key, value)) :
    ∃ list c, LoopHeader plain (Cursor.ofText source 1) list key value c ∧ list.code = code := by
  unfold opened? at h
  split at h
  · rename_i list key₂ value₂ c hopen
    obtain ⟨rfl, rfl, rfl⟩ : list.code = code ∧ key₂ = key ∧ value₂ = value := by simpa using h
    obtain ⟨_, _, _, hst, hheader⟩ := LoopHeader.of_openForeach hopen
    cases hst
    exact ⟨list, c, hheader, rfl⟩
  · cases h

/-- What the script of a template prints. -/
def printed? (fuel : Nat) (source : Text) (bindings : Variables) : Option Text :=
  match Template.compile Dialect.standard ⟨0⟩ ['t'] source with
  | .ok code =>
    match Script.render fuel code bindings with
    | .done text => some text
    | .stuck | .exhausted => none
  | .error _ => none

/-- Two ways to write one header, and the list in it as a form. -/
def spaced : Text := "$rows [ 'a' ] as $k => $v"

def tight : Text := "$rows.a as $k=>$v"

def rowsCode : Text := form "get" [form "var" ["rows"], Quoted.encode "a"]

def rows : Form := .list [.atom "get", .list [.atom "var", .atom "rows"], .string "a"]

theorem readAll_rowsCode : readAll rowsCode = some [rows] :=
  Form.reads_iff_readAll.mp (Form.reads_form (by decide)
    (.cons (Form.reads_form (by decide) (.cons (Form.reads_atom (by decide)) .nil))
      (.cons (Form.reads_encode _) .nil)))

def letters : Value := .object [("x", .whole 1), ("y", .whole 2)]

def start : Script.State := { bindings := ⟨[("rows", .object [("a", letters)])]⟩ }

/-- Prints the key and the item of a round. -/
def pairs : List Step :=
  [.echo (.list [.atom "var", .atom "k"]), .text "=", .echo (.list [.atom "var", .atom "v"])]

end Looped

open Looped Script in
theorem foreach_binds_respelt :
    ∃ list c st c₂ list₂ key₂ line o,
      LoopHeader plain (Cursor.ofText spaced 1) list (some ['k']) ['v'] c ∧
      openForeach plain (Cursor.ofText tight 1) = .ok st c₂ ∧
      st.render = (Statement.foreach list (some ['k']) ['v']).render ∧
      LoopHeader plain (Cursor.ofText tight 1) list₂ key₂ ['v'] c₂ ∧
      list₂.code = list.code ∧ filledKey key₂ = some ['k'] ∧
      Shows (Statement.foreach list (some ['k']) ['v']).render line ∧
      (∀ body rest, readStep body line rest =
        (readElse body "foreachelse" rest).map fun (steps, others, rest) =>
          (.foreach rows (some ['k']) ['v'] steps others, rest)) ∧
      Rounds (runSteps 9) (some ['k']) ['v'] pairs
        [(.string "x", .whole 1), (.string "y", .whole 2)] start o ∧
      runStep (runSteps 9) 9 (.foreach rows (some ['k']) ['v'] pairs []) start =
        o.bind fun t => .done (.normal, t) := by
  have hspaced : opened? spaced = some (rowsCode, some ['k'], ['v']) := by decide +kernel
  have htight : opened? tight = some (rowsCode, some ['k'], ['v']) := by decide +kernel
  obtain ⟨list, c, h, hcode⟩ := exists_of_opened? hspaced
  obtain ⟨other, c₂, hother, hcode'⟩ := exists_of_opened? htight
  have hsame : (Statement.foreach other (some ['k']) ['v']).render =
      (Statement.foreach list (some ['k']) ['v']).render := by
    rw [render_foreach, render_foreach, hcode, hcode']
  obtain ⟨-, hline, honly⟩ := foreach_binds (Cursor.lexed_ofText _ _) h
  obtain ⟨line, hshows, hread, hround⟩ :=
    hline rows (by rw [hcode]; decide) (by rw [hcode]; exact readAll_rowsCode)
  obtain ⟨o, hrounds, hrun⟩ :=
    (hround (runSteps 9) 9 pairs [] start letters rfl).2 (by simp [entries, letters])
  obtain ⟨list₂, key₂, h₂, hcode₂, hkey₂⟩ :=
    honly (Cursor.lexed_ofText _ _) hother.openForeach_eq hsame
  exact ⟨list, c, _, c₂, list₂, key₂, line, o, h, hother.openForeach_eq, hsame, h₂, hcode₂, hkey₂,
    hshows, hread, hrounds, hrun⟩

open Looped in
/-- A key variable that looks like none: the loop fills it with nothing. -/
theorem foreach_broken_underscore :
    (∃ list c list₂ c₂,
      LoopHeader plain (Cursor.ofText "$l as $_ => $v" 1) list (some ['_']) ['v'] c ∧
      LoopHeader plain (Cursor.ofText "$l as $v" 1) list₂ none ['v'] c₂ ∧
      (Statement.foreach list (some ['_']) ['v']).render =
        (Statement.foreach list₂ none ['v']).render) ∧
    printed? 20 "\x7bforeach $l as $_ => $v\x7d\x7b$_\x7d=\x7b$v\x7d \x7b/foreach\x7d"
      ⟨[(['l'], .list [.string "a", .string "b"])]⟩ = some "=a =b ".toList := by
  refine ⟨?_, by decide +kernel⟩
  have hkeyed : opened? "$l as $_ => $v" = some ("(var l)".toList, some ['_'], ['v']) := by
    decide +kernel
  have hplain : opened? "$l as $v" = some ("(var l)".toList, none, ['v']) := by decide +kernel
  obtain ⟨list, c, h, hcode⟩ := exists_of_opened? hkeyed
  obtain ⟨list₂, c₂, h₂, hcode₂⟩ := exists_of_opened? hplain
  refine ⟨list, c, list₂, c₂, h, h₂, ?_⟩
  rw [render_foreach, render_foreach, hcode, hcode₂]
  rfl

end Stencil
