import Stencil.Proofs.Includes
import Stencil.Proofs.Passages

/-!
# What flags change

Three flags matter to a template. Two of them only refuse calls, so that a template compiles to the
same script or is refused. The third embeds those inclusions whose template is named by a plain
string, and changes nothing else.
-/

namespace Stencil

open Template

/-! ## Masks -/

namespace Options

theorem and_or_right (a b c : UInt32) : (a ||| b) &&& c = (a &&& c) ||| (b &&& c) := by
  apply UInt32.toNat_inj.mp
  rw [UInt32.toNat_and, UInt32.toNat_or, UInt32.toNat_or, UInt32.toNat_and, UInt32.toNat_and,
    Nat.and_or_distrib_right]

variable {o : Options} {flag : Flag} {bits : UInt32}

theorem has_iff : o.has flag = true ↔ o.bits &&& flag.bit = flag.bit := by
  rw [has, beq_iff_eq]

theorem has_or (h : o.has flag = true) : has ⟨o.bits ||| bits⟩ flag = true := by
  rw [has_iff] at h ⊢
  rw [and_or_right, h]
  apply UInt32.toNat_inj.mp
  rw [UInt32.toNat_or, UInt32.toNat_and]
  apply Nat.eq_of_testBit_eq
  intro i
  rw [Nat.testBit_or, Nat.testBit_and]
  cases flag.bit.toNat.testBit i <;> simp

theorem has_or_of_disjoint (h : bits &&& flag.bit = 0) :
    has ⟨o.bits ||| bits⟩ flag = o.has flag := by
  rw [has, and_or_right, h, UInt32.or_zero, has]

theorem has_put_embedIncludes (o : Options) :
    (o.put .embedIncludes true).has .denyMethods = o.has .denyMethods ∧
      (o.put .embedIncludes true).has .denyFunctions = o.has .denyFunctions ∧
      (o.put .embedIncludes true).has .embedIncludes = true := by
  refine ⟨has_or_of_disjoint (by decide), has_or_of_disjoint (by decide), ?_⟩
  rw [has_iff]
  show (o.bits ||| Flag.embedIncludes.bit) &&& Flag.embedIncludes.bit = Flag.embedIncludes.bit
  rw [UInt32.or_comm]
  exact has_iff.mp (has_or (o := ⟨Flag.embedIncludes.bit⟩) (by decide))

end Options

/-! ## Scopes -/

def Fault.IsRefusal (fault : Fault) : Prop := ∃ callee, fault = .disallowedCall callee

section

variable {o o' : Options}

theorem Library.modifier_congr {l : Library} {name : Text} (h : l.permits o' name = l.permits o name) :
    l.modifier o' name = l.modifier o name := by
  rw [modifier, h, modifier]

theorem narrows_of_has_eq (d : Dialect) (hmethods : o'.has .denyMethods = o.has .denyMethods)
    (hfunctions : o'.has .denyFunctions = o.has .denyFunctions) :
    (d.scope o).Narrows (fun _ => False) (d.scope o') := by
  have hpermits (name : Text) : d.library.permits o' name = d.library.permits o name := by
    rw [Library.permits, hfunctions, Library.permits]
  exact ⟨.inl hmethods, fun name => .inl (hpermits name),
    fun name => .inl (Library.modifier_congr (hpermits name))⟩

theorem narrows_of_has (d : Dialect)
    (hmethods : o.has .denyMethods = true → o'.has .denyMethods = true)
    (hfunctions : o.has .denyFunctions = true → o'.has .denyFunctions = true) :
    (d.scope o).Narrows Fault.IsRefusal (d.scope o') := by
  have hpermits (name : Text) : d.library.permits o' name = d.library.permits o name ∨
      d.library.permits o' name = false := by
    unfold Library.permits
    cases ho : o.has .denyFunctions with
    | true =>
      rw [hfunctions ho]
      exact .inl rfl
    | false =>
      cases o'.has .denyFunctions <;> cases decide (name ∈ d.library.allowed) <;> simp
  refine ⟨?_, fun name => ?_, fun name => ?_⟩
  · show o'.has .denyMethods = o.has .denyMethods ∨ o'.has .denyMethods = true ∧ _
    cases ho : o.has .denyMethods with
    | true => exact .inl (hmethods ho)
    | false =>
      cases o'.has .denyMethods with
      | true => exact .inr ⟨rfl, fun name => ⟨name, rfl⟩⟩
      | false => exact .inl rfl
  · exact (hpermits name).imp_right fun hdeny => ⟨hdeny, name, rfl⟩
  · rcases hpermits name with heq | hdeny
    · exact .inl (Library.modifier_congr heq)
    · show d.library.modifier o' name = d.library.modifier o name ∨
        d.library.modifier o' name = .error (.disallowedCall name) ∧ _
      unfold Library.modifier
      cases d.library.modifiers.lookup name with
      | some symbol => exact .inl rfl
      | none =>
        rw [hdeny]
        by_cases hknown : (name ∈ d.library.allowed || name ∈ d.library.host) = true
        · exact .inr ⟨by simp only [hknown]; rfl, name, rfl⟩
        · exact .inl (by simp only [hknown]; rfl)

theorem turns_id (d : Dialect) (h : o'.has .embedIncludes = o.has .embedIncludes) :
    (d.scope o).Turns id (d.scope o') := by
  refine ⟨fun name params => ?_, fun _ _ => rfl⟩
  show Statement.inclusion _ name params = .inclusion (name.isString && o'.has .embedIncludes) _ _
  rw [h]
  rfl

/-- The inclusion of a template that a plain string names is embedded. -/
def Statement.embedded : Statement → Statement
  | .inclusion embedded name params => .inclusion (embedded || name.isString) name params
  | s => s

theorem turns_embedded (d : Dialect) (h : o'.has .embedIncludes = true) :
    (d.scope o).Turns Statement.embedded (d.scope o') := by
  refine ⟨fun name params => ?_, fun s hs => ?_⟩
  · show Statement.inclusion ((name.isString && o.has .embedIncludes) || name.isString) name params =
      .inclusion (name.isString && o'.has .embedIncludes) name params
    rw [h]
    cases name.isString <;> cases o.has .embedIncludes <;> rfl
  · cases s with
    | inclusion embedded name params => cases hs
    | _ => rfl

end

/-! ## Flags that refuse -/

section

variable {faults : Fault → Prop} {d : Dialect} {o o' : Options} {name : Text}

theorem compile_narrowed (hd : d.BuiltIn) (hscope : (d.scope o).Narrows faults (d.scope o'))
    (hembed : o'.has .embedIncludes = o.has .embedIncludes) (name source : Text) :
    compile d o' name source = compile d o name source ∨
      ∃ line fault, faults fault ∧ compile d o' name source = .error (Failure.of name line fault) := by
  have hkept : Output.KeptBy id Eq := ⟨by rintro _ _ t rfl; rfl, by rintro _ _ line s rfl; rfl⟩
  have hparallel := parallel_compile hd hscope (turns_id d hembed) hkept name rfl source
  generalize compile d o name source = r at hparallel ⊢
  generalize compile d o' name source = r' at hparallel ⊢
  cases hparallel with
  | ok h =>
    obtain ⟨output, _, rfl, rfl, rfl⟩ := h
    exact .inl rfl
  | error => exact .inl rfl
  | refused hfault => exact .inr ⟨_, _, hfault, rfl⟩

end

/-! ## The flag that embeds -/

def Translation.embedded (t : Translation) : Translation :=
  { t with statement := t.statement.embedded }

section

variable {o o' : Options} {frames frames' : List Frame} {line : Nat}
  {translations : List Translation} {stack : Script.Stack}

theorem Translated.embedded (hscope : (Dialect.standard.scope o).Narrows (fun _ => False)
      (Dialect.standard.scope o')) (hembed : o'.has .embedIncludes = true)
    (h : Translated Dialect.standard o line frames translations frames') :
    Translated Dialect.standard o' line frames (translations.map Translation.embedded) frames' := by
  induction h with
  | nil => exact .nil
  | @cons line frames _ _ t more c htag _ ih =>
    have hturned := turns_compileBody hscope (turns_embedded _ hembed) Dialect.builtIn_standard
      (t.tagLine line) frames (bodyCursor (t.tagLine line) t.body)
    rw [htag] at hturned
    generalize hrun : compileBody Dialect.standard o' (t.tagLine line) frames
      (bodyCursor (t.tagLine line) t.body) = r at hturned
    cases hturned with
    | ok h =>
      cases h
      exact .cons hrun ih
    | refused hfault => exact hfault.elim

theorem Translated.inclusion_of_literal (hstack : Follows stack frames)
    (h : Translated Dialect.standard o line frames translations frames') :
    ∀ t ∈ translations, IncludesLiteral (tagWords t.body) →
      ∃ value ps, t.statement = .inclusion (o.has .embedIncludes) (.string value) ps := by
  induction h generalizing stack with
  | nil => simp
  | @cons line frames _ _ t more c htag _ ih =>
    obtain ⟨stack', -, -, hfollows⟩ := advances_of_compileBody hstack htag
    refine List.forall_mem_cons.mpr ⟨fun hliteral => ?_, ih hfollows⟩
    rw [← word_bodyCursor (t.tagLine line)] at hliteral
    exact inclusion_of_includesLiteral hstack.opened hliteral htag

theorem Translated.embedded_eq_self (hstack : Follows stack frames)
    (h : Translated Dialect.standard o line frames translations frames') :
    ∀ t ∈ translations, ¬ IncludesLiteral (tagWords t.body) → t.statement.embedded = t.statement := by
  induction h generalizing stack with
  | nil => simp
  | @cons line frames _ _ t more c htag _ ih =>
    obtain ⟨stack', -, -, hfollows⟩ := advances_of_compileBody hstack htag
    refine List.forall_mem_cons.mpr ⟨fun hliteral => ?_, ih hfollows⟩
    rw [← word_bodyCursor (t.tagLine line)] at hliteral
    cases hstatement : t.statement with
    | inclusion embedded name ps =>
      rw [hstatement] at htag
      have hname : name.isString = false := by
        rw [← Bool.not_eq_true]
        exact fun hname => hliteral (includesLiteral_of_inclusion hstack.opened hname htag)
      rw [Statement.embedded, hname, Bool.or_false]
    | _ => rfl

end

/--
The first script comes from these passages, and the second one from the same passages with each
inclusion by a plain string embedded.
-/
structure Embeds (o : Options) (source code code' : Text) (translations : List Translation)
    (last : List Chunk) : Prop where
  cut : Cut source (translations.map Translation.toPassage) last
  translated : Translated Dialect.standard o 1 [] translations []
  code_eq : code = scriptOf translations last
  embedded_eq : code' = scriptOf (translations.map Translation.embedded) last
  literal : ∀ t ∈ translations, IncludesLiteral (tagWords t.body) → ∃ value ps,
    t.statement = .inclusion (o.has .embedIncludes) (.string value) ps ∧
      t.embedded.statement = .inclusion true (.string value) ps
  other : ∀ t ∈ translations, ¬ IncludesLiteral (tagWords t.body) →
    t.embedded.statement = t.statement

theorem compile_embedded {o : Options} {name source code : Text}
    (h : compile Dialect.standard o name source = .ok code) :
    ∃ code' translations last,
      compile Dialect.standard (o.put .embedIncludes true) name source = .ok code' ∧
      Embeds o source code code' translations last := by
  obtain ⟨hmethods, hfunctions, hembed⟩ := o.has_put_embedIncludes
  have hfault := (compile_eq_ok_iff.mp h).1
  obtain ⟨translations, last, hcut, hsegments, htranslated, rfl⟩ := exists_cut_of_compile h
  have hembedded := htranslated.embedded (narrows_of_has_eq _ hmethods hfunctions) hembed
  have hpassages : (translations.map Translation.embedded).map Translation.toPassage =
      translations.map Translation.toPassage := by
    rw [List.map_map]
    rfl
  rw [← hpassages] at hsegments
  refine ⟨_, translations, last, hembedded.compile_eq hfault hsegments name, hcut, htranslated, rfl,
    rfl, fun t ht hliteral => ?_, htranslated.embedded_eq_self .nil⟩
  obtain ⟨value, ps, hstatement⟩ := htranslated.inclusion_of_literal .nil t ht hliteral
  refine ⟨value, ps, hstatement, ?_⟩
  rw [Translation.embedded, hstatement, Statement.embedded, Expr.isString, Bool.or_true]

theorem compile_error_embedded {o : Options} {name source : Text} {failure : Failure}
    (h : compile Dialect.standard o name source = .error failure) :
    compile Dialect.standard (o.put .embedIncludes true) name source = .error failure := by
  obtain ⟨hmethods, hfunctions, hembed⟩ := o.has_put_embedIncludes
  have hkept : Output.KeptBy Statement.embedded fun _ _ => True := ⟨by simp, by simp⟩
  have hparallel := parallel_compile Dialect.builtIn_standard
    (narrows_of_has_eq Dialect.standard hmethods hfunctions) (turns_embedded _ hembed) hkept name
    trivial source
  rw [h] at hparallel
  generalize compile Dialect.standard (o.put .embedIncludes true) name source = r at hparallel ⊢
  cases hparallel with
  | error => rfl
  | refused hfault => exact hfault.elim

/--
Only the flags that deny calls and the one that embeds matter to a template. Denying calls leaves its
script as it is, unless the template is refused for a call. Embedding leaves its failure as it is, and
its script up to the inclusions of templates that a plain string names.
-/
theorem compile_flags (name source : Text) :
    (∀ o o' : Options,
      (∀ flag ∈ [Flag.denyMethods, .denyFunctions, .embedIncludes], o'.has flag = o.has flag) →
      compile Dialect.standard o' name source = compile Dialect.standard o name source) ∧
    (∀ o r : Options, r.bits &&& (Flag.denyMethods.bit ||| Flag.denyFunctions.bit) = r.bits →
      compile Dialect.standard ⟨o.bits ||| r.bits⟩ name source =
          compile Dialect.standard o name source ∨
        ∃ line callee, compile Dialect.standard ⟨o.bits ||| r.bits⟩ name source =
          .error (Failure.of name line (.disallowedCall callee))) ∧
    ∀ o : Options,
      (∀ failure, compile Dialect.standard o name source = .error failure ↔
        compile Dialect.standard (o.put .embedIncludes true) name source = .error failure) ∧
      ∀ code, compile Dialect.standard o name source = .ok code →
        ∃ code' translations last,
          compile Dialect.standard (o.put .embedIncludes true) name source = .ok code' ∧
          Embeds o source code code' translations last := by
  refine ⟨fun o o' hflags => ?_, fun o r hr => ?_, fun o => ⟨fun failure => ?_, fun code hcode => ?_⟩⟩
  · have hscope := narrows_of_has_eq Dialect.standard (hflags .denyMethods (by simp))
      (hflags .denyFunctions (by simp))
    rcases compile_narrowed Dialect.builtIn_standard hscope (hflags .embedIncludes (by simp)) name
      source with heq | ⟨_, _, hfalse, -⟩
    · exact heq
    · exact hfalse.elim
  · have hembed : r.bits &&& Flag.embedIncludes.bit = 0 := by
      have hdisjoint : (Flag.denyMethods.bit ||| Flag.denyFunctions.bit) &&& Flag.embedIncludes.bit =
          0 := by decide
      rw [← hr, UInt32.and_assoc, hdisjoint, UInt32.and_zero]
    have hscope : (Dialect.standard.scope o).Narrows Fault.IsRefusal
        (Dialect.standard.scope ⟨o.bits ||| r.bits⟩) :=
      narrows_of_has _ Options.has_or Options.has_or
    refine (compile_narrowed Dialect.builtIn_standard hscope (Options.has_or_of_disjoint hembed) name
      source).imp_right ?_
    rintro ⟨line, _, ⟨callee, rfl⟩, herror⟩
    exact ⟨line, callee, herror⟩
  · refine ⟨compile_error_embedded, fun herror => ?_⟩
    cases hcompile : compile Dialect.standard o name source with
    | error other =>
      rw [← herror, compile_error_embedded hcompile]
    | ok code =>
      obtain ⟨code', _, _, hok, -⟩ := compile_embedded hcompile
      cases hok.symm.trans herror
  · exact compile_embedded hcode

/-- Templates that are included by a string, by a string in parentheses and by what a method gives. -/
def inclusions : Text :=
  "\x7binclude 'a'\x7d\x7binclude ((\"b\")) n=1\x7d\x7binclude $c->d()\x7d".toList

theorem compile_flags_inclusions :
    compile Dialect.standard ⟨0x100⟩ ['t'] inclusions = compile Dialect.standard ⟨0⟩ ['t'] inclusions ∧
      (∃ line callee, compile Dialect.standard ⟨0x10⟩ ['t'] inclusions =
        .error (Failure.of ['t'] line (.disallowedCall callee))) ∧
      ∃ code code' translations last,
        compile Dialect.standard ⟨0⟩ ['t'] inclusions = .ok code ∧
        compile Dialect.standard ⟨0x40⟩ ['t'] inclusions = .ok code' ∧ code' ≠ code ∧
        Embeds ⟨0⟩ inclusions code code' translations last := by
  have hdone : (compile Dialect.standard ⟨0⟩ ['t'] inclusions).isOk = true := by decide +kernel
  have hrefused : (compile Dialect.standard ⟨0x10⟩ ['t'] inclusions).isOk = false := by decide +kernel
  have hchanged : (compile Dialect.standard ⟨0x40⟩ ['t'] inclusions).toOption ≠
      (compile Dialect.standard ⟨0⟩ ['t'] inclusions).toOption := by decide +kernel
  obtain ⟨hagree, hdeny, hembed⟩ := compile_flags ['t'] inclusions
  refine ⟨hagree ⟨0⟩ ⟨0x100⟩ (by decide), ?_, ?_⟩
  · rcases hdeny ⟨0⟩ ⟨0x10⟩ (by decide) with hsame | herror
    · have hok : (compile Dialect.standard ⟨0x10⟩ ['t'] inclusions).isOk = true :=
        (congrArg Except.isOk hsame).trans hdone
      rw [hrefused] at hok
      cases hok
    · exact herror
  · cases hcompile : compile Dialect.standard ⟨0⟩ ['t'] inclusions with
    | error failure =>
      rw [hcompile] at hdone
      cases hdone
    | ok code =>
      obtain ⟨code', translations, last, hcode, hembeds⟩ := (hembed ⟨0⟩).2 code hcompile
      refine ⟨code, code', translations, last, rfl, hcode, ?_, hembeds⟩
      rintro rfl
      exact hchanged (congrArg Except.toOption (hcode.trans hcompile.symm))

end Stencil
