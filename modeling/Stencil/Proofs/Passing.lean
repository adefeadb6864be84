import Stencil.Proofs.Steps
import Stencil.Proofs.Words

/-!
# Readers and words

`Passes` says that a reader passes over some words and what it gives for them; `Leads` says that a
loop gets over them. Readers made of parts are followed through their words part by part.
-/

namespace Stencil

open Reading

/-! ## The token that comes next -/

/-- The kind that comes next, where `k` is the kind after the words. -/
def headKind (words : List Word) (k : Option Kind) : Option Kind :=
  match words with
  | [] => k
  | w :: _ => some w.kind

@[simp] theorem headKind_nil (k : Option Kind) : headKind [] k = k := rfl

@[simp] theorem headKind_cons (w : Word) (words : List Word) (k : Option Kind) :
    headKind (w :: words) k = some w.kind := rfl

theorem headKind_append (words more : List Word) (k : Option Kind) :
    headKind (words ++ more) k = headKind words (headKind more k) := by
  cases words <;> rfl

theorem nextKind_append {tokens : List Token} {words : List Word}
    (h : tokens.map Token.word = words) (rest : List Token) :
    nextKind (tokens ++ rest) = headKind words (nextKind rest) := by
  subst h
  cases tokens <;> rfl

/-! ## Readers that pass over words -/

/--
The reader passes over the words and gives `a`, in front of any tokens that `ends` accepts by the
kind of the first, if there are no more than `n` tokens in all.
-/
def Passes {α : Type} (read : Reading α) (n : Nat) (words : List Word) (ends : Option Kind → Prop)
    (a : α) : Prop :=
  ∀ (behind tokens rest : List Token) (endLine : Nat), tokens.map Token.word = words →
    ends (nextKind rest) → (tokens ++ rest).length ≤ n →
    read ⟨behind, tokens ++ rest, endLine⟩ = .ok a ⟨tokens.reverse ++ behind, rest, endLine⟩

namespace Passes

variable {α β : Type} {read : Reading α} {f : α → Reading β} {n m : Nat} {words more : List Word}
  {w : Word} {ends ends' : Option Kind → Prop} {a : α} {b : β}

theorem mono (h : Passes read n words ends a) (hm : m ≤ n) (hends : ∀ k, ends' k → ends k) :
    Passes read m words ends' a := by
  intro behind tokens rest endLine hwords hk hn
  exact h behind tokens rest endLine hwords (hends _ hk) (Nat.le_trans hn hm)

theorem bind (h : Passes read n words ends a) (hends : ∀ k, ends' k → ends (headKind more k))
    (hf : Passes (f a) (n - words.length) more ends' b) :
    Passes (read >>= f) n (words ++ more) ends' b := by
  intro behind tokens rest endLine hwords hk hn
  obtain ⟨front, back, rfl, hfront, hback⟩ := List.map_eq_append_iff.mp hwords
  have hlen : front.length = words.length := by rw [← hfront, List.length_map]
  simp only [List.length_append] at hn
  rw [List.append_assoc, bind_of_ok (h behind front (back ++ rest) endLine hfront
    (by rw [nextKind_append hback]; exact hends _ hk) (by simp; omega))]
  rw [hf (front.reverse ++ behind) back rest endLine hback hk (by simp; omega)]
  simp

theorem step (h : Passes read n [w] (fun _ => True) a) (hf : Passes (f a) (n - 1) more ends' b) :
    Passes (read >>= f) n (w :: more) ends' b := by
  have hall : Passes (read >>= f) n ([w] ++ more) ends' b := bind h (fun _ _ => trivial) hf
  exact hall

theorem look (h : Passes read n [] ends a) (hends : ∀ k, ends' k → ends (headKind more k))
    (hf : Passes (f a) n more ends' b) : Passes (read >>= f) n more ends' b := by
  have hall : Passes (read >>= f) n ([] ++ more) ends' b := bind h hends hf
  exact hall

theorem map {g : α → β} (h : Passes read n words ends a) : Passes (g <$> read) n words ends (g a) := by
  intro behind tokens rest endLine hwords hk hn
  exact map_of_ok (h behind tokens rest endLine hwords hk hn)

theorem bind_pure {g : α → β} (h : Passes read n words ends a) :
    Passes (read >>= fun a => pure (g a)) n words ends (g a) := by
  intro behind tokens rest endLine hwords hk hn
  rw [bind_of_ok (h behind tokens rest endLine hwords hk hn)]
  rfl

theorem pure : Passes (pure a : Reading α) n [] ends a := by
  intro behind tokens rest endLine hwords _ _
  obtain rfl := List.map_eq_nil_iff.mp hwords
  rfl

theorem of_token (h : ∀ t, t.word = w → ∀ behind ahead endLine,
      read ⟨behind, t :: ahead, endLine⟩ = .ok a ⟨t :: behind, ahead, endLine⟩) :
    Passes read n [w] ends a := by
  intro behind tokens rest endLine hwords _ _
  obtain ⟨t, tokens, rfl, ht, htail⟩ := List.map_eq_cons_iff.mp hwords
  obtain rfl := List.map_eq_nil_iff.mp htail
  exact h t ht behind rest endLine

theorem of_symbol {s : Text} (hw : w.kind = .symbol s) :
    Passes (skip (Grammar.mark s)) n [w] ends true := by
  refine of_token ?_
  rintro t rfl behind ahead endLine
  exact skip_cons hw

theorem not_skip {s : Text} (hends : ∀ k, ends k → k ≠ some (.symbol s)) :
    Passes (skip (Grammar.mark s)) n [] ends false := by
  intro behind tokens rest endLine hwords hk _
  obtain rfl := List.map_eq_nil_iff.mp hwords
  exact skip_of_ne (hends _ hk)

theorem sees_true {s : Text} (hends : ∀ k, ends k → k = some (.symbol s)) :
    Passes (sees (Grammar.mark s)) n [] ends true := by
  intro behind tokens rest endLine hwords hk _
  obtain rfl := List.map_eq_nil_iff.mp hwords
  simp [sees_eq, hends _ hk]

theorem sees_false {s : Text} (hends : ∀ k, ends k → k ≠ some (.symbol s)) :
    Passes (sees (Grammar.mark s)) n [] ends false := by
  intro behind tokens rest endLine hwords hk _
  obtain rfl := List.map_eq_nil_iff.mp hwords
  simp [sees_eq, hends _ hk]

theorem take {k : Kind} (hw : w.kind = k) : Passes (take [.kind k]) n [w] ends w.text := by
  refine of_token ?_
  rintro t rfl behind ahead endLine
  exact take_cons hw

theorem take_name (text space : Text) :
    Passes (Reading.take [.kind .name]) n [⟨.name, text, space⟩] ends text :=
  take rfl

theorem discard_take {s : Text} (hw : w.kind = .symbol s) :
    Passes (discard (Reading.take (Grammar.mark s))) n [w] ends () :=
  (take hw).map

theorem advance : Passes advance n [w] ends () :=
  of_token fun t _ _ _ _ => advance_cons t

theorem takeOperator {role : Role} {s : Text} (hw : w.kind = .symbol s)
    (hr : role ∈ Symbol.roles s) : Passes (takeOperator? role) n [w] ends (some s) := by
  refine of_token ?_
  rintro t rfl behind ahead endLine
  exact takeOperator?_cons hw hr

theorem not_takeOperator {role : Role} (hends : ∀ k, ends k → operatorOf role k = none) :
    Passes (takeOperator? role) n [] ends none := by
  intro behind tokens rest endLine hwords hk _
  obtain rfl := List.map_eq_nil_iff.mp hwords
  exact takeOperator?_of_none (hends _ hk)

theorem skip_then {s : Text} {yes no : Reading β} (hw : w.kind = .symbol s)
    (h : Passes yes (n - 1) more ends' b) :
    Passes (skip (Grammar.mark s) >>= fun found => if found = true then yes else no) n (w :: more)
      ends' b := by
  refine step (of_symbol hw) ?_
  simpa using h

theorem skip_else {s : Text} {yes no : Reading β}
    (hends : ∀ k, ends' k → headKind more k ≠ some (.symbol s)) (h : Passes no n more ends' b) :
    Passes (skip (Grammar.mark s) >>= fun found => if found = true then yes else no) n more
      ends' b := by
  refine look (not_skip fun _ hk => hk) hends ?_
  simpa using h

theorem of_head {read' : Reading α} (h : Passes read' n (w :: words) ends a)
    (heq : ∀ behind t ahead endLine, t.word = w →
      read ⟨behind, t :: ahead, endLine⟩ = read' ⟨behind, t :: ahead, endLine⟩) :
    Passes read n (w :: words) ends a := by
  intro behind tokens rest endLine hwords hk hn
  obtain ⟨t, tail, rfl, ht, -⟩ := List.map_eq_cons_iff.mp hwords
  rw [← h behind (t :: tail) rest endLine hwords hk hn]
  exact heq behind t (tail ++ rest) endLine ht

theorem of_pos (read : Nat → Reading α) {bound : Nat} (hwords : words ≠ []) (hn : n ≤ bound)
    (h : ∀ b, bound = b + 1 → Passes (read (b + 1)) n words ends a) :
    Passes (read bound) n words ends a := by
  intro behind tokens rest endLine htokens hk hlen
  cases bound with
  | zero =>
    obtain rfl : tokens = [] := by
      simp only [List.length_append] at hlen
      exact List.eq_nil_of_length_eq_zero (by omega)
    exact absurd htokens.symm hwords
  | succ b => exact h b rfl behind tokens rest endLine htokens hk hlen

end Passes

/-! ## Readers that look at the token before -/

/-- As `Passes`, behind a token that has `space` after it. -/
def PassesAfter {α : Type} (space : Text) (read : Reading α) (n : Nat) (words : List Word)
    (ends : Option Kind → Prop) (a : α) : Prop :=
  ∀ (last : Token) (behind tokens rest : List Token) (endLine : Nat), last.space = space →
    tokens.map Token.word = words → ends (nextKind rest) → (tokens ++ rest).length ≤ n →
    read ⟨last :: behind, tokens ++ rest, endLine⟩ =
      .ok a ⟨tokens.reverse ++ last :: behind, rest, endLine⟩

theorem Passes.bind_after {α β : Type} {read : Reading α} {f : α → Reading β} {n : Nat}
    {words more : List Word} {ends ends' : Option Kind → Prop} {a : α} {b : β} {space : Text}
    (h : Passes read n words ends a) (hspace : words.getLast?.map Word.space = some space)
    (hends : ∀ k, ends' k → ends (headKind more k))
    (hf : PassesAfter space (f a) (n - words.length) more ends' b) :
    Passes (read >>= f) n (words ++ more) ends' b := by
  intro behind tokens rest endLine hwords hk hn
  obtain ⟨front, back, rfl, hfront, hback⟩ := List.map_eq_append_iff.mp hwords
  have hlen : front.length = words.length := by rw [← hfront, List.length_map]
  simp only [List.length_append] at hn
  obtain ⟨init, last, rfl⟩ : ∃ init last, front = init ++ [last] := by
    rcases List.eq_nil_or_concat front with rfl | ⟨init, last, rfl⟩
    · simp [← hfront] at hspace
    · exact ⟨init, last, by simp⟩
  have hlast : last.space = space := by simpa [← hfront, Token.word] using hspace
  rw [List.append_assoc, bind_of_ok (h behind (init ++ [last]) (back ++ rest) endLine hfront
    (by rw [nextKind_append hback]; exact hends _ hk) (by simp at hn ⊢; omega))]
  have hrest := hf last (init.reverse ++ behind) back rest endLine hlast hback hk
    (by simp at hlen hn ⊢; omega)
  simpa using hrest

theorem PassesAfter.bind_pure {α β : Type} {space : Text} {read : Reading α} {n : Nat}
    {words : List Word} {ends : Option Kind → Prop} {a : α} {g : α → β}
    (h : PassesAfter space read n words ends a) :
    PassesAfter space (read >>= fun a => pure (g a)) n words ends (g a) := by
  intro last behind tokens rest endLine hspace hwords hk hn
  rw [bind_of_ok (h last behind tokens rest endLine hspace hwords hk hn)]
  rfl

/-! ## Loops that get over words -/

/--
The work that starts at the words comes to what the loop `go` does behind them, where it has `x` and
may still go round as often as there are tokens left.
-/
def Leads {σ α : Type} (start : Reading α) (go : Nat → σ → Reading α) (n : Nat) (words : List Word)
    (ends : Option Kind → Prop) (x : σ) : Prop :=
  ∀ (behind tokens rest : List Token) (endLine : Nat), tokens.map Token.word = words →
    ends (nextKind rest) → (tokens ++ rest).length ≤ n →
    ∃ bound, rest.length ≤ bound ∧
      start ⟨behind, tokens ++ rest, endLine⟩ = go bound x ⟨tokens.reverse ++ behind, rest, endLine⟩

namespace Leads

variable {σ α : Type} {start : Reading α} {go : Nat → σ → Reading α} {n : Nat}
  {words more : List Word} {ends ends' : Option Kind → Prop} {x y : σ}

theorem of_passes (go : Nat → σ → Reading α) {read : Reading σ} {bound : Nat}
    (h : Passes read n words ends x) (hn : n ≤ bound) :
    Leads (read >>= go bound) go n words ends x := by
  intro behind tokens rest endLine hwords hk hlen
  refine ⟨bound, ?_, bind_of_ok (h behind tokens rest endLine hwords hk hlen)⟩
  simp only [List.length_append] at hlen
  omega

theorem mono (h : Leads start go n words ends x) (hends : ∀ k, ends' k → ends k) :
    Leads start go n words ends' x := by
  intro behind tokens rest endLine hwords hk hn
  exact h behind tokens rest endLine hwords (hends _ hk) hn

theorem trans (h : Leads start go n words ends x) (hends : ∀ k, ends' k → ends (headKind more k))
    (hmore : ∀ m bound, m ≤ n - words.length → m ≤ bound →
      Leads (go bound x) go m more ends' y) :
    Leads start go n (words ++ more) ends' y := by
  intro behind tokens rest endLine hwords hk hn
  obtain ⟨front, back, rfl, hfront, hback⟩ := List.map_eq_append_iff.mp hwords
  have hlen : front.length = words.length := by rw [← hfront, List.length_map]
  simp only [List.length_append] at hn
  obtain ⟨bound, hbound, hstart⟩ := h behind front (back ++ rest) endLine hfront
    (by rw [nextKind_append hback]; exact hends _ hk) (by simp; omega)
  obtain ⟨bound', hbound', hgo⟩ := hmore (back ++ rest).length bound (by simp; omega) hbound
    (front.reverse ++ behind) back rest endLine hback hk (Nat.le_refl _)
  refine ⟨bound', hbound', ?_⟩
  rw [List.append_assoc, hstart, hgo]
  simp

theorem done (go : Nat → σ → Reading α) {bound : Nat} (hn : n ≤ bound) : Leads (go bound x) go n [] ends x := by
  intro behind tokens rest endLine hwords _ hlen
  obtain rfl := List.map_eq_nil_iff.mp hwords
  exact ⟨bound, Nat.le_trans (by simpa using hlen) hn, rfl⟩

theorem bind {β : Type} {read : Reading β} {f : β → Reading α} {b : β}
    (h : Passes read n words ends b) (hends : ∀ k, ends' k → ends (headKind more k))
    (hf : Leads (f b) go (n - words.length) more ends' y) :
    Leads (read >>= f) go n (words ++ more) ends' y := by
  intro behind tokens rest endLine hwords hk hn
  obtain ⟨front, back, rfl, hfront, hback⟩ := List.map_eq_append_iff.mp hwords
  have hlen : front.length = words.length := by rw [← hfront, List.length_map]
  simp only [List.length_append] at hn
  obtain ⟨bound, hbound, hrest⟩ :=
    hf (front.reverse ++ behind) back rest endLine hback hk (by simp; omega)
  refine ⟨bound, hbound, ?_⟩
  rw [List.append_assoc, bind_of_ok (h behind front (back ++ rest) endLine hfront
    (by rw [nextKind_append hback]; exact hends _ hk) (by simp; omega)), hrest]
  simp

theorem step {β : Type} {read : Reading β} {f : β → Reading α} {b : β} {w : Word}
    (h : Passes read n [w] (fun _ => True) b) (hf : Leads (f b) go (n - 1) more ends' y) :
    Leads (read >>= f) go n (w :: more) ends' y := by
  have hall : Leads (read >>= f) go n ([w] ++ more) ends' y := bind h (fun _ _ => trivial) hf
  exact hall

theorem skip_then {s : Text} {w : Word} {yes no : Reading α} (hw : w.kind = .symbol s)
    (h : Leads yes go (n - 1) more ends' y) :
    Leads (skip (Grammar.mark s) >>= fun found => if found = true then yes else no) go n (w :: more)
      ends' y := by
  refine step (Passes.of_symbol hw) ?_
  simpa using h

theorem skip_else {s : Text} {yes no : Reading α}
    (hends : ∀ k, ends' k → headKind more k ≠ some (.symbol s)) (h : Leads no go n more ends' y) :
    Leads (skip (Grammar.mark s) >>= fun found => if found = true then yes else no) go n more
      ends' y := by
  have hlook : Leads (skip (Grammar.mark s) >>= fun found => if found = true then yes else no) go n
      ([] ++ more) ends' y := by
    refine bind (Passes.not_skip fun _ hk => hk) hends ?_
    simpa using h
  exact hlook

theorem of_head {w : Word} {start' : Reading α} (h : Leads start' go n (w :: words) ends x)
    (heq : ∀ behind t ahead endLine, t.word = w →
      start ⟨behind, t :: ahead, endLine⟩ = start' ⟨behind, t :: ahead, endLine⟩) :
    Leads start go n (w :: words) ends x := by
  intro behind tokens rest endLine hwords hk hn
  obtain ⟨bound, hbound, hstart⟩ := h behind tokens rest endLine hwords hk hn
  obtain ⟨t, tail, rfl, ht, -⟩ := List.map_eq_cons_iff.mp hwords
  exact ⟨bound, hbound, (heq behind t (tail ++ rest) endLine ht).trans hstart⟩

theorem of_turn (go : Nat → σ → Reading α) {bound : Nat} (hwords : words ≠ []) (hn : n ≤ bound)
    (h : ∀ b, bound = b + 1 → Leads (go (b + 1) x) go n words ends y) :
    Leads (go bound x) go n words ends y := by
  intro behind tokens rest endLine htokens hk hlen
  cases bound with
  | zero =>
    obtain rfl : tokens = [] := by
      simp only [List.length_append] at hlen
      exact List.eq_nil_of_length_eq_zero (by omega)
    exact absurd htokens.symm hwords
  | succ b => exact h b rfl behind tokens rest endLine htokens hk hlen

theorem passes {go : Nat → σ → Reading σ} {start : Reading σ} (h : Leads start go n words ends x)
    (hends : ∀ k, ends' k → ends k)
    (hgo : ∀ bound c, ends' (nextKind c.ahead) → go bound x c = .ok x c) :
    Passes start n words ends' x := by
  intro behind tokens rest endLine hwords hk hn
  obtain ⟨bound, -, hstart⟩ := h behind tokens rest endLine hwords (hends _ hk) hn
  rw [hstart]
  exact hgo bound _ hk

end Leads

end Stencil
