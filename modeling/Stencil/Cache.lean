import Stencil.Artifact
import Stencil.Table

/-!
# Caches

The artifacts that an engine keeps in memory under their names. A cache either keeps all of them or
none at all.
-/

namespace Stencil

inductive Cache where
  | retaining (entries : Table Text Shared)
  | idle

namespace Cache

def empty : Cache := .retaining {}

/-- The cache that suits some options: nothing is kept if all is compiled at every request. -/
def suited (options : Options) : Cache := if options.has .alwaysCompile then idle else empty

def get? (c : Cache) (name : Text) : Option Shared :=
  match c with
  | .retaining entries => entries.get? name
  | .idle => none

def insert (c : Cache) (s : Shared) : Cache :=
  match c with
  | .retaining entries => .retaining (entries.put s.artifact.name s)
  | .idle => .idle

def remove (c : Cache) (name : Text) : Cache :=
  match c with
  | .retaining entries => .retaining (entries.erase name)
  | .idle => .idle

def clear : Cache → Cache
  | .retaining _ => empty
  | .idle => .idle

def size : Cache → Nat
  | .retaining entries => entries.size
  | .idle => 0

def label : Cache → Text
  | .retaining _ => "retaining"
  | .idle => "noop"

variable (c : Cache) {name : Text} {s : Shared}

theorem get?_insert_self (h : c ≠ .idle) : (c.insert s).get? s.artifact.name = some s := by
  cases c with
  | retaining entries => simp [insert, get?]
  | idle => exact absurd rfl h

theorem get?_insert_of_ne (h : name ≠ s.artifact.name) : (c.insert s).get? name = c.get? name := by
  cases c <;> simp [insert, get?, h]

@[simp] theorem get?_remove_self : (c.remove name).get? name = none := by
  cases c <;> simp [remove, get?]

@[simp] theorem remove_remove : (c.remove name).remove name = c.remove name := by
  cases c <;> simp [remove, Table.erase]

theorem get?_remove_of_ne {other : Text} (h : other ≠ name) :
    (c.remove name).get? other = c.get? other := by
  cases c <;> simp [remove, get?, h]

@[simp] theorem get?_clear : c.clear.get? name = none := by
  cases c <;> rfl

@[simp] theorem insert_eq_idle : c.insert s = .idle ↔ c = .idle := by
  cases c <;> simp [insert]

@[simp] theorem remove_eq_idle : c.remove name = .idle ↔ c = .idle := by
  cases c <;> simp [remove]

@[simp] theorem clear_eq_idle : c.clear = .idle ↔ c = .idle := by
  cases c <;> simp [clear, empty]

@[simp] theorem suited_eq_idle {options : Options} :
    suited options = .idle ↔ options.has .alwaysCompile = true := by
  unfold suited
  split <;> simp_all [empty]

end Cache

end Stencil
