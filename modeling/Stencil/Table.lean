/-!
# Tables

Values under keys, one for each key. What is put under a key replaces what stood there.
-/

namespace Stencil

structure Table (κ : Type u) (α : Type v) where
  entries : List (κ × α) := []
deriving Repr, DecidableEq, Inhabited

namespace Table

variable {κ : Type u} {α : Type v} [DecidableEq κ]

def get? (t : Table κ α) (key : κ) : Option α := (t.entries.find? (·.1 = key)).map (·.2)

def has (t : Table κ α) (key : κ) : Bool := (t.get? key).isSome

def erase (t : Table κ α) (key : κ) : Table κ α := ⟨t.entries.filter (·.1 ≠ key)⟩

def put (t : Table κ α) (key : κ) (value : α) : Table κ α := ⟨(key, value) :: (t.erase key).entries⟩

def keys (t : Table κ α) : List κ := t.entries.map (·.1)

def size (t : Table κ α) : Nat := t.entries.length

@[simp] theorem get?_erase_self (t : Table κ α) (key : κ) : (t.erase key).get? key = none := by
  simp [get?, erase]

@[simp] theorem get?_erase_of_ne (t : Table κ α) {key other : κ} (h : other ≠ key) :
    (t.erase key).get? other = t.get? other := by
  simp only [get?, erase, List.find?_filter]
  congr 2
  funext e
  by_cases he : e.1 = other <;> simp [he, h]

@[simp] theorem get?_put_self (t : Table κ α) (key : κ) (value : α) :
    (t.put key value).get? key = some value := by
  simp [get?, put]

@[simp] theorem get?_put_of_ne (t : Table κ α) {key other : κ} (value : α) (h : other ≠ key) :
    (t.put key value).get? other = t.get? other := by
  rw [← get?_erase_of_ne t h]
  simp [get?, put, Ne.symm h]

@[simp] theorem erase_put_self (t : Table κ α) (key : κ) (value : α) :
    (t.put key value).erase key = t.erase key := by
  simp [put, erase]

@[simp] theorem put_put_self (t : Table κ α) (key : κ) (value value' : α) :
    (t.put key value).put key value' = t.put key value' := by
  rw [put, erase_put_self, ← put]

theorem erase_of_none {t : Table κ α} {key : κ} (h : t.get? key = none) : t.erase key = t := by
  have hkeys : ∀ e ∈ t.entries, e.1 ≠ key := by simpa [get?] using h
  simp only [erase]
  rw [List.filter_eq_self.mpr fun e he => decide_eq_true (hkeys e he)]

end Table

end Stencil
