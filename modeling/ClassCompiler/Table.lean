/-!
# Tables

Finite maps as lists of pairs with at most one pair per key. The order of the pairs shows in no
answer; a table is read through `get?` only.

* `Table.get?_insert`, `Table.get?_modify`: reading after a write
-/

namespace ClassCompiler

/-- A finite map. -/
structure Table (α β : Type) where
  pairs : List (α × β) := []
  deriving DecidableEq

namespace Table

variable {α β : Type}

def empty : Table α β := {}

instance : EmptyCollection (Table α β) := ⟨empty⟩

instance : Inhabited (Table α β) := ⟨empty⟩

def size (table : Table α β) : Nat := table.pairs.length

def values (table : Table α β) : List β := table.pairs.map (·.2)

variable [DecidableEq α]

def get? (table : Table α β) (key : α) : Option β :=
  (table.pairs.find? fun pair => pair.1 = key).map (·.2)

def contains (table : Table α β) (key : α) : Bool := (table.get? key).isSome

/-- Puts a value at a key in place of the one that was there. -/
def insert (table : Table α β) (key : α) (value : β) : Table α β where
  pairs := (key, value) :: table.pairs.filter fun pair => pair.1 ≠ key

/-- Changes the value at a key, if there is one. -/
def modify (table : Table α β) (key : α) (change : β → β) : Table α β where
  pairs := table.pairs.map fun pair => if pair.1 = key then (pair.1, change pair.2) else pair

/-- Keeps the pairs whose value passes a test. -/
def filterValues (table : Table α β) (keep : β → Bool) : Table α β where
  pairs := table.pairs.filter fun pair => keep pair.2

/-! ## Reading back -/

@[simp] theorem get?_empty (key : α) : (∅ : Table α β).get? key = none := rfl

theorem get?_insert_self (table : Table α β) (key : α) (value : β) :
    (table.insert key value).get? key = some value := by
  simp [get?, insert]

theorem get?_insert_of_ne (table : Table α β) {key other : α} (value : β) (h : other ≠ key) :
    (table.insert key value).get? other = table.get? other := by
  have hfind : ∀ pairs : List (α × β),
      (pairs.filter fun pair => pair.1 ≠ key).find? (fun pair => pair.1 = other)
        = pairs.find? fun pair => pair.1 = other := by
    intro pairs
    induction pairs with
    | nil => rfl
    | cons pair rest ih =>
      by_cases hkey : pair.1 = key
      · have hother : ¬ pair.1 = other := fun e => h (e ▸ hkey)
        simp only [ne_eq, hkey, not_true_eq_false, decide_false, Bool.false_eq_true,
          not_false_eq_true, List.filter_cons_of_neg]
        rw [ih, List.find?_cons_of_neg (by simpa using hother)]
      · rw [List.filter_cons_of_pos (by simpa using hkey), List.find?_cons, List.find?_cons, ih]
  simp only [get?, insert]
  rw [List.find?_cons_of_neg (by simpa using Ne.symm h), hfind]

theorem get?_insert (table : Table α β) (key other : α) (value : β) :
    (table.insert key value).get? other = if other = key then some value else table.get? other := by
  split
  · next h => rw [h, get?_insert_self]
  · next h => exact get?_insert_of_ne table value h

theorem get?_modify (table : Table α β) (key other : α) (change : β → β) :
    (table.modify key change).get? other
      = if other = key then (table.get? other).map change else table.get? other := by
  obtain ⟨pairs⟩ := table
  simp only [get?, modify]
  induction pairs with
  | nil => simp
  | cons pair rest ih =>
    rw [List.map_cons, List.find?_cons, List.find?_cons]
    by_cases hkey : pair.1 = key <;> by_cases hother : pair.1 = other <;> grind

end Table

end ClassCompiler
