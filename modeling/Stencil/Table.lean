/-!
# Tables

A table maps names to things. It is a list of pairs in the order of their names, by code point, with
one pair for a name. Two tables with the same pairs are therefore equal, and what visits a table
visits it in that order.
-/

namespace Stencil

/-- Pairs of a name and a thing, in the order of the names. -/
abbrev Table (α : Type) := List (String × α)

namespace Table

variable {α : Type}

/-- The table in which a name maps to a thing, whatever it mapped to before. -/
def insert (name : String) (thing : α) : Table α → Table α
  | [] => [(name, thing)]
  | (other, kept) :: rest =>
    if name = other then (name, thing) :: rest
    else if name < other then (name, thing) :: (other, kept) :: rest
    else (other, kept) :: insert name thing rest

def find? (name : String) : Table α → Option α
  | [] => none
  | (other, thing) :: rest => if name = other then some thing else find? name rest

def contains (name : String) (table : Table α) : Bool :=
  (table.find? name).isSome

def erase (name : String) (table : Table α) : Table α :=
  table.filter fun entry => entry.1 ≠ name

def names (table : Table α) : List String :=
  table.map Prod.fst

/-- The table of some pairs, where a later pair replaces an earlier one of its name. -/
def ofPairs (pairs : List (String × α)) : Table α :=
  pairs.foldl (fun table entry => table.insert entry.1 entry.2) []

@[simp] theorem find?_insert_self (name : String) (thing : α) (table : Table α) :
    (table.insert name thing).find? name = some thing := by
  induction table with
  | nil => simp [insert, find?]
  | cons entry rest ih =>
    rw [insert]
    split
    · simp [find?]
    · split
      · simp [find?]
      · simp_all [find?]

theorem find?_insert_of_ne {name other : String} (h : other ≠ name) (thing : α) (table : Table α) :
    (table.insert name thing).find? other = table.find? other := by
  induction table with
  | nil => simp [insert, find?, h]
  | cons entry rest ih =>
    rw [insert]
    split
    · next heq => simp [find?, ← heq, h]
    · split
      · simp [find?, h]
      · simp [find?, ih]

end Table

end Stencil
