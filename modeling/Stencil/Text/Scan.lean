import Stencil.Text.Bytes

/-!
# Scanning a text

A scan reads items from left to right until the text ends or a step fails. A step sees the place it
stands at, the character there and what follows. It says what it read, if anything, and how many of
the characters that follow belong to it as well. The scan walks over those one by one, so it
recurses on the text itself.
-/

namespace Stencil

/-- What a scan read, in order, and what stopped it short of the end, if anything did. -/
structure Scanned (ε α : Type) where
  items : List α
  failure : Option ε
deriving Repr, DecidableEq

namespace Scanned

variable {ε α : Type}

def add (item : Option α) (scanned : Scanned ε α) : Scanned ε α :=
  { scanned with items := item.toList ++ scanned.items }

/-- The first item with the rest, nothing at the end, or the failure that comes before any item. -/
def next : Scanned ε α → Except ε (Option (α × Scanned ε α))
  | ⟨item :: items, failure⟩ => .ok (some (item, ⟨items, failure⟩))
  | ⟨[], some failure⟩ => .error failure
  | ⟨[], none⟩ => .ok none

/-- The items of a scan that reached the end. -/
def all (scanned : Scanned ε α) : Except ε (List α) :=
  match scanned.failure with
  | some failure => .error failure
  | none => .ok scanned.items

end Scanned

variable {ε α : Type}

/-- A step takes a place, the character there and the rest, and returns an item and the number of
further characters that it took. -/
abbrev ScanStep (ε α : Type) := Nat → Char → List Char → Except ε (Option α × Nat)

/-- Scans a text that starts at a place, after the given number of characters that are already
read. -/
def scan (step : ScanStep ε α) : Nat → Nat → List Char → Scanned ε α
  | _, _, [] => ⟨[], none⟩
  | skip + 1, place, char :: rest => scan step skip (place + char.utf8Size) rest
  | 0, place, char :: rest =>
    match step place char rest with
    | .error failure => ⟨[], some failure⟩
    | .ok (item, taken) => (scan step taken (place + char.utf8Size) rest).add item

theorem scan_skip (step : ScanStep ε α) (skip place : Nat) (text : List Char) :
    scan step skip place text = scan step 0 (place + byteSize (text.take skip)) (text.drop skip) := by
  induction text generalizing skip place with
  | nil => cases skip <;> simp [scan]
  | cons char rest ih =>
    cases skip with
    | zero => simp [byteSize]
    | succ skip => rw [scan, ih, List.take_succ_cons, List.drop_succ_cons, byteSize, Nat.add_assoc]

end Stencil
