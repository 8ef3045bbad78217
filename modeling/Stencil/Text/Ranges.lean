/-!
# Ranges of code points

A property of characters is given by the code points that have it, as closed ranges. The ranges of a
property are in increasing order and apart from one another, so a search can stop at the first range
that lies behind what it looks for.
-/

namespace Stencil

/-- Whether ranges are in increasing order, with a gap between any two of them. -/
def areApart : List (Nat × Nat) → Bool
  | [] => true
  | [range] => range.1 ≤ range.2
  | range :: next :: rest => range.1 ≤ range.2 && range.2 + 1 < next.1 && areApart (next :: rest)

structure CodeRanges where
  ranges : List (Nat × Nat)
  apart : areApart ranges = true

namespace CodeRanges

def search : List (Nat × Nat) → Nat → Bool
  | [], _ => false
  | (low, high) :: rest, code => low ≤ code && (code ≤ high || search rest code)

def covers (table : CodeRanges) (char : Char) : Bool :=
  search table.ranges char.toNat

theorem le_of_areApart {range : Nat × Nat} {rest : List (Nat × Nat)}
    (h : areApart (range :: rest) = true) : range.1 ≤ range.2 := by
  cases rest with
  | nil => simpa [areApart] using h
  | cons next rest =>
    simp only [areApart, Bool.and_eq_true, decide_eq_true_eq] at h
    exact h.1.1

theorem areApart_tail {range : Nat × Nat} {rest : List (Nat × Nat)}
    (h : areApart (range :: rest) = true) : areApart rest = true := by
  cases rest with
  | nil => rfl
  | cons next rest =>
    simp only [areApart, Bool.and_eq_true] at h
    exact h.2

theorem lt_of_areApart {range other : Nat × Nat} {rest : List (Nat × Nat)}
    (h : areApart (range :: rest) = true) (hmem : other ∈ rest) : range.2 < other.1 := by
  induction rest generalizing range with
  | nil => cases hmem
  | cons next rest ih =>
    have htail := areApart_tail h
    simp only [areApart, Bool.and_eq_true, decide_eq_true_eq] at h
    have hnext : range.2 < next.1 := Nat.lt_of_succ_lt h.1.2
    rcases List.mem_cons.1 hmem with rfl | hmem
    · exact hnext
    · exact Nat.lt_trans hnext (Nat.lt_of_le_of_lt (le_of_areApart htail) (ih htail hmem))

theorem search_iff {ranges : List (Nat × Nat)} (h : areApart ranges = true) (code : Nat) :
    search ranges code = true ↔ ∃ range ∈ ranges, range.1 ≤ code ∧ code ≤ range.2 := by
  induction ranges with
  | nil => simp [search]
  | cons range rest ih =>
    have hfirst := le_of_areApart h
    simp only [search, Bool.and_eq_true, Bool.or_eq_true, decide_eq_true_eq, ih (areApart_tail h),
      List.mem_cons, exists_eq_or_imp]
    constructor
    · rintro ⟨hlow, hhigh | hfound⟩
      · exact .inl ⟨hlow, hhigh⟩
      · exact .inr hfound
    · rintro (⟨hlow, hhigh⟩ | ⟨other, hmem, hlow, hhigh⟩)
      · exact ⟨hlow, .inl hhigh⟩
      · have hbehind := lt_of_areApart h hmem
        exact ⟨by omega, .inr ⟨other, hmem, hlow, hhigh⟩⟩

/-- The characters of a table are those in its ranges, although the search stops early. -/
theorem covers_iff (table : CodeRanges) (char : Char) :
    table.covers char = true ↔ ∃ range ∈ table.ranges, range.1 ≤ char.toNat ∧ char.toNat ≤ range.2 :=
  search_iff table.apart char.toNat

end CodeRanges

end Stencil
