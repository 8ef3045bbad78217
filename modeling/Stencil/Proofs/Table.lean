import Stencil.Table
import Mathlib.Data.List.Forall2
import Mathlib.Data.List.Sort
import Mathlib.Data.String.Basic

/-!
# Entries of tables

What is found in a table is one of its entries. Inserting into a table keeps its names in their
order, each of them once, and what is found in such tables tells them apart. A name behind all
others is inserted at the end, so a sorted table is built up again by inserting its pairs in their
order. Tables with the same names and with related things stay so, and so do lists of related
things.
-/

namespace Stencil

/-! ### Lists of related things -/

section

variable {α β γ : Type} {related : α → β → Prop} {xs : List α} {ys : List β}

theorem map_eq_map_of_forall₂ {f : α → γ} {g : β → γ} (h : List.Forall₂ (fun x y => f x = g y) xs ys) :
    xs.map f = ys.map g := by
  induction h with
  | nil => rfl
  | cons hfirst _ ih => rw [List.map_cons, List.map_cons, hfirst, ih]

theorem forall₂_getElem? (h : List.Forall₂ related xs ys) (index : Nat) :
    Option.Rel related xs[index]? ys[index]? := by
  induction h generalizing index with
  | nil => exact .none
  | cons hfirst _ ih =>
    cases index with
    | zero => exact .some hfirst
    | succ index => exact ih index

theorem forall₂_isEmpty_eq (h : List.Forall₂ related xs ys) : xs.isEmpty = ys.isEmpty := by
  cases h <;> rfl

/-- Whether two things are related only matters for those in the lists. -/
theorem forall₂_imp_of_mem {related' : α → β → Prop} (h : List.Forall₂ related xs ys)
    (himp : ∀ x ∈ xs, ∀ y, related x y → related' x y) : List.Forall₂ related' xs ys :=
  ((List.forall₂_and_left _ _).2 ⟨himp, h⟩).imp fun _ y hboth => hboth.1 y hboth.2

theorem forall₂_trans_of {zs : List γ} {related' : β → γ → Prop} {related'' : α → γ → Prop}
    (h : List.Forall₂ related xs ys) (h' : List.Forall₂ related' ys zs)
    (htrans : ∀ x ∈ xs, ∀ y z, related x y → related' y z → related'' x z) : List.Forall₂ related'' xs zs := by
  induction h generalizing zs with
  | nil =>
    cases h'
    exact .nil
  | cons hfirst _ ih =>
    cases h' with
    | cons hfirst' hrest' =>
      exact .cons (htrans _ List.mem_cons_self _ _ hfirst hfirst')
        (ih hrest' fun x hx => htrans x (List.mem_cons_of_mem _ hx))

end

namespace Table

variable {α : Type}

theorem mem_of_find? {name : String} {thing : α} {table : Table α}
    (h : table.find? name = some thing) : (name, thing) ∈ table := by
  induction table with
  | nil => nomatch h
  | cons entry rest ih =>
    rw [find?] at h
    split at h
    · next hname =>
      rw [hname, ← Option.some.inj h]
      exact List.mem_cons_self
    · exact List.mem_cons_of_mem _ (ih h)

theorem insert_ne_nil (name : String) (thing : α) (table : Table α) : table.insert name thing ≠ [] := by
  intro hnil
  have hfound := find?_insert_self name thing table
  rw [hnil] at hfound
  nomatch hfound

/-- The names of a table stand in their order, and none of them twice. -/
def Sorted (table : Table α) : Prop :=
  table.Pairwise fun left right => left.1 < right.1

theorem mem_of_mem_insert {name : String} {thing : α} {table : Table α} {entry : String × α}
    (h : entry ∈ table.insert name thing) : entry = (name, thing) ∨ entry ∈ table := by
  induction table with
  | nil => exact .inl (by simpa [insert] using h)
  | cons first rest ih =>
    rw [insert] at h
    split at h
    · rcases List.mem_cons.1 h with rfl | h
      · exact .inl rfl
      · exact .inr (by simp [h])
    · split at h
      · rcases List.mem_cons.1 h with rfl | h
        · exact .inl rfl
        · exact .inr h
      · rcases List.mem_cons.1 h with rfl | h
        · exact .inr (by simp)
        · exact (ih h).imp_right fun h => by simp [h]

theorem Sorted.insert {table : Table α} (h : table.Sorted) (name : String) (thing : α) :
    (table.insert name thing).Sorted := by
  induction table with
  | nil => exact List.pairwise_singleton _ _
  | cons first rest ih =>
    obtain ⟨hfirst, hrest⟩ := List.pairwise_cons.1 h
    rw [Table.insert]
    split
    · next heq =>
      subst heq
      exact List.pairwise_cons.2 ⟨hfirst, hrest⟩
    · next hne =>
      split
      · next hlt =>
        refine List.pairwise_cons.2 ⟨fun other hother => ?_, h⟩
        rcases List.mem_cons.1 hother with rfl | hother
        · exact hlt
        · exact hlt.trans (hfirst other hother)
      · next hge =>
        refine List.pairwise_cons.2 ⟨fun other hother => ?_, ih hrest⟩
        rcases mem_of_mem_insert hother with rfl | hother
        · exact lt_of_le_of_ne (not_lt.1 hge) (Ne.symm hne)
        · exact hfirst other hother

theorem insert_of_lt {table : Table α} {name : String} (h : ∀ entry ∈ table, entry.1 < name) (thing : α) :
    table.insert name thing = table ++ [(name, thing)] := by
  induction table with
  | nil => rfl
  | cons first rest ih =>
    have hfirst := h first (by simp)
    rw [Table.insert, if_neg hfirst.ne', if_neg hfirst.not_gt,
      ih fun entry hentry => h entry (by simp [hentry])]
    rfl

theorem Sorted.find?_eq_some_iff {table : Table α} (h : table.Sorted) {name : String} {thing : α} :
    table.find? name = some thing ↔ (name, thing) ∈ table := by
  refine ⟨mem_of_find?, fun hmem => ?_⟩
  induction table with
  | nil => cases hmem
  | cons first rest ih =>
    obtain ⟨hfirst, hrest⟩ := List.pairwise_cons.1 h
    rw [find?]
    rcases List.mem_cons.1 hmem with rfl | hmem
    · exact if_pos rfl
    · rw [if_neg (hfirst _ hmem).ne', ih hrest hmem]

/-- A sorted table is determined by what is found in it. -/
theorem Sorted.ext {left right : Table α} (hleft : left.Sorted) (hright : right.Sorted)
    (h : ∀ name, left.find? name = right.find? name) : left = right := by
  have : Std.Irrefl fun left right : String × α => left.1 < right.1 := ⟨fun entry => lt_irrefl entry.1⟩
  have : Std.Antisymm fun left right : String × α => left.1 < right.1 :=
    ⟨fun _ _ hlt hgt => absurd hlt hgt.not_gt⟩
  refine hleft.eq_of_mem_iff hright fun entry => ?_
  rw [← hleft.find?_eq_some_iff, ← hright.find?_eq_some_iff, h]

/-! ### Tables with the same names -/

/-- Two tables with the same names in the same order and with related things. -/
def Rel {β : Type} (related : α → β → Prop) (left : Table α) (right : Table β) : Prop :=
  List.Forall₂ (fun entry entry' => entry.1 = entry'.1 ∧ related entry.2 entry'.2) left right

namespace Rel

variable {β : Type} {related : α → β → Prop} {left : Table α} {right : Table β}

theorem refl {related : α → α → Prop} (h : ∀ thing, related thing thing) (table : Table α) :
    Rel related table table :=
  List.forall₂_same.2 fun entry _ => ⟨rfl, h entry.2⟩

theorem find? (h : Rel related left right) (name : String) :
    Option.Rel related (left.find? name) (right.find? name) := by
  induction h with
  | nil => exact .none
  | @cons entry entry' _ _ hentry _ ih =>
    obtain ⟨hname, hthing⟩ := hentry
    rw [Table.find?, Table.find?, ← hname]
    split
    · exact .some hthing
    · exact ih

theorem insert (h : Rel related left right) (name : String) {thing : α} {thing' : β}
    (hthing : related thing thing') : Rel related (left.insert name thing) (right.insert name thing') := by
  induction h with
  | nil => exact .cons ⟨rfl, hthing⟩ .nil
  | @cons entry entry' _ _ hentry hrest ih =>
    rw [Table.insert, Table.insert, ← hentry.1]
    split
    · exact .cons ⟨rfl, hthing⟩ hrest
    · split
      · exact .cons ⟨rfl, hthing⟩ (.cons ⟨rfl, hentry.2⟩ hrest)
      · exact .cons ⟨rfl, hentry.2⟩ ih

theorem map_eq (h : Rel related left right) {γ : Type} {describe : String × α → γ}
    {describe' : String × β → γ}
    (hdescribe : ∀ name thing thing', related thing thing' → describe (name, thing) = describe' (name, thing')) :
    left.map describe = right.map describe' := by
  refine map_eq_map_of_forall₂ (List.Forall₂.imp ?_ h)
  rintro ⟨name, thing⟩ ⟨_, thing'⟩ ⟨rfl, hthing⟩
  exact hdescribe name thing thing' hthing

end Rel

end Table

end Stencil
