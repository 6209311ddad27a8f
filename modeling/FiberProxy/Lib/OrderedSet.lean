/-
  FiberProxy.Lib.OrderedSet

  Finite sets that are kept as strictly increasing lists, in an order given by its
  strict part.  Inserting follows the order only: two entries neither of which is
  below the other are the same entry.
-/

import Mathlib.Order.RelClasses
import Mathlib.Tactic.Common

namespace FiberProxy.Lib

variable {α : Type} (lt : α → α → Prop) [DecidableRel lt]

/-- Insert an entry into an increasing list. -/
def insertOrdered (a : α) : List α → List α
  | [] => [a]
  | b :: bs =>
    if lt a b then a :: b :: bs
    else if lt b a then b :: insertOrdered a bs
    else b :: bs

theorem mem_insertOrdered [Std.Trichotomous lt] {a x : α} {l : List α} :
    x ∈ insertOrdered lt a l ↔ x = a ∨ x ∈ l := by
  induction l with
  | nil => simp [insertOrdered]
  | cons b bs ih =>
    unfold insertOrdered
    split
    · simp
    · split
      · rw [List.mem_cons, ih, List.mem_cons]
        tauto
      · -- neither is below the other
        obtain rfl : a = b := Std.Trichotomous.trichotomous a b ‹_› ‹_›
        simp

theorem pairwise_insertOrdered [Std.Trichotomous lt] [IsTrans α lt] {a : α} {l : List α}
    (h : l.Pairwise lt) : (insertOrdered lt a l).Pairwise lt := by
  induction l with
  | nil => simp [insertOrdered]
  | cons b bs ih =>
    obtain ⟨hb, hbs⟩ := List.pairwise_cons.mp h
    unfold insertOrdered
    split
    · rename_i hab
      refine List.pairwise_cons.mpr ⟨fun x hx => ?_, h⟩
      rcases List.mem_cons.mp hx with rfl | hx
      · exact hab
      · exact IsTrans.trans a b x hab (hb x hx)
    · split
      · rename_i hba
        refine List.pairwise_cons.mpr ⟨fun x hx => ?_, ih hbs⟩
        rcases (mem_insertOrdered lt).mp hx with rfl | hx
        · exact hba
        · exact hb x hx
      · exact h

/-- A finite set, as the increasing list of its members. -/
structure OrderedSet where
  toList : List α
  increasing : toList.Pairwise lt

namespace OrderedSet

variable {lt}

instance : Membership α (OrderedSet lt) := ⟨fun s a => a ∈ s.toList⟩

def empty : OrderedSet lt := ⟨[], .nil⟩

omit [DecidableRel lt] in
theorem not_mem_empty (x : α) : x ∉ (empty : OrderedSet lt) := List.not_mem_nil

def insert [Std.Trichotomous lt] [IsTrans α lt] (a : α) (s : OrderedSet lt) : OrderedSet lt :=
  ⟨insertOrdered lt a s.toList, pairwise_insertOrdered lt s.increasing⟩

theorem mem_insert [Std.Trichotomous lt] [IsTrans α lt] {a x : α} {s : OrderedSet lt} :
    x ∈ s.insert a ↔ x = a ∨ x ∈ s := mem_insertOrdered lt

end OrderedSet

end FiberProxy.Lib
