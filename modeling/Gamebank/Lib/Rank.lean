import Mathlib.Data.List.Sort

/-!
# The element of a rank

In the order of its elements a list has at position `i` the largest bound that
all but `i` of the elements reach. So what stands there depends on how many
elements reach a bound, and not on the list or on how it is sorted. Those
taken from the front stand before all others.
-/

namespace Gamebank.Lib

universe u

variable {α : Type u} [LinearOrder α] {l : List α} {i : Nat} {a : α}

/-- In a sorted list the elements that reach `m` come last. -/
theorem le_iff_countP_of_pairwise (h : l.Pairwise (· ≤ ·)) (ha : l[i]? = some a) (m : α) :
    m ≤ a ↔ l.length - i ≤ l.countP (m ≤ ·) := by
  induction l generalizing i with
  | nil => cases ha
  | cons b rest ih =>
      obtain ⟨hb, hrest⟩ := List.pairwise_cons.mp h
      by_cases hm : m ≤ b
      · -- every element reaches the bound
        have hall : (b :: rest).countP (m ≤ ·) = (b :: rest).length := by
          rw [List.countP_eq_length]
          intro c hc
          rcases List.mem_cons.mp hc with rfl | hc
          · exact decide_eq_true hm
          · exact decide_eq_true (hm.trans (hb c hc))
        have hmem : m ≤ a := by
          rcases List.mem_cons.mp (List.mem_of_getElem? ha) with rfl | hmem
          · exact hm
          · exact hm.trans (hb a hmem)
        rw [hall]
        exact ⟨fun _ => Nat.sub_le _ _, fun _ => hmem⟩
      · rw [List.countP_cons_of_neg (by simpa using hm)]
        cases i with
        | zero =>
            obtain rfl : b = a := by simpa using ha
            have hle : rest.countP (m ≤ ·) ≤ rest.length := List.countP_le_length
            rw [List.length_cons]
            exact ⟨fun h => absurd h hm, fun h => by omega⟩
        | succ i =>
            rw [List.getElem?_cons_succ] at ha
            rw [ih hrest ha, List.length_cons, Nat.add_sub_add_right]

/-- **The rank of an element**: `m` is at most the element at position `i`
exactly if all but `i` elements of the list reach `m`. -/
theorem le_iff_countP_of_rank (ha : (l.insertionSort (· ≤ ·))[i]? = some a) (m : α) :
    m ≤ a ↔ l.length - i ≤ l.countP (m ≤ ·) := by
  have hperm := l.perm_insertionSort (· ≤ ·)
  rw [le_iff_countP_of_pairwise (List.pairwise_insertionSort _ l) ha, hperm.length_eq,
    hperm.countP_eq]

/-- In a sorted list those taken stand before all others. -/
theorem rel_of_mem_take {β : Type u} {r : β → β → Prop} {l : List β} {n : Nat} {a b : β}
    (h : l.Pairwise r) (ha : a ∈ l.take n) (hb : b ∈ l) (hnot : b ∉ l.take n) : r a b := by
  rw [← List.take_append_drop n l, List.pairwise_append] at h
  rw [← List.take_append_drop n l, List.mem_append] at hb
  exact h.2.2 a ha b (hb.resolve_left hnot)

end Gamebank.Lib
