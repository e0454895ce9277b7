import Mathlib.Algebra.GroupWithZero.Nat
import Mathlib.Algebra.Order.BigOperators.Group.List

/-!
# Sorted vectors

A set kept as a vector in the order of its elements: an insertion walks to the
first element that does not stand before the new one, and inserts it there
unless the two are equal. Nothing is asked of the order but that it is
transitive, and that only to keep the vector sorted.
-/

namespace Gamebank.Lib

variable {α : Type} (less : α → α → Bool)

/-- `insert` of a sorted vector without equals: what is there already stays. -/
def insertUnique (a : α) : List α → List α
  | [] => [a]
  | x :: rest =>
      if less x a then x :: insertUnique a rest
      else if less a x then a :: x :: rest
      else x :: rest

/-- The elements are inserted in their order. -/
def insertAll (l : List α) : List α := l.foldl (fun s a => insertUnique less a s) []

/-- Each element stands before all that follow. -/
def SortedBy (l : List α) : Prop := l.Pairwise fun a b => less a b = true

variable {less}

theorem mem_insertUnique {a x : α} {l : List α} (h : x ∈ insertUnique less a l) :
    x = a ∨ x ∈ l := by
  induction l with
  | nil => exact Or.inl (List.mem_singleton.mp h)
  | cons y rest ih =>
      unfold insertUnique at h
      split at h
      · rcases List.mem_cons.mp h with rfl | h
        · exact Or.inr List.mem_cons_self
        · rcases ih h with h | h
          · exact Or.inl h
          · exact Or.inr (List.mem_cons_of_mem y h)
      · split at h
        · exact List.mem_cons.mp h
        · exact Or.inr h

theorem SortedBy.insertUnique
    (htrans : ∀ a b c, less a b = true → less b c = true → less a c = true)
    {l : List α} (h : SortedBy less l) (a : α) : SortedBy less (insertUnique less a l) := by
  induction l with
  | nil => exact List.pairwise_singleton _ a
  | cons x rest ih =>
      obtain ⟨hx, hrest⟩ := List.pairwise_cons.mp h
      unfold Lib.insertUnique
      split
      next hxa =>
        refine List.pairwise_cons.mpr ⟨fun y hy => ?_, ih hrest⟩
        rcases mem_insertUnique hy with rfl | hy
        · exact hxa
        · exact hx y hy
      next =>
        split
        next hax =>
          refine List.pairwise_cons.mpr ⟨fun y hy => ?_, h⟩
          rcases List.mem_cons.mp hy with rfl | hy
          · exact hax
          · exact htrans a x y hax (hx y hy)
        next => exact h

/-- An element behind all others goes to the end. -/
theorem insertUnique_last {a : α} {l : List α} (h : ∀ x ∈ l, less x a = true) :
    insertUnique less a l = l ++ [a] := by
  induction l with
  | nil => rfl
  | cons x rest ih =>
      rw [insertUnique, if_pos (h x List.mem_cons_self),
        ih fun y hy => h y (List.mem_cons_of_mem x hy), List.cons_append]

theorem foldl_insertUnique_sorted (done : List α) {l : List α} (h : SortedBy less (done ++ l)) :
    l.foldl (fun s a => insertUnique less a s) done = done ++ l := by
  induction l generalizing done with
  | nil => rw [List.foldl_nil, List.append_nil]
  | cons a rest ih =>
      have hbefore : ∀ x ∈ done, less x a = true := fun x hx =>
        (List.pairwise_append.mp h).2.2 x hx a List.mem_cons_self
      rw [List.foldl_cons, insertUnique_last hbefore, ih (done ++ [a]) (by rwa [List.append_assoc]),
        List.append_assoc]
      rfl

/-- A sorted list is inserted as it stands. -/
theorem insertAll_sorted {l : List α} (h : SortedBy less l) : insertAll less l = l :=
  foldl_insertUnique_sorted [] h

/-- What every insertion keeps. -/
theorem insertAll_induction {P : List α → Prop} (l : List α) (hnil : P [])
    (hinsert : ∀ s, P s → ∀ a ∈ l, P (insertUnique less a s)) : P (insertAll less l) := by
  suffices h : ∀ done, P done → P (l.foldl (fun s a => insertUnique less a s) done) from h [] hnil
  induction l with
  | nil => exact fun done h => h
  | cons a rest ih =>
      intro done h
      exact ih (fun s hs b hb => hinsert s hs b (List.mem_cons_of_mem a hb)) _
        (hinsert done h a List.mem_cons_self)

theorem sorted_insertAll (htrans : ∀ a b c, less a b = true → less b c = true → less a c = true)
    (l : List α) : SortedBy less (insertAll less l) :=
  insertAll_induction l List.Pairwise.nil fun _ h a _ => h.insertUnique htrans a

theorem mem_of_mem_insertAll {x : α} {l : List α} (h : x ∈ insertAll less l) : x ∈ l := by
  have hall : ∀ y ∈ insertAll less l, y ∈ l := by
    refine insertAll_induction (P := fun s => ∀ y ∈ s, y ∈ l) l (by simp) fun s hs a ha y hy => ?_
    rcases mem_insertUnique hy with rfl | hy
    · exact ha
    · exact hs y hy
  exact hall x h

/-- An insertion adds no more than the weight of what is inserted. -/
theorem sum_insertUnique_le (less : α → α → Bool) (weight : α → Nat) (a : α) (l : List α) :
    ((insertUnique less a l).map weight).sum ≤ weight a + (l.map weight).sum := by
  induction l with
  | nil => simp [insertUnique]
  | cons x rest ih =>
      unfold insertUnique
      split
      · simp only [List.map_cons, List.sum_cons]
        omega
      · split <;> simp only [List.map_cons, List.sum_cons] <;> omega

theorem sum_insertAll_le (less : α → α → Bool) (weight : α → Nat) (l : List α) :
    ((insertAll less l).map weight).sum ≤ (l.map weight).sum := by
  suffices h : ∀ done, ((l.foldl (fun s a => insertUnique less a s) done).map weight).sum ≤
      (done.map weight).sum + (l.map weight).sum by
    simpa [insertAll] using h []
  induction l with
  | nil => simp
  | cons a rest ih =>
      intro done
      have hrest := ih (insertUnique less a done)
      have hone := sum_insertUnique_le less weight a done
      rw [List.foldl_cons, List.map_cons, List.sum_cons]
      omega

theorem length_insertAll_le (less : α → α → Bool) (l : List α) :
    (insertAll less l).length ≤ l.length := by
  have h := sum_insertAll_le less (fun _ => 1) l
  simpa using h

end Gamebank.Lib
