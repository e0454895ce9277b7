import Mathlib.Order.Lattice

/-!
# Strict weak orders

What an ordered container asks of the comparison it is given: values that
neither stand before the other are in one class, and the classes are in a
linear order. A comparison of keys is of this kind.
-/

namespace Gamebank.Lib

universe u v

/-- `lt` on the values in `S`. -/
structure StrictWeakOrder {α : Type u} (S : α → Prop) (lt : α → α → Bool) : Prop where
  irrefl : ∀ a, S a → lt a a = false
  trans : ∀ a b c, S a → S b → S c → lt a b = true → lt b c = true → lt a c = true
  classes : ∀ a b c, S a → S b → S c → lt a b = false → lt b a = false →
    lt b c = false → lt c b = false → lt a c = false ∧ lt c a = false

namespace StrictWeakOrder

variable {α : Type u} {κ : Type v} [LinearOrder κ] {S : α → Prop} {lt : α → α → Bool} {key : α → κ}

/-- Values that are compared by a key. -/
theorem of_key (h : ∀ a b, S a → S b → (lt a b = true ↔ key a < key b)) :
    StrictWeakOrder S lt := by
  have hnot : ∀ a b, S a → S b → (lt a b = false ↔ key b ≤ key a) := by
    intro a b ha hb
    rw [← not_lt, ← h a b ha hb, Bool.not_eq_true]
  constructor
  · intro a ha
    exact (hnot a a ha ha).mpr le_rfl
  · intro a b c ha hb hc hab hbc
    rw [h a c ha hc]
    exact ((h a b ha hb).mp hab).trans ((h b c hb hc).mp hbc)
  · intro a b c ha hb hc hab hba hbc hcb
    rw [hnot a b ha hb] at hab
    rw [hnot b a hb ha] at hba
    rw [hnot b c hb hc] at hbc
    rw [hnot c b hc hb] at hcb
    exact ⟨(hnot a c ha hc).mpr (hbc.trans hab), (hnot c a hc ha).mpr (hba.trans hcb)⟩

/-- The same the other way round. -/
theorem swap (h : StrictWeakOrder S lt) : StrictWeakOrder S fun a b => lt b a where
  irrefl := h.irrefl
  trans := fun a b c ha hb hc hab hbc => h.trans c b a hc hb ha hbc hab
  classes := fun a b c ha hb hc hab hba hbc hcb => (h.classes a b c ha hb hc hba hab hcb hbc).symm

end StrictWeakOrder

end Gamebank.Lib
