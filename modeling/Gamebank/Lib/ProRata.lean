import Mathlib.Algebra.Order.BigOperators.Group.List
import Mathlib.Tactic.Linarith
import Mathlib.Tactic.Ring

/-!
# Shares by weight

An amount is shared out by weight, each share rounded down. `Covered` is the
invariant of a loop that pays the shares one after the other; `rest` is the
weight that is still to be paid. At the end no more has been paid than the
amount (`Covered.le`).
-/

namespace Gamebank.Lib

/-- Of `amount`, shared by weight out of `total`, no more has been paid than
is due to the weight that is not in `rest`. -/
def Covered (amount total paid rest : Int) : Prop := paid * total ≤ amount * (total - rest)

variable {amount total paid rest : Int}

/-- A share rounded down is covered by its weight. -/
theorem share_mul_le (amount weight : Int) (htotal : 0 < total) :
    amount * weight / total * total ≤ amount * weight :=
  Int.ediv_mul_le _ htotal.ne'

namespace Covered

theorem start (hamount : 0 ≤ amount) (h : rest ≤ total) : Covered amount total 0 rest := by
  unfold Covered
  rw [zero_mul]
  exact mul_nonneg hamount (by omega)

theorem pay {weight share : Int} (h : Covered amount total paid (weight + rest))
    (hshare : share * total ≤ amount * weight) : Covered amount total (paid + share) rest := by
  unfold Covered at h ⊢
  have hsplit :
    amount * (total - rest) = amount * (total - (weight + rest)) + amount * weight := by ring
  rw [hsplit, add_mul]
  exact add_le_add h hshare

theorem le (h : Covered amount total paid rest) (htotal : 0 < total) (hamount : 0 ≤ amount)
    (hrest : 0 ≤ rest) : paid ≤ amount := by
  unfold Covered at h
  have hall : amount * (total - rest) ≤ amount * total :=
    mul_le_mul_of_nonneg_left (by omega) hamount
  exact le_of_mul_le_mul_right (h.trans hall) htotal

end Covered

/-! ## What rounding down leaves -/

/-- What each weight gets. -/
def shares (amount total : Int) (weights : List Int) : List Int :=
  weights.map fun w => (amount * w).tdiv total

/-- What rounding down takes from each weight, in parts of `total`. -/
def losses (amount total : Int) (weights : List Int) : List Int :=
  weights.map fun w => (amount * w).tmod total

/-- The shares and the losses make up the amount. -/
theorem sum_shares_add_losses (amount total : Int) (weights : List Int) :
    (shares amount total weights).sum * total + (losses amount total weights).sum =
      amount * weights.sum := by
  induction weights with
  | nil => simp [shares, losses]
  | cons w rest ih =>
      have hw := Int.mul_tdiv_add_tmod (amount * w) total
      simp only [shares, losses, List.map_cons, List.sum_cons] at ih ⊢
      linarith

theorem losses_nonneg (hamount : 0 ≤ amount) {weights : List Int} (hw : ∀ w ∈ weights, 0 ≤ w) :
    0 ≤ (losses amount total weights).sum := by
  refine List.sum_nonneg fun x hx => ?_
  obtain ⟨w, hmem, rfl⟩ := List.mem_map.mp hx
  exact Int.tmod_nonneg total (mul_nonneg hamount (hw w hmem))

theorem losses_le (amount : Int) (htotal : 0 < total) (weights : List Int) :
    (losses amount total weights).sum ≤ weights.length * total := by
  induction weights with
  | nil => simp [losses]
  | cons w rest ih =>
      have hw : (amount * w).tmod total < total := Int.tmod_lt_of_pos _ htotal
      simp only [losses, List.map_cons, List.sum_cons, List.length_cons] at ih ⊢
      push_cast
      linarith

end Gamebank.Lib
