import Gamebank.Protocol.Asset
import Mathlib.Algebra.Order.Ring.Int
import Mathlib.Tactic.Linarith

/-!
# Products of an amount and a price

Amounts that are not negative are below 2 ^ 63, so the product of two of them
does not wrap in 128 bits: what is left of the exact quotient is lost by
rounding down.
-/

namespace Gamebank.Protocol

open Gamebank.Lib

/-- An amount that is not negative, of type `int64_t`. -/
def Natural (n : Int) : Prop := 0 ≤ n ∧ n < 9223372036854775808

variable {a n d : Int}

theorem mul_lt_of_natural (ha : Natural a) (hn : Natural n) :
    0 ≤ a * n ∧ a * n < 340282366920938463463374607431768211456 := by
  constructor
  · exact mul_nonneg ha.1 hn.1
  · calc a * n ≤ 9223372036854775808 * 9223372036854775808 :=
          mul_le_mul ha.2.le hn.2.le hn.1 (by decide)
      _ < 340282366920938463463374607431768211456 := by decide

theorem scaled_eq (ha : Natural a) (hn : Natural n) (hd : Natural d) :
    scaled a n d = a * n / d := by
  have hexact : ∀ m, Natural m → toUInt128 m = m := by
    intro m hm
    unfold toUInt128
    have := hm.1
    have := hm.2
    omega
  have hproduct := mul_lt_of_natural ha hn
  unfold scaled
  rw [hexact a ha, hexact n hn, hexact d hd]
  congr 1
  unfold toUInt128
  omega

/-- The product of an amount and a fraction, rounded down. -/
theorem Asset.scale_eq_ok {symbol : AssetSymbol} {numerator denominator b : Asset}
    (ha : Natural a) (hn : Natural numerator.amount) (hd : Natural denominator.amount) :
    Asset.scale ⟨a, symbol⟩ numerator denominator = .ok b ↔ 0 < denominator.amount ∧
      a * numerator.amount / denominator.amount < 18446744073709551616 ∧
      b = ⟨toInt64 (a * numerator.amount / denominator.amount), numerator.symbol⟩ := by
  unfold Asset.scale
  rw [@eq_comm _ b]
  simp only [scaled_eq ha hn hd, ensure_bind_eq_ok, decide_eq_true_eq, pure_eq_ok]

/-- What is worth no more than `c` is, turned back, no more than `c`. -/
theorem turned_back_le {c x n d : Int} (hn : 0 < n) (hd : 0 < d) (hx : x ≤ c * n / d) :
    x * d / n ≤ c := by
  have hle : x * d ≤ c * n := (Int.le_ediv_iff_mul_le hd).mp hx
  exact Int.ediv_le_of_le_mul hn hle

end Gamebank.Protocol
