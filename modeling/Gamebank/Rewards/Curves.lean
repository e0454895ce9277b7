import Gamebank.Ledger.Rewards

/-!
# The curve of the curators

`approx_sqrt` puts its bits together with `or`; none of them overlap, so the
result is a sum (`approxSqrt_eq`). Read so, it grows within one power of two,
and what it is at the end of one is no more than at the start of the next.
-/

namespace Gamebank.Rewards

open Gamebank.Lib Gamebank.Protocol Gamebank.Ledger

/-- The least value for numbers of `m + 1` bits. -/
def sqrtFloor (m : Nat) : Nat := 2 ^ (m / 2) + (if m % 2 = 1 then 2 ^ (m / 2) else 0) / 2

variable {x y : Nat}

/-- The bits of a number below its highest. -/
theorem low_bits (hx : x ≠ 0) : x % 2 ^ Nat.log2 x = x - 2 ^ Nat.log2 x := by
  have hlow : 2 ^ Nat.log2 x ≤ x := Nat.log2_self_le hx
  have hhigh : x < 2 ^ (Nat.log2 x + 1) := Nat.lt_log2_self
  rw [Nat.pow_succ] at hhigh
  rw [Nat.mod_eq_sub_mod hlow, Nat.mod_eq_of_lt (by omega)]

theorem low_half_lt (x : Nat) :
    (x - 2 ^ Nat.log2 x) / 2 ^ (Nat.log2 x - Nat.log2 x / 2) < 2 ^ (Nat.log2 x / 2) := by
  have hhigh : x < 2 ^ (Nat.log2 x + 1) := Nat.lt_log2_self
  rw [Nat.pow_succ] at hhigh
  rw [Nat.div_lt_iff_lt_mul (Nat.two_pow_pos _), ← Nat.pow_add,
    show Nat.log2 x / 2 + (Nat.log2 x - Nat.log2 x / 2) = Nat.log2 x by omega]
  omega

/-- What is put together of the half `lo` of the low bits. -/
theorem or_half_eq {z lo hi : Nat} (hlo : lo < 2 ^ z) (hhi : hi = 2 ^ z ∨ hi = 0) :
    2 ^ z ||| (hi ||| lo) / 2 = 2 ^ z + (hi + lo) / 2 := by
  have hor : hi ||| lo = hi + lo := by
    rcases hhi with rfl | rfl
    · have := Nat.two_pow_add_eq_or_of_lt hlo 1
      rw [Nat.mul_one] at this
      exact this.symm
    · rw [Nat.zero_or, Nat.zero_add]
  have hlt : (hi + lo) / 2 < 2 ^ z := by
    rcases hhi with rfl | rfl <;> omega
  have := Nat.two_pow_add_eq_or_of_lt hlt 1
  rw [Nat.mul_one] at this
  rw [hor, this]

theorem approxSqrt_eq (hx : x ≠ 0) :
    approxSqrt x =
      2 ^ (Nat.log2 x / 2) + ((if Nat.log2 x % 2 = 1 then 2 ^ (Nat.log2 x / 2) else 0) +
      (x - 2 ^ Nat.log2 x) / 2 ^ (Nat.log2 x - Nat.log2 x / 2)) / 2 := by
  simp only [approxSqrt, if_neg hx, low_bits hx]
  refine or_half_eq (low_half_lt x) ?_
  split
  · exact .inl rfl
  · exact .inr rfl

theorem sqrtFloor_le (hx : x ≠ 0) : sqrtFloor (Nat.log2 x) ≤ approxSqrt x := by
  rw [approxSqrt_eq hx]
  unfold sqrtFloor
  have := Nat.zero_le ((x - 2 ^ Nat.log2 x) / 2 ^ (Nat.log2 x - Nat.log2 x / 2))
  omega

/-- Not more than the numbers of one bit more get. -/
theorem approxSqrt_le (hx : x ≠ 0) : approxSqrt x ≤ sqrtFloor (Nat.log2 x + 1) := by
  rw [approxSqrt_eq hx]
  have hlt := low_half_lt x
  unfold sqrtFloor
  rcases Nat.mod_two_eq_zero_or_one (Nat.log2 x) with heven | hodd
  · rw [if_neg (by omega), if_pos (by omega), show (Nat.log2 x + 1) / 2 = Nat.log2 x / 2 by omega]
    omega
  · rw [if_pos hodd, if_neg (by omega), show (Nat.log2 x + 1) / 2 = Nat.log2 x / 2 + 1 by omega,
      Nat.pow_succ]
    omega

theorem sqrtFloor_mono {m n : Nat} (h : m ≤ n) : sqrtFloor m ≤ sqrtFloor n := by
  induction h with
  | refl => exact le_rfl
  | @step n _ ih =>
      refine ih.trans ?_
      unfold sqrtFloor
      rcases Nat.mod_two_eq_zero_or_one n with heven | hodd
      · rw [if_neg (by omega), show (n + 1) / 2 = n / 2 by omega]
        omega
      · rw [if_pos hodd, if_neg (by omega), show (n + 1) / 2 = n / 2 + 1 by omega, Nat.pow_succ]
        omega

theorem approxSqrt_mono (h : x ≤ y) : approxSqrt x ≤ approxSqrt y := by
  by_cases hx : x = 0
  · rw [hx]
    exact Nat.zero_le _
  · have hy : y ≠ 0 := by omega
    have hlog : Nat.log2 x ≤ Nat.log2 y := by
      rw [Nat.le_log2 hy]
      exact (Nat.log2_self_le hx).trans h
    rcases hlog.eq_or_lt with hsame | hlt
    · -- Of numbers of as many bits, the larger has the larger low bits.
      rw [approxSqrt_eq hx, approxSqrt_eq hy, hsame]
      have hlow : (x - 2 ^ Nat.log2 y) / 2 ^ (Nat.log2 y - Nat.log2 y / 2) ≤
          (y - 2 ^ Nat.log2 y) / 2 ^ (Nat.log2 y - Nat.log2 y / 2) :=
        Nat.div_le_div_right (by omega)
      omega
    · exact (approxSqrt_le hx).trans ((sqrtFloor_mono hlt).trans (sqrtFloor_le hy))

/-- The root of what an `int64_t` can be. -/
theorem approxSqrt_lt (h : x < 9223372036854775808) : approxSqrt x < 18446744073709551616 := by
  have hle := approxSqrt_mono (show x ≤ 9223372036854775807 by omega)
  have hmax : approxSqrt 9223372036854775807 < 18446744073709551616 := by decide
  exact hle.trans_lt hmax

end Gamebank.Rewards
