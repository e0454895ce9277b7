import Mathlib.Tactic.Linarith
import Gamebank.Protocol.WideNumbers
import Gamebank.Rewards.Curves

/-!
# The curves in 128 bits

`find_msb`, `approx_sqrt` and `evaluate_reward_curve` on the words they are
computed with. No bit of the root is lost, so it is the root of the ledger for
every number of 128 bits. Within one power of two it follows the chord of a
parabola, a little above the square root.
-/

namespace Gamebank.Rewards

open Gamebank.Lib Gamebank.Protocol Gamebank.Ledger

/-! ## How close the root is -/

variable {x : Nat}

/-- The chord for numbers with an even exponent: `y / ( 2 p )` is added to the
root `p` of the power. -/
theorem chord_even {p y : Nat} (hp : 0 < p) (hy : y < p * p) :
    p * p + y < (p + y / p / 2 + 1) ^ 2 ∧ 8 * (p + y / p / 2) ^ 2 ≤ 9 * (p * p + y) := by
  rw [Nat.div_div_eq_div_mul]
  have hq := Nat.div_add_mod y (p * 2)
  have hs := Nat.mod_lt y (show p * 2 > 0 by omega)
  generalize y / (p * 2) = q at hq ⊢
  have hsmall : 2 * q ≤ p := by
    apply Nat.le_of_mul_le_mul_left _ hp
    calc p * (2 * q) = p * 2 * q := by ring
      _ ≤ p * p := by omega
  constructor
  · nlinarith
  · have hmixed : 2 * q * (2 * q) ≤ p * (2 * q) := Nat.mul_le_mul_right _ hsmall
    have hsquare : 2 * q * (2 * q) ≤ p * p := Nat.mul_le_mul hsmall hsmall
    calc 8 * (p + q) ^ 2 = 8 * (p * p) + 8 * (p * (2 * q)) + 2 * (2 * q * (2 * q)) := by ring
      _ ≤ 9 * (p * p) + 9 * (p * (2 * q)) := by omega
      _ = 9 * (p * p) + 9 * (p * 2 * q) := by ring
      _ ≤ 9 * (p * p + y) := by omega

/-- The chord for those with an odd exponent. -/
theorem chord_odd {p y : Nat} (hp : 0 < p) (hy : y < 2 * (p * p)) :
    2 * (p * p) + y < (p + (p + y / (p * 2)) / 2 + 1) ^ 2 ∧
      8 * (p + (p + y / (p * 2)) / 2) ^ 2 ≤ 9 * (2 * (p * p) + y) := by
  have hq := Nat.div_add_mod y (p * 2)
  have hs := Nat.mod_lt y (show p * 2 > 0 by omega)
  generalize y / (p * 2) = q at hq ⊢
  have hsmall : q < p := by
    apply Nat.lt_of_mul_lt_mul_left (a := p * 2)
    calc p * 2 * q ≤ y := by omega
      _ < p * 2 * p := by linarith
  have hhalf := Nat.div_add_mod (p + q) 2
  have hbit := Nat.mod_lt (p + q) (show 2 > 0 by omega)
  generalize (p + q) / 2 = k at hhalf ⊢
  constructor
  · nlinarith
  · have hroot : 2 * (p + k) * (2 * (p + k)) ≤ (3 * p + q) * (3 * p + q) := by
      have hle : 2 * (p + k) ≤ 3 * p + q := by omega
      exact Nat.mul_le_mul hle hle
    have hmixed : q * q ≤ p * q := Nat.mul_le_mul_right q hsmall.le
    calc 8 * (p + k) ^ 2 = 2 * (2 * (p + k) * (2 * (p + k))) := by ring
      _ ≤ 2 * ((3 * p + q) * (3 * p + q)) := Nat.mul_le_mul_left 2 hroot
      _ = 18 * (p * p) + 12 * (p * q) + 2 * (q * q) := by ring
      _ ≤ 18 * (p * p) + 18 * (p * q) := by omega
      _ = 18 * (p * p) + 9 * (p * 2 * q) := by ring
      _ ≤ 9 * (2 * (p * p) + y) := by omega

theorem approxSqrt_bounds (hx : x ≠ 0) :
    x < (approxSqrt x + 1) ^ 2 ∧ 8 * approxSqrt x ^ 2 ≤ 9 * x := by
  have hlow : 2 ^ Nat.log2 x ≤ x := Nat.log2_self_le hx
  have hhigh : x < 2 ^ (Nat.log2 x + 1) := Nat.lt_log2_self
  have hpos : 0 < 2 ^ (Nat.log2 x / 2) := Nat.two_pow_pos _
  rw [Nat.pow_succ] at hhigh
  rw [approxSqrt_eq hx]
  rcases Nat.mod_two_eq_zero_or_one (Nat.log2 x) with heven | hodd
  · have hpow : 2 ^ Nat.log2 x = 2 ^ (Nat.log2 x / 2) * 2 ^ (Nat.log2 x / 2) := by
      rw [← Nat.pow_add]
      congr 1
      omega
    have h := chord_even (y := x - 2 ^ Nat.log2 x) hpos (by omega)
    rw [← hpow, Nat.add_sub_cancel' hlow] at h
    rwa [if_neg (by omega), Nat.zero_add,
      show Nat.log2 x - Nat.log2 x / 2 = Nat.log2 x / 2 by omega]
  · have hpow : 2 ^ Nat.log2 x = 2 * (2 ^ (Nat.log2 x / 2) * 2 ^ (Nat.log2 x / 2)) := by
      rw [← Nat.pow_add, ← Nat.pow_succ']
      congr 1
      omega
    have h := chord_odd (y := x - 2 ^ Nat.log2 x) hpos (by omega)
    rw [← hpow, Nat.add_sub_cancel' hlow] at h
    rwa [if_pos hodd, show Nat.log2 x - Nat.log2 x / 2 = Nat.log2 x / 2 + 1 by omega, Nat.pow_succ]

/-! ## The functions on words -/

namespace Wide

/-- `find_msb`. -/
def findMsb (u : UInt128) : UInt8 :=
  let x := if u.lo ≠ 0 then u.lo else 1
  let places := if u.hi ≠ 0 then 64 else 0
  let x := if u.hi ≠ 0 then u.hi else x
  UInt8.ofNat (Nat.log2 x.toNat + places)

/-- `approx_sqrt`. -/
def approxSqrt (x : UInt128) : UInt64 :=
  if x.lo = 0 ∧ x.hi = 0 then 0
  else
    let msbX := findMsb x
    let msbZ := msbX >>> 1
    let msbXBit := (UInt128.ofInt64 1).shiftLeft msbX.toNat
    let msbZBit := (1 : UInt64) <<< msbZ.toUInt64
    let mantissaMask := msbXBit.sub (UInt128.ofInt64 1)
    let mantissaX := x.and mantissaMask
    let mantissaZHi := if msbX &&& 1 ≠ 0 then msbZBit else 0
    let mantissaZLo := (mantissaX.shiftRight (msbX.toNat - msbZ.toNat)).lo
    let mantissaZ := (mantissaZHi ||| mantissaZLo) >>> 1
    msbZBit ||| mantissaZ

/-- `evaluate_reward_curve`. -/
def evaluateRewardCurve (rshares : UInt128) (curve : CurveId) (contentConstant : UInt128) :
    Except String UInt128 :=
  match curve with
  | .quadratic =>
      let rsharesPlusS := rshares.add contentConstant
      .ok ((rsharesPlusS.mul rsharesPlusS).sub (contentConstant.mul contentConstant))
  | .quadraticCuration =>
      let twoAlpha := contentConstant.mul (UInt128.ofInt64 2)
      (UInt128.mk rshares.lo 0).div (twoAlpha.add rshares)
  | .linear => .ok rshares
  | .squareRoot => .ok (UInt128.ofUInt64 (approxSqrt rshares))

/-- `GAMEBANK_CONTENT_CONSTANT_HF0`. -/
def contentConstant : UInt128 := UInt128.ofUInt64 2000000000000

variable {x y : UInt128}

theorem log2_words {h l : Nat} (hh : h ≠ 0) (hl : l < 2 ^ 64) :
    Nat.log2 (h * 18446744073709551616 + l) = Nat.log2 h + 64 := by
  have hlow : 2 ^ Nat.log2 h ≤ h := Nat.log2_self_le hh
  have hhigh : h < 2 ^ (Nat.log2 h + 1) := Nat.lt_log2_self
  rw [Nat.log2_eq_iff (by omega), show Nat.log2 h + 64 + 1 = Nat.log2 h + 1 + 64 by omega,
    Nat.pow_add 2 (Nat.log2 h) 64, Nat.pow_add 2 (Nat.log2 h + 1) 64]
  omega

theorem log2_toNat_lt (hx : x.toNat ≠ 0) : Nat.log2 x.toNat < 128 := by
  rw [Nat.log2_lt hx]
  exact x.toNat_lt

theorem findMsb_toNat (hx : x.toNat ≠ 0) : (findMsb x).toNat = Nat.log2 x.toNat := by
  have hlt := log2_toNat_lt hx
  have hlog : (findMsb x).toNat = Nat.log2 x.toNat % 256 := by
    unfold findMsb UInt128.toNat at *
    by_cases hhi : x.hi = 0
    · have hlo : x.lo ≠ 0 := by
        intro h
        simp [hhi, h] at hx
      simp [hhi, hlo]
    · have hne : x.hi.toNat ≠ 0 := fun h => hhi (UInt64.toNat_inj.mp h)
      rw [log2_words hne x.lo.toNat_lt]
      simp [hhi]
  rw [hlog, Nat.mod_eq_of_lt (by omega)]

theorem toNat_eq_zero_iff : x.toNat = 0 ↔ x.lo = 0 ∧ x.hi = 0 := by
  unfold UInt128.toNat
  rw [← UInt64.toNat_inj, ← UInt64.toNat_inj, UInt64.toNat_zero]
  omega

theorem msbZ_toNat (hx : x.toNat ≠ 0) : (findMsb x >>> 1).toNat = Nat.log2 x.toNat / 2 := by
  rw [UInt8.toNat_shiftRight, findMsb_toNat hx]
  simp [Nat.shiftRight_eq_div_pow]

theorem msbX_odd (hx : x.toNat ≠ 0) : findMsb x &&& 1 ≠ 0 ↔ Nat.log2 x.toNat % 2 = 1 := by
  rw [ne_eq, ← UInt8.toNat_inj, UInt8.toNat_and, findMsb_toNat hx]
  simp

theorem half_bit_lt (hx : x.toNat ≠ 0) : 2 ^ (Nat.log2 x.toNat / 2) < 2 ^ 64 := by
  have hlog := log2_toNat_lt hx
  exact Nat.pow_lt_pow_right (by decide) (by omega)

theorem msbZBit_toNat (hx : x.toNat ≠ 0) :
    ((1 : UInt64) <<< (findMsb x >>> 1).toUInt64).toNat = 2 ^ (Nat.log2 x.toNat / 2) := by
  have hlog := log2_toNat_lt hx
  have hcount : Nat.log2 x.toNat / 2 % 64 = Nat.log2 x.toNat / 2 := Nat.mod_eq_of_lt (by omega)
  rw [UInt64.toNat_shiftLeft, UInt8.toNat_toUInt64, msbZ_toNat hx, hcount, UInt64.toNat_one,
    Nat.shiftLeft_eq, Nat.one_mul, Nat.mod_eq_of_lt (half_bit_lt hx)]

theorem msbXBit_toNat (hx : x.toNat ≠ 0) :
    ((UInt128.ofInt64 1).shiftLeft (findMsb x).toNat).toNat = 2 ^ Nat.log2 x.toNat := by
  have hpow : 2 ^ Nat.log2 x.toNat < 2 ^ 128 :=
    Nat.pow_lt_pow_right (by decide) (log2_toNat_lt hx)
  have hone : (UInt128.ofInt64 1).toNat = 1 := by decide
  rw [UInt128.shiftLeft_toNat, findMsb_toNat hx, hone, Nat.one_mul]
  exact Nat.mod_eq_of_lt hpow

theorem mantissaMask_toNat (hx : x.toNat ≠ 0) :
    (((UInt128.ofInt64 1).shiftLeft (findMsb x).toNat).sub (UInt128.ofInt64 1)).toNat + 1 =
      2 ^ Nat.log2 x.toNat := by
  have hpos : 1 ≤ 2 ^ Nat.log2 x.toNat := Nat.two_pow_pos _
  have hone : (UInt128.ofInt64 1).toNat = 1 := by decide
  rw [UInt128.sub_toNat (by rw [msbXBit_toNat hx, hone]; exact hpos), msbXBit_toNat hx, hone]
  omega

/-- The half of the mantissa that is kept is in the low word. -/
theorem mantissaZLo_toNat (hx : x.toNat ≠ 0) :
    ((x.and (((UInt128.ofInt64 1).shiftLeft (findMsb x).toNat).sub
      (UInt128.ofInt64 1))).shiftRight
        ((findMsb x).toNat - (findMsb x >>> 1).toNat)).lo.toNat =
      x.toNat % 2 ^ Nat.log2 x.toNat / 2 ^ (Nat.log2 x.toNat - Nat.log2 x.toNat / 2) := by
  have hvalue := UInt128.shiftRight_toNat
    (x.and (((UInt128.ofInt64 1).shiftLeft (findMsb x).toNat).sub (UInt128.ofInt64 1)))
    ((findMsb x).toNat - (findMsb x >>> 1).toNat)
  rw [UInt128.and_toNat (mantissaMask_toNat hx), msbZ_toNat hx, findMsb_toNat hx] at hvalue
  rw [msbZ_toNat hx, findMsb_toNat hx]
  have hword := low_half_lt x.toNat
  rw [← low_bits hx] at hword
  have hpow := half_bit_lt hx
  rw [UInt128.lo_toNat (by omega), hvalue]

/-- The words hold all bits of the root. -/
theorem approxSqrt_toNat (x : UInt128) : (approxSqrt x).toNat = Ledger.approxSqrt x.toNat := by
  by_cases hx : x.toNat = 0
  · rw [approxSqrt, if_pos (toNat_eq_zero_iff.mp hx), hx]
    rfl
  · rw [approxSqrt, if_neg (mt toNat_eq_zero_iff.mpr hx), Ledger.approxSqrt, if_neg hx]
    simp only [UInt64.toNat_or, UInt64.toNat_shiftRight, msbZBit_toNat hx, mantissaZLo_toNat hx,
      msbX_odd hx]
    split
    next => rw [msbZBit_toNat hx]; rfl
    next => rfl

-- the root of the largest number fills its word
example : approxSqrt ⟨0xffffffffffffffff, 0xffffffffffffffff⟩ = 0xffffffffffffffff := by decide

/-! ## The curves as functions of numbers -/

/-- Without the words. -/
def growth (curve : CurveId) (rshares : Nat) : Nat :=
  match curve with
  | .quadratic => rshares * rshares + 4000000000000 * rshares
  | .quadraticCuration => rshares * 18446744073709551616 / (4000000000000 + rshares)
  | .linear => rshares
  | .squareRoot => Ledger.approxSqrt rshares

theorem growth_mono (curve : CurveId) {r s : Nat} (h : r ≤ s) :
    growth curve r ≤ growth curve s := by
  cases curve with
  | quadratic =>
      have hsquare : r * r ≤ s * s := Nat.mul_le_mul h h
      simp only [growth]
      omega
  | quadraticCuration =>
      simp only [growth]
      rw [Nat.le_div_iff_mul_le (by omega)]
      have hle := Nat.div_mul_le_self (r * 18446744073709551616) (4000000000000 + r)
      have hone : r * 18446744073709551616 / (4000000000000 + r) ≤ 18446744073709551616 := by
        apply Nat.div_le_of_le_mul
        omega
      generalize r * 18446744073709551616 / (4000000000000 + r) = k at hle hone
      -- what is added to the denominator adds no more than one whole to the fraction
      obtain ⟨d, rfl⟩ := Nat.exists_eq_add_of_le h
      have hmore : k * d ≤ 18446744073709551616 * d := Nat.mul_le_mul_right d hone
      calc k * (4000000000000 + (r + d)) = k * (4000000000000 + r) + k * d := by ring
        _ ≤ r * 18446744073709551616 + 18446744073709551616 * d := Nat.add_le_add hle hmore
        _ = (r + d) * 18446744073709551616 := by ring
  | linear => exact h
  | squareRoot => exact approxSqrt_mono h

theorem growth_lt {curve : CurveId} (hcurve : curve ≠ .quadratic) {r : Nat}
    (h : r < 9223372036854775808) : growth curve r < 18446744073709551616 := by
  cases curve with
  | quadratic => exact absurd rfl hcurve
  | quadraticCuration =>
      simp only [growth]
      rw [Nat.div_lt_iff_lt_mul (by omega)]
      omega
  | linear =>
      simp only [growth]
      omega
  | squareRoot => exact approxSqrt_lt h

/-- The words compute the curve. -/
theorem evaluateRewardCurve_spec {r : UInt128} (hr : r.toNat < 9223372036854775808)
    (curve : CurveId) :
    ∃ u, evaluateRewardCurve r curve contentConstant = .ok u ∧ u.toNat = growth curve r.toNat := by
  have hconstant : contentConstant.toNat = 2000000000000 := by decide
  have htwo : (UInt128.ofInt64 2).toNat = 2 := by decide
  cases curve with
  | quadratic =>
      have hle : r.toNat * r.toNat ≤ 9223372036854775808 * 9223372036854775808 :=
        Nat.mul_le_mul hr.le hr.le
      have hsum : (r.add contentConstant).toNat = r.toNat + 2000000000000 := by
        rw [UInt128.add_toNat, hconstant]
        omega
      have hproduct : (r.toNat + 2000000000000) * (r.toNat + 2000000000000) =
          r.toNat * r.toNat + 4000000000000 * r.toNat + 4000000000000000000000000 := by ring
      have hsquare : ((r.add contentConstant).mul (r.add contentConstant)).toNat =
          r.toNat * r.toNat + 4000000000000 * r.toNat + 4000000000000000000000000 := by
        rw [UInt128.mul_toNat, hsum, hproduct]
        omega
      have hless : (contentConstant.mul contentConstant).toNat = 4000000000000000000000000 := by
        rw [UInt128.mul_toNat, hconstant]
      refine ⟨_, rfl, ?_⟩
      rw [UInt128.sub_toNat (by rw [hsquare, hless]; omega), hsquare, hless]
      simp only [growth]
      omega
  | quadraticCuration =>
      have hdenominator : ((contentConstant.mul (UInt128.ofInt64 2)).add r).toNat =
          4000000000000 + r.toNat := by
        rw [UInt128.add_toNat, UInt128.mul_toNat, hconstant, htwo]
        omega
      have hnumerator : (UInt128.mk r.lo 0).toNat = r.toNat * 18446744073709551616 := by
        rw [UInt128.toNat, UInt128.lo_toNat (by omega), UInt64.toNat_zero, Nat.add_zero]
      have hlt : growth .quadraticCuration r.toNat < 18446744073709551616 :=
        growth_lt (by decide) hr
      simp only [growth] at hlt ⊢
      refine ⟨_, UInt128.div_eq (by omega), ?_⟩
      rw [hnumerator, hdenominator, UInt128.toNat_ofNat (by omega)]
  | linear => exact ⟨r, rfl, rfl⟩
  | squareRoot =>
      refine ⟨_, rfl, ?_⟩
      rw [UInt128.toNat_ofUInt64, approxSqrt_toNat]
      rfl

/-- So does the ledger, with its integers. -/
theorem ledger_evaluateRewardCurve {r : Int} (hr : 0 ≤ r ∧ r < 9223372036854775808)
    (curve : CurveId) :
    Ledger.evaluateRewardCurve r curve 2000000000000 = growth curve r.toNat := by
  obtain ⟨n, rfl⟩ := Int.eq_ofNat_of_zero_le hr.1
  rw [Int.toNat_natCast]
  cases curve with
  | quadratic =>
      have hle : (n : Int) * n ≤ 9223372036854775808 * 9223372036854775808 :=
        mul_le_mul hr.2.le hr.2.le hr.1 (by decide)
      have hproduct : ((n : Int) + 2000000000000) * (n + 2000000000000) =
          n * n + 4000000000000 * n + 4000000000000000000000000 := by ring
      simp only [Ledger.evaluateRewardCurve, growth, toUInt128, Nat.cast_add, Nat.cast_mul]
      rw [Int.emod_eq_of_lt (a := (n : Int) + 2000000000000) (by omega) (by omega), hproduct]
      have hsquare : 0 ≤ (n : Int) * n := mul_nonneg hr.1 hr.1
      omega
  | quadraticCuration =>
      simp only [Ledger.evaluateRewardCurve, growth, toUInt128, toUInt64, Int.natCast_ediv,
        Nat.cast_add, Nat.cast_mul]
      rw [Int.emod_eq_of_lt hr.1 (by omega), Int.emod_eq_of_lt (by omega) (by omega)]
      rfl
  | linear => rfl
  | squareRoot => rfl

/-- **The curves**: the root is monotone and close to the square root on all
numbers of 128 bits; with the constant of the fund, every curve is monotone on
numbers of 63 bits, and no curve but the quadratic one leaves 64 bits. -/
theorem rewardCurves_monotone :
    (∀ x y : UInt128, x.le y = true → approxSqrt x ≤ approxSqrt y) ∧
    (∀ x : UInt128, 0 < x.toNat →
      x.toNat < ((approxSqrt x).toNat + 1) ^ 2 ∧ 8 * (approxSqrt x).toNat ^ 2 ≤ 9 * x.toNat) ∧
    (∀ (curve : CurveId) (r s : UInt128), r.le s = true → s.toNat < 9223372036854775808 →
      ∃ u v, evaluateRewardCurve r curve contentConstant = .ok u ∧
        evaluateRewardCurve s curve contentConstant = .ok v ∧ u.le v = true) ∧
    (∀ (curve : CurveId) (r : UInt128), curve ≠ .quadratic → r.toNat < 9223372036854775808 →
      ∃ u, evaluateRewardCurve r curve contentConstant = .ok u ∧ u.hi = 0) := by
  refine ⟨?_, ?_, ?_, ?_⟩
  · intro x y h
    rw [UInt64.le_iff_toNat_le, approxSqrt_toNat, approxSqrt_toNat]
    exact approxSqrt_mono (UInt128.le_iff.mp h)
  · intro x hx
    rw [approxSqrt_toNat]
    exact approxSqrt_bounds (by omega)
  · intro curve r s h hs
    have hle := UInt128.le_iff.mp h
    obtain ⟨u, hu, hur⟩ := evaluateRewardCurve_spec (Nat.lt_of_le_of_lt hle hs) curve
    obtain ⟨v, hv, hvs⟩ := evaluateRewardCurve_spec hs curve
    refine ⟨u, v, hu, hv, ?_⟩
    rw [UInt128.le_iff, hur, hvs]
    exact growth_mono curve hle
  · intro curve r hcurve hr
    obtain ⟨u, hu, hur⟩ := evaluateRewardCurve_spec hr curve
    have hlt := growth_lt hcurve hr
    rw [← hur] at hlt
    exact ⟨u, hu, UInt128.hi_eq_zero hlt⟩

end Wide

end Gamebank.Rewards
