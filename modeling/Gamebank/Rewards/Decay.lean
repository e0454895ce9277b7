import Gamebank.Ledger.Rewards

/-!
# How recent claims decay

In every block `process_comment_cashout` takes from the recent claims of a fund
the fraction of fifteen days that has gone by since the block before. Nothing
says that this is at most fifteen days; and the product of the claims and the
seconds is one of 128 bits.

The first section is about quotients of products that wrap.
-/

namespace Gamebank.Rewards

open Gamebank.Lib Gamebank.Protocol Gamebank.Ledger

/-! ## Quotients of wrapped products -/

section

/-- The part `r * k` of `D`, computed modulo `B`. -/
def worn (B D r k : Nat) : Nat := r * k % B / D

variable {B D r k n : Nat}

theorem worn_of_lt (h : r * k < B) : worn B D r k = r * k / D := by
  rw [worn, Nat.mod_eq_of_lt h]

/-- Multiples of a number just below the modulus. -/
theorem mul_mod_of_near (hr : r < B) (hk : 1 ≤ k) (h : (B - r) * k ≤ B) :
    r * k % B = B - (B - r) * k := by
  obtain ⟨j, rfl⟩ : ∃ j, k = j + 1 := ⟨k - 1, by omega⟩
  have hpos : 0 < (B - r) * (j + 1) := Nat.mul_pos (by omega) (Nat.succ_pos j)
  have hsum : r * (j + 1) + (B - r) * (j + 1) = B * (j + 1) := by
    rw [← Nat.add_mul, Nat.add_sub_cancel' hr.le]
  have hproduct : r * (j + 1) = B * j + (B - (B - r) * (j + 1)) := by
    rw [Nat.mul_succ B j] at hsum
    omega
  rw [hproduct, Nat.mul_add_mod, Nat.mod_eq_of_lt (by omega)]

/-- Where a product wraps, the quotients fall, unless the factor is just below the modulus. -/
theorem near_of_monotone (hD : 0 < D) (hr : r < B) (hwraps : B ≤ r * n)
    (hmono : ∀ j k, j ≤ k → k ≤ n → worn B D r j ≤ worn B D r k) : B - r < D := by
  have hpos : 0 < r := by
    rcases Nat.eq_zero_or_pos r with rfl | hpos
    · omega
    · exact hpos
  -- `k` is the last factor that does not wrap
  obtain ⟨k, hk⟩ : ∃ k, k = (B - 1) / r := ⟨_, rfl⟩
  have hlow : r * k < B := by
    have := Nat.mul_div_le (B - 1) r
    rw [← hk] at this
    omega
  have hhigh : B ≤ r * k + r := by
    have := Nat.lt_mul_div_succ (B - 1) hpos
    rw [← hk, Nat.mul_succ] at this
    omega
  have hkn : k + 1 ≤ n := by
    by_contra hlt
    have := Nat.mul_le_mul_left r (show n ≤ k by omega)
    omega
  have hwrapped : r * (k + 1) % B = r * k + r - B := by
    rw [Nat.mul_succ, Nat.mod_eq_sub_mod hhigh, Nat.mod_eq_of_lt (by omega)]
  have hle := hmono k (k + 1) (Nat.le_succ k) hkn
  rw [worn_of_lt hlow, worn, hwrapped] at hle
  by_contra hfar
  have hdrop : (r * k + r - B + D) / D ≤ r * k / D := Nat.div_le_div_right (by omega)
  rw [Nat.add_div_right _ hD] at hdrop
  omega

/-- Near the modulus all quotients are the same. -/
theorem worn_of_near (hr : r < B) (hk : 1 ≤ k) (hkn : k ≤ n)
    (h : D * (r / D) + (B - r) * n ≤ B) : worn B D r k = r / D := by
  have hmul := Nat.mul_le_mul_left (B - r) hkn
  have hone := Nat.mul_le_mul_left (B - r) hk
  rw [worn, mul_mod_of_near hr hk (by omega)]
  refine le_antisymm (Nat.div_le_div_right (by omega)) ?_
  calc r / D = D * (r / D) / D := by
        rcases Nat.eq_zero_or_pos D with rfl | hD
        · simp
        · rw [Nat.mul_div_cancel_left _ hD]
    _ ≤ (B - (B - r) * k) / D := Nat.div_le_div_right (by omega)

/-- When the quotients up to the factor `n` are at most `r` and do not fall. -/
theorem worn_iff (hD : 0 < D) (hB : 3 * D ≤ B) (hr : r < B) (n : Nat) :
    ((∀ k ≤ n, worn B D r k ≤ r) ∧ ∀ j k, j ≤ k → k ≤ n → worn B D r j ≤ worn B D r k) ↔
      if r * n < B then r * n < D * (r + 1) else D * (r / D) + (B - r) * n ≤ B := by
  by_cases hlt : r * n < B
  · rw [if_pos hlt]
    have hexact : ∀ k ≤ n, worn B D r k = r * k / D := by
      intro k hk
      exact worn_of_lt (lt_of_le_of_lt (Nat.mul_le_mul_left r hk) hlt)
    constructor
    · rintro ⟨hle, -⟩
      have hlast := hle n le_rfl
      rw [hexact n le_rfl, ← Nat.lt_succ_iff, Nat.div_lt_iff_lt_mul hD] at hlast
      rwa [Nat.mul_comm D]
    · intro hfits
      constructor
      · intro k hk
        have hmul := Nat.mul_le_mul_left r hk
        rw [hexact k hk, ← Nat.lt_succ_iff, Nat.div_lt_iff_lt_mul hD, Nat.mul_comm _ D]
        exact lt_of_le_of_lt hmul hfits
      · intro j k hjk hk
        rw [hexact j (hjk.trans hk), hexact k hk]
        exact Nat.div_le_div_right (Nat.mul_le_mul_left r hjk)
  · rw [if_neg hlt]
    have hn : 1 ≤ n := by
      rcases Nat.eq_zero_or_pos n with rfl | hn
      · omega
      · exact hn
    constructor
    · rintro ⟨-, hmono⟩
      have hnear := near_of_monotone hD hr (Nat.le_of_not_lt hlt) hmono
      have hmod := Nat.div_add_mod r D
      have hrest := Nat.mod_lt r hD
      -- all multiples up to the last stay below the modulus
      have hall : ∀ k, 1 ≤ k → k ≤ n → D * (r / D) + (B - r) * k ≤ B := by
        intro k hk hkn
        induction k, hk using Nat.le_induction with
        | base => omega
        | succ k hk ih =>
            have hprev := ih (by omega)
            have hsucc : (B - r) * (k + 1) = (B - r) * k + (B - r) := Nat.mul_succ _ _
            have hle := hmono 1 (k + 1) (by omega) hkn
            rw [worn, worn, Nat.mul_one, Nat.mod_eq_of_lt hr,
              mul_mod_of_near hr (by omega) (by omega), Nat.le_div_iff_mul_le hD,
              Nat.mul_comm _ D] at hle
            omega
      exact hall n hn le_rfl
    · intro hfits
      have hnone : worn B D r 0 = 0 := by simp [worn]
      constructor
      · intro k hk
        rcases Nat.eq_zero_or_pos k with rfl | hpos
        · omega
        · rw [worn_of_near hr hpos hk hfits]
          exact Nat.div_le_self r D
      · intro j k hjk hk
        rcases Nat.eq_zero_or_pos j with rfl | hpos
        · omega
        · rw [worn_of_near hr hpos (hjk.trans hk) hfits, worn_of_near hr (by omega) hk hfits]

end

/-! ## The decay of a fund -/

/-- At every gap up to the longest, the recent claims are at most what they were, and a
longer gap leaves no more of them than a shorter one. -/
structure Decays (f : RewardFund) (longest : Nat) : Prop where
  bounded : ∀ gap ≤ longest, 0 ≤ (Database.decay (f.lastUpdate + gap) f).recentClaims ∧
    (Database.decay (f.lastUpdate + gap) f).recentClaims ≤ f.recentClaims
  falls : ∀ shorter longer, shorter ≤ longer → longer ≤ longest →
    (Database.decay (f.lastUpdate + longer) f).recentClaims ≤
      (Database.decay (f.lastUpdate + shorter) f).recentClaims

/-- No more than all of `claims` is taken off in a gap: the gap is at most fifteen days,
or longer by less than what rounding down makes up for; or the product wraps, and `claims`
is so close to the highest number that the quotient is the same as for one second. -/
def Decayable (claims : Nat) (gap : Nat) : Prop :=
  if claims * gap < 340282366920938463463374607431768211456 then
    claims * gap < 1296000 * (claims + 1)
  else
    1296000 * (claims / 1296000) + (340282366920938463463374607431768211456 - claims) * gap ≤
      340282366920938463463374607431768211456

/-- Fifteen days are not too long for a product that does not wrap. -/
theorem decayable_of_le {claims gap : Nat} (hgap : gap ≤ 1296000)
    (hfits : claims * gap < 340282366920938463463374607431768211456) : Decayable claims gap := by
  have hpart : claims * gap ≤ 1296000 * claims := by
    rw [Nat.mul_comm 1296000]
    exact Nat.mul_le_mul_left claims hgap
  rw [Decayable, if_pos hfits]
  omega

instance (claims gap : Nat) : Decidable (Decayable claims gap) := by
  unfold Decayable
  infer_instance

/-- What a gap takes off. -/
def takenOff (claims gap : Nat) : Nat :=
  worn 340282366920938463463374607431768211456 1296000 claims gap

theorem takenOff_lt (claims gap : Nat) :
    takenOff claims gap < 340282366920938463463374607431768211456 :=
  lt_of_le_of_lt (Nat.div_le_self _ _) (Nat.mod_lt _ (by decide))

theorem decayable_iff {r : Nat} (hr : r < 340282366920938463463374607431768211456) (gap : Nat) :
    Decayable r gap ↔ (∀ k ≤ gap, takenOff r k ≤ r) ∧
      ∀ j k, j ≤ k → k ≤ gap → takenOff r j ≤ takenOff r k :=
  (worn_iff (by decide) (by decide) hr gap).symm

/-- What is left after a gap. -/
theorem decay_recentClaims {f : RewardFund} {r : Nat} (hr : f.recentClaims = r) (gap : Nat) :
    (Database.decay (f.lastUpdate + gap) f).recentClaims =
      toUInt128 ((r : Int) - takenOff r gap) := by
  have hgap : ((f.lastUpdate + gap : Nat) : Int) - f.lastUpdate = gap := by omega
  have htaken : toUInt128 ((r : Int) * gap) / Database.recentRsharesDecayTime = takenOff r gap := by
    unfold toUInt128 takenOff worn
    rw [Int.natCast_ediv, Int.natCast_emod, Int.natCast_mul]
    rfl
  show toUInt128 (f.recentClaims - toUInt128 (f.recentClaims * _) / _) = _
  rw [hr, hgap, htaken]

/-- The subtraction wraps if more is taken off than there is. -/
theorem toUInt128_sub {r q : Nat} (hr : r < 340282366920938463463374607431768211456)
    (hq : q < 340282366920938463463374607431768211456) :
    toUInt128 ((r : Int) - q) =
      if q ≤ r then (r : Int) - q else r - q + 340282366920938463463374607431768211456 := by
  unfold toUInt128
  split <;> omega

/-- The recent claims of a fund decay at every gap up to the longest if and only if the longest
gap takes off no more than there is. -/
theorem recent_claims_decay_iff (f : RewardFund) (longest : Nat) (hnonneg : 0 ≤ f.recentClaims)
    (hfits : f.recentClaims < 340282366920938463463374607431768211456) :
    Decays f longest ↔ Decayable f.recentClaims.toNat longest := by
  obtain ⟨r, hr⟩ : ∃ r : Nat, f.recentClaims = r := ⟨_, (Int.toNat_of_nonneg hnonneg).symm⟩
  have hlt : r < 340282366920938463463374607431768211456 := by omega
  have hleft : ∀ gap, (Database.decay (f.lastUpdate + gap) f).recentClaims = _ := fun gap =>
    (decay_recentClaims hr gap).trans (toUInt128_sub hlt (takenOff_lt r gap))
  have htoNat : f.recentClaims.toNat = r := by rw [hr, Int.toNat_natCast]
  rw [htoNat, decayable_iff hlt]
  constructor
  · rintro ⟨hbounded, hfalls⟩
    have hle : ∀ gap ≤ longest, takenOff r gap ≤ r := by
      intro gap hgap
      by_contra hgt
      have hgrown := (hbounded gap hgap).2
      rw [hleft gap, if_neg hgt, hr] at hgrown
      have := takenOff_lt r gap
      omega
    refine ⟨hle, fun j k hjk hk => ?_⟩
    have hfall := hfalls j k hjk hk
    rw [hleft j, hleft k, if_pos (hle j (hjk.trans hk)), if_pos (hle k hk)] at hfall
    omega
  · rintro ⟨hle, hmono⟩
    constructor
    · intro gap hgap
      rw [hleft gap, if_pos (hle gap hgap), hr]
      have := hle gap hgap
      omega
    · intro j k hjk hk
      have := hmono j k hjk hk
      rw [hleft j, hleft k, if_pos (hle j (hjk.trans hk)), if_pos (hle k hk)]
      omega

/-- The fund of the live network in the first fifteen days. -/
theorem recent_claims_decay_days :
    Decays (.post 0 genesisTime 0) 1296000 :=
  (recent_claims_decay_iff _ 1296000 (by decide) (by decide)).mpr
    (decayable_of_le (le_refl _) (by decide))

/-- A second more, and the claims are those of a number below zero. -/
theorem recent_claims_wrap :
    (Database.decay (genesisTime + 1296001) (.post 0 genesisTime 0)).recentClaims =
        340282366920938463463374607431768211456 - 108640058597 ∧
      ¬Decays (.post 0 genesisTime 0) 1296001 := by
  have hwrapped : (Database.decay (genesisTime + 1296001) (.post 0 genesisTime 0)).recentClaims =
      340282366920938463463374607431768211456 - 108640058597 := by decide +kernel
  refine ⟨hwrapped, fun h => ?_⟩
  have hle := (h.bounded 1296001 (le_refl _)).2
  rw [show (RewardFund.post 0 genesisTime 0).lastUpdate + 1296001 = genesisTime + 1296001 from rfl,
    hwrapped] at hle
  exact absurd hle (by decide)

end Gamebank.Rewards
