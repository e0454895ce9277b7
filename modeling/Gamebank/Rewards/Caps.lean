import Gamebank.Ledger.Rewards
import Gamebank.Protocol.Products

/-!
# The cap on the payout of a comment

The author of a comment may set the most it is to be paid, in GBD; nothing at
all if that is zero. `get_rshare_reward` turns the cap into GBC by the median
price, and while there is no such price it does not look at the cap.
-/

namespace Gamebank.Rewards

open Gamebank.Lib Gamebank.Protocol Gamebank.Ledger

/-- What the cap of a comment says of its payout. -/
structure Honoured (price : Price) (c : Comment) (payout : Int) : Prop where
  declined : c.maxAcceptedPayout = 0 → payout = 0
  capped : price.isNull = false →
    ∃ worth, toGbd price payout = .ok (.gbd worth) ∧ worth ≤ c.maxAcceptedPayout

/-- The amounts are of type `int64_t`, and the cap is not negative. -/
structure Ranged (price : Price) (c : Comment) : Prop where
  base : price.base.amount < 9223372036854775808
  quote : price.quote.amount < 9223372036854775808
  cap : Natural c.maxAcceptedPayout

/-- The claim of a comment on a fund, as `get_rshare_reward` weighs it. -/
def weighedClaim (fund : RewardFund) (c : Comment) : Int :=
  evaluateRewardCurve c.netRshares fund.authorRewardCurve fund.contentConstant * c.rewardWeight /
    hundredPercent

/-- The balance of the fund times the claim of the comment, in 256 bits. -/
def shareOfFund (ctx : RewardFundContext) (fund : RewardFund) (c : Comment) : Int :=
  toUInt256 (toUInt256 ctx.rewardBalance * weighedClaim fund c)

/-- The comment has a share of the fund of at least one satoshi, and of no more than fit. -/
structure Shares (ctx : RewardFundContext) (fund : RewardFund) (c : Comment) : Prop where
  rshares : 0 < c.netRshares
  claims : 0 < ctx.recentClaims
  some : ctx.recentClaims ≤ shareOfFund ctx fund c
  fits : shareOfFund ctx fund c < ctx.recentClaims * 9223372036854775808

/-! ## The cap of a comment -/

/-- The caps of all comments are amounts that are not negative. -/
def CapsNatural (s : Database) : Prop := s.comments.All fun c => Natural c.maxAcceptedPayout

theorem newComment_cap (o : CommentOperation) (parent : Option Comment) (now id : Nat) :
    Natural (o.newComment parent now id).maxAcceptedPayout :=
  ⟨by simp [CommentOperation.newComment], by simp [CommentOperation.newComment]⟩

theorem addBeneficiaries_caps {s : Database} (h : CapsNatural s) (id : Nat)
    (beneficiaries : List (AccountName × Nat)) :
    Returns (s.addBeneficiaries id beneficiaries) CapsNatural := by
  unfold Database.addBeneficiaries
  refine .bind_any fun c => .ensure fun _ => .ensure fun _ => .ensure fun _ => .pure ?_
  exact Table.All.modify h fun d hd => h d (List.mem_of_find?_eq_some hd)

/-- `comment_options` only ever lowers a cap, and not below zero. -/
theorem commentOptions_caps {s : Database} (h : CapsNatural s) {o : CommentOptionsOperation}
    (hvalid : o.validate = .ok ()) : Returns (s.commentOptions o) CapsNatural := by
  have hnonneg : 0 ≤ o.maxAcceptedPayout.amount := by
    unfold CommentOptionsOperation.validate at hvalid
    obtain ⟨-, -, hvalid⟩ := bind_eq_ok.mp hvalid
    obtain ⟨-, hvalid⟩ := ensure_bind_eq_ok.mp hvalid
    obtain ⟨-, hvalid⟩ := ensure_bind_eq_ok.mp hvalid
    exact of_decide_eq_true (ensure_bind_eq_ok.mp hvalid).1
  unfold Database.commentOptions
  refine .bind_eq fun c hc => .ensure fun _ => .ensure fun _ => .ensure fun _ =>
    .ensure fun hlower => .ensure fun _ => .foldlM ?_ fun t ht b _ => addBeneficiaries_caps ht _ b
  have hcap : Natural o.maxAcceptedPayout.amount := by
    have hmem : c ∈ s.comments.rows := List.mem_of_find?_eq_some (Database.require_eq_ok.mp hc)
    exact ⟨hnonneg, lt_of_le_of_lt (of_decide_eq_true hlower) (h c hmem).2⟩
  exact Table.All.modify h fun _ _ => hcap

variable {ctx : RewardFundContext} {price : Price} {fund : RewardFund} {c : Comment} {payout : Int}

/-! ## With a median price -/

theorem scale_pos {a numerator denominator b : Asset} (h : a.scale numerator denominator = .ok b) :
    0 < denominator.amount ∧ b.symbol = numerator.symbol := by
  have hsymbol := a.scale_symbol numerator denominator b h
  unfold Asset.scale at h
  exact ⟨of_decide_eq_true (ensure_bind_eq_ok.mp h).1, hsymbol⟩

/-- A price that turns GBC into GBD is one of the two, either way round. -/
theorem symbols_of_dust (hnull : price.isNull = false) {dust : Bool}
    (h : isCommentPayoutDust price payout = .ok dust) :
    (price.base.symbol = .gbc ∧ price.quote.symbol = .gbd ∧ 0 < price.base.amount) ∨
      (price.base.symbol = .gbd ∧ price.quote.symbol = .gbc ∧ 0 < price.quote.amount) := by
  unfold isCommentPayoutDust at h
  obtain ⟨worth, hworth, h⟩ := bind_eq_ok.mp h
  obtain ⟨hgbd, -⟩ := ensure_bind_eq_ok.mp h
  have hgbd : worth.symbol = .gbd := of_decide_eq_true hgbd
  simp only [toGbd, hnull, Bool.false_eq_true, if_false] at hworth
  unfold Asset.times at hworth
  by_cases hbase : (Asset.gbc payout).symbol = price.base.symbol
  · rw [if_pos hbase] at hworth
    obtain ⟨hpos, hsymbol⟩ := scale_pos hworth
    exact Or.inl ⟨hbase.symm, hsymbol ▸ hgbd, hpos⟩
  · rw [if_neg hbase] at hworth
    by_cases hquote : (Asset.gbc payout).symbol = price.quote.symbol
    · rw [if_pos hquote] at hworth
      obtain ⟨hpos, hsymbol⟩ := scale_pos hworth
      exact Or.inr ⟨hsymbol ▸ hgbd, hquote.symm, hpos⟩
    · rw [if_neg hquote] at hworth
      cases hworth

/-- The cap turned into GBC bounds what is worth no more than the cap. -/
theorem exists_worth {cap paid : Int} {numerator denominator maxGbc : Asset} {s t : AssetSymbol}
    (hn : 0 < numerator.amount ∧ numerator.amount < 9223372036854775808)
    (hd : 0 < denominator.amount ∧ denominator.amount < 9223372036854775808) (hcap : Natural cap)
    (hmax : Asset.scale ⟨cap, s⟩ numerator denominator = .ok maxGbc) (hpaid : Natural paid)
    (hle : paid ≤ toUInt64 maxGbc.amount) :
    (cap = 0 → paid = 0) ∧
      ∃ worth, Asset.scale ⟨paid, t⟩ denominator numerator = .ok ⟨worth, denominator.symbol⟩ ∧
        worth ≤ cap := by
  have hnNat : Natural numerator.amount := ⟨hn.1.le, hn.2⟩
  have hdNat : Natural denominator.amount := ⟨hd.1.le, hd.2⟩
  obtain ⟨-, hfits, rfl⟩ := (Asset.scale_eq_ok hcap hnNat hdNat).mp hmax
  have hquotient : 0 ≤ cap * numerator.amount / denominator.amount :=
    Int.ediv_nonneg (mul_lt_of_natural hcap hnNat).1 hd.1.le
  have hword : toUInt64 (toInt64 (cap * numerator.amount / denominator.amount)) =
      cap * numerator.amount / denominator.amount := by
    unfold toUInt64 toInt64
    split <;> omega
  have hworth : paid * denominator.amount / numerator.amount ≤ cap :=
    turned_back_le hn.1 hd.1 (hword ▸ hle)
  have hsmall := hcap.2
  have hfit : toInt64 (paid * denominator.amount / numerator.amount) =
      paid * denominator.amount / numerator.amount := by
    unfold toInt64
    rw [if_pos (by omega)]
  refine ⟨fun hzero => ?_, _, (Asset.scale_eq_ok hpaid hdNat hnNat).mpr
    ⟨hn.1, by omega, by rw [hfit]⟩, hworth⟩
  rw [hword, hzero, Int.zero_mul, Int.zero_ediv] at hle
  exact le_antisymm hle hpaid.1

/-- What is paid of a comment with a median price honours its cap. -/
theorem honoured_of_le_toGbc (hr : Ranged price c) (hnull : price.isNull = false) {dust : Bool}
    (hdust : isCommentPayoutDust price payout = .ok dust) {maxGbc : Asset}
    (hmax : toGbc price c.maxAcceptedPayout = .ok maxGbc) {paid : Int} (hpaid : Natural paid)
    (hle : paid ≤ toUInt64 maxGbc.amount) : Honoured price c paid := by
  have hboth : (c.maxAcceptedPayout = 0 → paid = 0) ∧
      ∃ worth, toGbd price paid = .ok (.gbd worth) ∧ worth ≤ c.maxAcceptedPayout := by
    simp only [toGbc, toGbd, hnull, Bool.false_eq_true, if_false, Asset.times] at hmax ⊢
    rcases symbols_of_dust hnull hdust with ⟨hbase, hquote, hpos⟩ | ⟨hbase, hquote, hpos⟩
    · simp only [Asset.gbc, Asset.gbd, hbase, hquote, reduceCtorEq, if_false, if_true] at hmax ⊢
      have hother := (scale_pos hmax).1
      have hback :=
        exists_worth (t := .gbc) ⟨hpos, hr.base⟩ ⟨hother, hr.quote⟩ hr.cap hmax hpaid hle
      rwa [hquote] at hback
    · simp only [Asset.gbc, Asset.gbd, hbase, hquote, reduceCtorEq, if_false, if_true] at hmax ⊢
      have hother := (scale_pos hmax).1
      have hback :=
        exists_worth (t := .gbc) ⟨hpos, hr.quote⟩ ⟨hother, hr.base⟩ hr.cap hmax hpaid hle
      rwa [hbase] at hback
  exact ⟨hboth.1, fun _ => hboth.2⟩

/-! ## Every reward -/

/-- What a share of the fund comes to. -/
theorem share_div (hclaims : 0 < ctx.recentClaims)
    (hfits : shareOfFund ctx fund c / ctx.recentClaims ≤ 9223372036854775807) :
    Natural (shareOfFund ctx fund c / ctx.recentClaims) := by
  have hnonneg : 0 ≤ shareOfFund ctx fund c := by
    unfold shareOfFund toUInt256
    exact Int.emod_nonneg _ (by decide)
  exact ⟨Int.ediv_nonneg hnonneg hclaims.le, by omega⟩

/-- The reward honours the cap of the comment if and only if there is a median price, or the
cap is not zero, or the comment has no share of the fund that is paid. -/
theorem rshare_reward_capped_iff (ctx : RewardFundContext) (price : Price) (fund : RewardFund)
    (c : Comment) (hr : Ranged price c) :
    Returns (getRshareReward ctx price fund c) (Honoured price c) ↔
      ¬(price.isNull = true ∧ c.maxAcceptedPayout = 0 ∧ Shares ctx fund c) := by
  constructor
  · rintro hreturns ⟨hnull, hzero, hshares⟩
    have hfits : shareOfFund ctx fund c / ctx.recentClaims ≤ 9223372036854775807 := by
      rw [← Int.lt_add_one_iff, Int.ediv_lt_iff_lt_mul hshares.claims, Int.mul_comm]
      exact hshares.fits
    have hpays : getRshareReward ctx price fund c =
        .ok (shareOfFund ctx fund c / ctx.recentClaims) := by
      unfold getRshareReward
      rw [ensure_bind_eq_ok, ensure_bind_eq_ok, decide_eq_true_eq, decide_eq_true_eq]
      refine ⟨hshares.rshares, hshares.claims, ensure_bind_eq_ok.mpr ⟨decide_eq_true hfits, ?_⟩⟩
      rw [if_pos hnull]
      rfl
    -- without a price the share is paid as it is, and it is at least one
    have hnothing := (hreturns _ hpays).declined hzero
    have hsome := Int.ediv_le_ediv hshares.claims hshares.some
    rw [Int.ediv_self hshares.claims.ne', hnothing] at hsome
    omega
  · intro hnot payout hpays
    unfold getRshareReward at hpays
    obtain ⟨hrshares, hpays⟩ := ensure_bind_eq_ok.mp hpays
    obtain ⟨hclaims, hpays⟩ := ensure_bind_eq_ok.mp hpays
    obtain ⟨hfits, hpays⟩ := ensure_bind_eq_ok.mp hpays
    rw [decide_eq_true_eq] at hrshares hclaims hfits
    have hshare : Natural (shareOfFund ctx fund c / ctx.recentClaims) := share_div hclaims hfits
    by_cases hnull : price.isNull = true
    · rw [if_pos hnull, pure_eq_ok] at hpays
      have hpayout : shareOfFund ctx fund c / ctx.recentClaims = payout := hpays
      refine ⟨fun hzero => ?_, fun hprice => by rw [hnull] at hprice; cases hprice⟩
      -- without a share that is paid there is nothing to decline
      by_contra hne
      refine hnot ⟨hnull, hzero, hrshares, hclaims, ?_, ?_⟩
      · have hpos : 0 < shareOfFund ctx fund c / ctx.recentClaims := by
          have := hshare.1
          omega
        by_contra hless
        have hsmall : shareOfFund ctx fund c / ctx.recentClaims < 1 := by
          rw [Int.ediv_lt_iff_lt_mul hclaims]
          omega
        omega
      · rw [Int.mul_comm, ← Int.ediv_lt_iff_lt_mul hclaims]
        exact hshare.2
    -- with a price the reward is cut to the cap in GBC
    · rw [if_neg hnull] at hpays
      rw [Bool.not_eq_true] at hnull
      obtain ⟨dust, hdust, hpays⟩ := bind_eq_ok.mp hpays
      obtain ⟨maxGbc, hmax, hpays⟩ := bind_eq_ok.mp hpays
      rw [pure_eq_ok] at hpays
      have hword : 0 ≤ toUInt64 maxGbc.amount := by
        unfold toUInt64
        omega
      have hpaid : Natural payout ∧ payout ≤ toUInt64 maxGbc.amount := by
        have := hshare.1
        have := hshare.2
        rw [← hpays]
        refine ⟨⟨?_, ?_⟩, min_le_right _ _⟩
        · refine le_min ?_ hword
          split
          · exact le_refl _
          · exact hshare.1
        · refine lt_of_le_of_lt (min_le_left _ _) ?_
          split
          · decide
          · exact hshare.2
      exact honoured_of_le_toGbc hr hnull hdust hmax hpaid.1 hpaid.2

/-- A post whose author declines to be paid. -/
def declinedPost : Comment :=
  { CommentOperation.newComment ⟨"", "game", initMinerName, "root", "", "first", ""⟩ none
    genesisTime 0 with
    netRshares := 1000000000000
    maxAcceptedPayout := 0 }

/-- The fund of the live network with some GBC in it, and the claim of the post. -/
def smallFund : RewardFundContext := ⟨140797515942543623 + 1000000000000, 1000000, 0⟩

/-- At one GBD a GBC the post is not paid. -/
theorem rshare_reward_capped_priced :
    Returns (getRshareReward smallFund ⟨.gbd 1000, .gbc 1000⟩ (.post 0 genesisTime 1000000)
      declinedPost)
      (Honoured ⟨.gbd 1000, .gbc 1000⟩ declinedPost) :=
  (rshare_reward_capped_iff _ _ _ declinedPost ⟨by decide, by decide, by decide, by decide⟩).mpr
    fun h => absurd h.1 (by decide)

/-- Without a median price it is. -/
theorem declined_post_paid :
    getRshareReward smallFund .empty (.post 0 genesisTime 1000000) declinedPost = .ok 7 ∧
      ¬Returns (getRshareReward smallFund .empty (.post 0 genesisTime 1000000) declinedPost)
        (Honoured .empty declinedPost) := by
  have hpaid :
    getRshareReward smallFund .empty (.post 0 genesisTime 1000000) declinedPost = .ok 7 := by
    decide +kernel
  refine ⟨hpaid, fun h => ?_⟩
  have hzero := (h 7 hpaid).declined rfl
  cases hzero

end Gamebank.Rewards
