import Gamebank.Lib.ProRata
import Gamebank.Rewards.Votes

/-!
# The reward of a comment

`Pays who s t x` says that from `s` to `t` accounts were credited with `x` in
all, that no account lost anything, that only accounts in `who` got something,
and that nothing else happened. Curators share by weight and beneficiaries by
percent; what they get is covered by what is shared. The reward of a comment
is what its author, its curators and its beneficiaries are credited with
(`payReward_pays`); it is no more than its share of the fund
(`getRshareReward_le`).
-/

namespace Gamebank.Rewards

open Gamebank.Lib Gamebank.Protocol Gamebank.Ledger
open Gamebank.Ledger.Database (modifyAccount_spec modifyProps_spec require_eq_ok Edited)

/-! ## Credits -/

/-- The GBC that rewards are paid to. -/
def heldBy (a : Account) : Int := a.balance + a.rewardGbcBalance + a.rewardVestingGbc

/-- All of it. -/
def held (s : Database) : Int := s.accounts.total heldBy

/-- What is held under a name. -/
def holding (s : Database) (name : AccountName) : Int :=
  s.accounts.total fun a => if a.name = name then heldBy a else 0

/-- What decides who gets the reward of a comment. -/
def payeesOf (c : Comment) : Nat × AccountName × Bool × List (AccountName × Int) :=
  (c.id, c.author, c.allowCurationRewards, c.beneficiaries)

/-- The author of a comment, its beneficiaries, and who voted for it if
curation is rewarded. -/
def Recipient (s : Database) (c : Comment) (name : AccountName) : Prop :=
  name = c.author ∨ name ∈ c.beneficiaries.map Prod.fst ∨
    c.allowCurationRewards = true ∧ ∃ v ∈ s.commentVotes, v.comment = c.id ∧ v.voter = name

structure Pays (who : AccountName → Prop) (s t : Database) (x : Int) : Prop where
  held : held t = held s + x
  gains : ∀ name, holding s name ≤ holding t name
  others : ∀ name, ¬who name → holding t name = holding s name
  payees : t.comments.rows.map payeesOf = s.comments.rows.map payeesOf
  view : view t = view s

variable {s t u : Database} {x y : Int} {c : Comment} {who : AccountName → Prop}

namespace Pays

theorem refl (who : AccountName → Prop) (s : Database) : Pays who s s 0 :=
  ⟨(Int.add_zero _).symm, fun _ => le_rfl, fun _ _ => rfl, rfl, rfl⟩

theorem trans (h : Pays who s t x) (h' : Pays who t u y) : Pays who s u (x + y) where
  held := by rw [h'.held, h.held, Int.add_assoc]
  gains := fun name => (h.gains name).trans (h'.gains name)
  others := fun name hname => (h'.others name hname).trans (h.others name hname)
  payees := h'.payees.trans h.payees
  view := h'.view.trans h.view

end Pays

theorem modifyAccount_pays (s : Database) {name : AccountName} (hwho : who name)
    {f : Account → Account} (hx : 0 ≤ x) (hname : ∀ a, (f a).name = a.name)
    (hf : ∀ a, heldBy (f a) = heldBy a + x) :
    Returns (s.modifyAccount name f) fun t => Pays who s t x := by
  refine (modifyAccount_spec s name f).mono fun t ⟨a, h⟩ => ⟨?_, ?_, ?_, ?_, ?_⟩
  · show sumOf heldBy t.accounts.rows = sumOf heldBy s.accounts.rows + x
    rw [h.replaces.sumOf_eq, hf]
    omega
  · intro other
    show sumOf _ s.accounts.rows ≤ sumOf _ t.accounts.rows
    rw [h.replaces.sumOf_eq, hname, hf]
    split <;> omega
  · -- an account of that name is not the one that was modified
    intro other hother
    have hne : a.name ≠ other := by
      rintro rfl
      exact hother (h.name_eq ▸ hwho)
    show sumOf _ t.accounts.rows = sumOf _ s.accounts.rows
    rw [h.replaces.sumOf_eq, hname, if_neg hne, if_neg hne]
    omega
  · rw [h.rest]
  · rw [h.rest]
    rfl

theorem modifyProps_pays (s : Database) {f : GlobalProperties → GlobalProperties}
    (htime : ∀ p, (f p).time = p.time) (hsupply : ∀ p, (f p).virtualSupply = p.virtualSupply) :
    Returns (s.modifyProps f) fun t => Pays who s t 0 := by
  refine (modifyProps_spec s f).mono fun t ht => ?_
  rw [ht.2]
  refine ⟨(Int.add_zero _).symm, fun _ => le_rfl, fun _ _ => rfl, rfl, ?_⟩
  ext1
  case now => exact htime s.props
  case supply => exact hsupply s.props
  all_goals rfl

theorem createRewardVesting_pays (s : Database) {name : AccountName} (hwho : who name)
    (hx : 0 ≤ x) :
    Returns (s.createRewardVesting name (.gbc x)) fun t => Pays who s t x := by
  unfold Database.createRewardVesting Database.adjustRewardBalance Database.modifyRewardBalance
  refine .ensure fun _ => .bind_any fun price => .bind_any fun shares => ?_
  have hcredit : Returns (do
      ensure (!(Asset.gbc x).symbol.isVesting && shares.symbol.isVesting) "is_vesting"
      s.modifyRewardBalance name (.gbc x) shares s.hardfork01) fun t => Pays who s t x := by
    refine .ensure fun _ => .bind_any fun a => .ite (fun _ => .ensure fun _ => ?_) fun _ =>
      .ensure fun _ => ?_
    · refine modifyAccount_pays s hwho hx (fun _ => rfl) fun a => ?_
      show a.balance + (a.rewardGbcBalance + x) + a.rewardVestingGbc = heldBy a + x
      unfold heldBy
      omega
    · refine modifyAccount_pays s hwho hx (fun _ => rfl) fun a => ?_
      show a.balance + a.rewardGbcBalance + (a.rewardVestingGbc + x) = heldBy a + x
      unfold heldBy
      omega
  refine .bind hcredit fun t ht => ?_
  exact Returns.mono (modifyProps_pays t (fun _ => rfl) fun _ => rfl) fun u hu => by
    simpa using ht.trans hu

theorem adjustBalance_pays (s : Database) {name : AccountName} (hwho : who name) (hx : 0 ≤ x) :
    Returns (s.adjustBalance name (.gbc x)) fun t => Pays who s t x := by
  unfold Database.adjustBalance Database.modifyBalance
  refine .bind_any fun _ => .ensure fun _ => modifyAccount_pays s hwho hx (fun _ => rfl) fun a => ?_
  show a.balance + x + a.rewardGbcBalance + a.rewardVestingGbc = heldBy a + x
  unfold heldBy
  omega

/-! ## Curators -/

theorem toUInt128_eq {n : Int} (h0 : 0 ≤ n) (hlt : n < 340282366920938463463374607431768211456) :
    toUInt128 n = n := Int.emod_eq_of_lt h0 hlt

/-- The products of the payouts fit. -/
theorem mul_lt_uint128 {m w : Int} (hm : m < 9223372036854775808) (hw0 : 0 ≤ w)
    (hw : w ≤ 18446744073709551616) : m * w < 340282366920938463463374607431768211456 := by
  have hle : m * w ≤ 9223372036854775808 * w := Int.mul_le_mul_of_nonneg_right hm.le hw0
  omega

/-- The claim of a curator is computed exactly, and is some of what there is to share. -/
theorem curatorClaim_exact {maxRewards totalWeight weight : Int} (hmax : 0 ≤ maxRewards)
    (hfits : maxRewards < 9223372036854775808) (hpos : 0 < totalWeight) (hweight : 0 ≤ weight)
    (hle : weight ≤ totalWeight) (htotal : totalWeight < 18446744073709551616) :
    toUInt128 (maxRewards * weight) = maxRewards * weight ∧
      toInt64 (maxRewards * weight / totalWeight) = maxRewards * weight / totalWeight ∧
      0 ≤ maxRewards * weight / totalWeight := by
  have hproduct : toUInt128 (maxRewards * weight) = maxRewards * weight :=
    toUInt128_eq (Int.mul_nonneg hmax hweight) (mul_lt_uint128 hfits hweight (by omega))
  have hnonneg : 0 ≤ maxRewards * weight / totalWeight :=
    Int.ediv_nonneg (Int.mul_nonneg hmax hweight) hpos.le
  have hsmall : maxRewards * weight / totalWeight ≤ maxRewards :=
    Int.ediv_le_of_le_mul hpos (Int.mul_le_mul_of_nonneg_left hle hmax)
  exact ⟨hproduct, if_pos (by omega), hnonneg⟩

/-- One turn of the loop over the curators; `rest` is the weight of the votes
after this one. -/
theorem payCurator_pays {maxRewards totalWeight : Int} (hmax : 0 ≤ maxRewards)
    (hfits : maxRewards < 9223372036854775808) (hpos : 0 < totalWeight) {v : CommentVote}
    (hwho : who v.voter) (hv : 0 ≤ v.weight) (hle : v.weight ≤ totalWeight)
    (htotal : totalWeight < 18446744073709551616)
    {unclaimed rest : Int} (hrest : unclaimed ≤ maxRewards)
    (hcovered : Covered maxRewards totalWeight (maxRewards - unclaimed) (v.weight + rest)) :
    Returns (Database.payCurator maxRewards totalWeight (s, unclaimed) v) fun r =>
      Pays who s r.1 (unclaimed - r.2) ∧ r.2 ≤ maxRewards ∧
        Covered maxRewards totalWeight (maxRewards - r.2) rest := by
  have hshare := share_mul_le maxRewards v.weight hpos
  obtain ⟨hproduct, hexact, hnonneg⟩ := curatorClaim_exact hmax hfits hpos hv hle htotal
  unfold Database.payCurator
  refine .bind (checkedUInt64_eq _) fun claim hclaim => ?_
  rw [hproduct] at hclaim
  subst hclaim
  generalize maxRewards * v.weight / totalWeight = share at *
  have hpaid := hcovered.pay hshare
  rw [show maxRewards - unclaimed + share = maxRewards - (unclaimed - share) by omega] at hpaid
  rw [hexact]
  refine .ite (fun _ => ?_) fun hzero => ?_
  · refine .bind (createRewardVesting_pays s hwho hnonneg) fun t ht => ?_
    have hcount : Returns (t.modifyAccount v.voter fun a =>
        { a with curationRewards := a.curationRewards + share }) fun u => Pays who t u 0 :=
      modifyAccount_pays t hwho le_rfl (fun _ => rfl) fun a => (Int.add_zero _).symm
    refine .bind hcount fun u hu => .pure ⟨?_, by omega, hpaid⟩
    have := ht.trans hu
    rwa [show share + 0 = unclaimed - (unclaimed - share) by omega] at this
  · have hshare0 : share = 0 := by omega
    subst hshare0
    refine .pure ⟨?_, hrest, ?_⟩
    · rw [Int.sub_self]
      exact .refl who s
    · rwa [Int.sub_zero] at hpaid

/-- What the curators get. The loop goes through the votes in another order
than they have in the index. -/
theorem payCurators_pays (h : Sound (view s)) (hc : claim c ∈ (view s).claims) {maxRewards : Int}
    (hmax : 0 ≤ maxRewards) (hfits : maxRewards < 9223372036854775808) :
    Returns (s.payCurators c maxRewards) fun r => ∃ paid, Pays (Recipient s c) s r.1 paid ∧
      r.2.2 = paid ∧ 0 ≤ paid ∧ 0 ≤ r.2.1 ∧ paid + r.2.1 ≤ maxRewards := by
  unfold Database.payCurators
  refine .ite (fun _ => .pure ⟨0, .refl _ s, rfl, le_rfl, le_rfl, hmax⟩) fun hallowed => ?_
  refine .ite (fun hpos => ?_) fun _ =>
    .pure ⟨0, .refl _ s, rfl, le_rfl, hmax, (Int.zero_add maxRewards).le⟩
  have hperm : (s.curators c).Perm (s.commentVotes.filter fun v => v.comment = c.id) :=
    List.perm_insertionSort _ _
  have hweights : ∀ v ∈ s.curators c, Recipient s c v.voter ∧ 0 ≤ v.weight ∧
      v.weight ≤ c.totalVoteWeight := by
    intro v hv
    have hmem := hperm.subset hv
    have hvote : v ∈ (view s).votes := List.mem_of_mem_filter hmem
    have hcomment : v.comment = c.id := by simpa using List.of_mem_filter hmem
    have hle := weight_le_weightOn (fun w hw => (h.votes w hw).1) hvote
    rw [hcomment] at hle
    have hrecipient : Recipient s c v.voter :=
      .inr (.inr ⟨by simpa using hallowed, v, hvote, hcomment, rfl⟩)
    exact ⟨hrecipient, (h.votes v hvote).1, hle.trans (h.claims (claim c) hc).votes⟩
  have htotal : sumOf CommentVote.weight (s.curators c) ≤ c.totalVoteWeight := by
    have hsum : sumOf CommentVote.weight (s.curators c) = weightOn (view s).votes c.id := by
      rw [sumOf_perm hperm, sumOf_filter]
      simp only [decide_eq_true_eq]
      rfl
    rw [hsum]
    exact (h.claims (claim c) hc).votes
  -- the weights of the votes still to come
  have hloop : Returns ((s.curators c).foldlM (Database.payCurator maxRewards c.totalVoteWeight)
      (s, maxRewards)) fun r => Pays (Recipient s c) s r.1 (maxRewards - r.2) ∧
        r.2 ≤ maxRewards ∧ Covered maxRewards c.totalVoteWeight (maxRewards - r.2) 0 := by
    refine Returns.foldlM_rest (I := fun (votes : List CommentVote) (r : Database × Int) =>
      (∀ v ∈ votes, Recipient s c v.voter ∧ 0 ≤ v.weight ∧ v.weight ≤ c.totalVoteWeight) ∧
        Pays (Recipient s c) s r.1 (maxRewards - r.2) ∧ r.2 ≤ maxRewards ∧
          Covered maxRewards c.totalVoteWeight (maxRewards - r.2)
            (sumOf CommentVote.weight votes)) ?_ ?_ |>.mono fun r hr => hr.2
    · rintro v rest ⟨t, unclaimed⟩ ⟨hall, hpays, hle, hcovered⟩
      obtain ⟨hwho, hv, hvle⟩ := hall v List.mem_cons_self
      refine (payCurator_pays hmax hfits hpos hwho hv hvle (h.total_lt hc) hle hcovered).mono
        fun r hr => ?_
      refine ⟨fun w hw => hall w (List.mem_cons_of_mem v hw), ?_, hr.2.1, hr.2.2⟩
      have := hpays.trans hr.1
      rwa [show maxRewards - unclaimed + (unclaimed - r.2) = maxRewards - r.2 by omega] at this
    · refine ⟨hweights, ?_, le_rfl, ?_⟩
      · rw [Int.sub_self]
        exact .refl _ s
      · rw [Int.sub_self]
        exact Covered.start hmax htotal
  refine .bind hloop fun r ⟨hpays, hle, hcovered⟩ => .pure ?_
  have := hcovered.le hpos hmax le_rfl
  exact ⟨maxRewards - r.2, hpays, rfl, by omega, by show 0 ≤ r.2; omega,
    by show maxRewards - r.2 + r.2 ≤ maxRewards; omega⟩

/-! ## Beneficiaries -/

theorem tdiv_share {amount percent : Int} (ha : 0 ≤ amount) (hp : 0 ≤ percent) :
    0 ≤ (amount * percent).tdiv hundredPercent ∧
      (amount * percent).tdiv hundredPercent * hundredPercent ≤ amount * percent := by
  have hproduct := Int.mul_nonneg ha hp
  rw [Int.tdiv_eq_ediv_of_nonneg hproduct]
  exact ⟨Int.ediv_nonneg hproduct (by decide), share_mul_le amount percent (by decide)⟩

theorem payBeneficiaries_pays {beneficiaries : List (AccountName × Int)}
    (hshared : Shared beneficiaries) (hwho : ∀ b ∈ beneficiaries, who b.1)
    {authorTokens : Int} (ha : 0 ≤ authorTokens) :
    Returns (beneficiaries.foldlM (Database.payBeneficiary authorTokens) (s, 0)) fun r =>
      Pays who s r.1 r.2 ∧ 0 ≤ r.2 ∧ r.2 ≤ authorTokens := by
  refine Returns.foldlM_rest (I := fun (bs : List (AccountName × Int)) (r : Database × Int) =>
    (∀ b ∈ bs, who b.1 ∧ 0 ≤ b.2) ∧ Pays who s r.1 r.2 ∧ 0 ≤ r.2 ∧
      Covered authorTokens hundredPercent r.2 (sumOf Prod.snd bs)) ?_ ?_ |>.mono fun r hr => ?_
  · rintro b rest ⟨t, total⟩ ⟨hall, hpays, hnonneg, hcovered⟩
    obtain ⟨hb, hpercent⟩ := hall b List.mem_cons_self
    obtain ⟨htokens, hshare⟩ := tdiv_share ha hpercent
    unfold Database.payBeneficiary
    refine .ensure fun _ => .bind (createRewardVesting_pays t hb htokens) fun u hu => .pure ?_
    exact ⟨fun b' hb' => hall b' (List.mem_cons_of_mem b hb'), hpays.trans hu,
      Int.add_nonneg hnonneg htokens, hcovered.pay hshare⟩
  · exact ⟨fun b hb => ⟨hwho b hb, hshared.nonneg b hb⟩, .refl who s, le_rfl,
      Covered.start ha hshared.total⟩
  · obtain ⟨-, hpays, hnonneg, hcovered⟩ := hr
    exact ⟨hpays, hnonneg, hcovered.le (by decide) ha le_rfl⟩

/-! ## The whole reward -/

theorem modifyComment_pays (who : AccountName → Prop) (s : Database) (id : Nat)
    {f : Comment → Comment} (hf : ∀ c, claim (f c) = claim c)
    (hpayees : ∀ c, payeesOf (f c) = payeesOf c) :
    Returns (s.modifyComment id f) fun t => Pays who s t 0 := by
  refine (modifyComment_spec s id f).mono fun t ⟨c, h⟩ => ?_
  have haccounts : t.accounts = s.accounts := by rw [h.rest]
  have hholding : ∀ name, holding t name = holding s name := by
    intro name
    unfold holding
    rw [haccounts]
  refine ⟨?_, fun name => (hholding name).ge, fun name _ => hholding name,
    h.replaces.map_eq (hpayees c), h.view_keeps (hf c)⟩
  unfold held
  rw [haccounts, Int.add_zero]

/-- All of a reward is credited to the author, the curators and the
beneficiaries, but for what curators left when it is not passed on. -/
theorem payReward_pays (h : Sound (view s)) (hc : claim c ∈ (view s).claims) {reward : Int}
    (hreward : 0 ≤ reward) (hfits : reward < 9223372036854775808) (forward : Bool) :
    Returns (s.payReward c reward forward) fun r =>
      Pays (Recipient s c) s r.1 r.2 ∧ 0 ≤ r.2 ∧ r.2 ≤ reward := by
  obtain ⟨f, hf⟩ := h.fund
  have hwho : Recipient s c c.author := .inl rfl
  have hbeneficiaries : ∀ b ∈ c.beneficiaries, Recipient s c b.1 :=
    fun b hb => .inr (.inl (List.mem_map_of_mem hb))
  have hpercent : f.percentCurationRewards = 2500 := by rw [hf.post]; rfl
  unfold Database.payReward
  refine .bind_eq fun fund hfund => ?_
  cases (getRewardFund_eq hf).symm.trans hfund
  refine .bind (checkedUInt64_eq _) fun curationTokens hcuration => ?_
  rw [hpercent, toUInt128_eq (by omega) (by omega)] at hcuration
  have hcuration' : curationTokens = reward * 2500 / 10000 := hcuration
  refine .bind (payCurators_pays h hc (by omega) (by omega)) ?_
  rintro ⟨s1, remainder, curation⟩ ⟨paid, hpays, hpaid, hnonneg, hremainder, hsum⟩
  dsimp only at hpaid hremainder hsum
  subst hpaid
  dsimp only
  -- what the author shares with the beneficiaries
  obtain ⟨author, hauthor⟩ : ∃ author, author =
      (if forward then reward - curationTokens + remainder else reward - curationTokens) := ⟨_, rfl⟩
  have hbounds : 0 ≤ author ∧ author + curation ≤ reward := by
    rw [hauthor]
    split <;> omega
  rw [← hauthor]
  refine .bind (payBeneficiaries_pays (h.claims (claim c) hc).shared hbeneficiaries hbounds.1) ?_
  rintro ⟨s2, beneficiary⟩ ⟨hpays2, hnonneg2, hle2⟩
  refine .ensure fun _ => ?_
  dsimp only at hpays2 hnonneg2 hle2 ⊢
  have hhalf : 0 ≤ ((author - beneficiary) * hundredPercent).tdiv (2 * hundredPercent) ∧
      ((author - beneficiary) * hundredPercent).tdiv (2 * hundredPercent) ≤
        author - beneficiary := by
    unfold hundredPercent
    rw [Int.tdiv_eq_ediv_of_nonneg (by omega)]
    omega
  generalize ((author - beneficiary) * hundredPercent).tdiv (2 * hundredPercent) = half at hhalf ⊢
  refine .bind (createRewardVesting_pays s2 hwho (x := author - beneficiary - half) (by omega))
    fun s3 h3 => ?_
  refine .bind (adjustBalance_pays s3 hwho hhalf.1) fun s4 h4 => ?_
  refine .bind (modifyComment_pays (Recipient s c) s4 c.id (fun _ => rfl) fun _ => rfl)
    fun s5 h5 => ?_
  refine .bind (modifyComment_pays (Recipient s c) s5 c.id (fun _ => rfl) fun _ => rfl)
    fun s6 h6 => ?_
  refine .bind (modifyAccount_pays s6 hwho le_rfl (fun _ => rfl)
    fun a => (Int.add_zero (heldBy a)).symm) fun s7 h7 => .pure ?_
  have hall := ((((((hpays.trans hpays2).trans h3).trans h4).trans h5).trans h6).trans h7)
  have htotal : curation + beneficiary + (author - beneficiary - half) + half + 0 + 0 + 0 =
      author + curation := by omega
  rw [htotal] at hall
  exact ⟨hall, by show 0 ≤ author + curation; omega, hbounds.2⟩

/-- A comment gets no more than its share of the fund. -/
theorem getRshareReward_le (hc : (claim c).Sound (view s).votes) {f : RewardFund}
    (hf : Funded (view s) f) {ctx : RewardFundContext} (hbalance : 0 ≤ ctx.rewardBalance)
    (hfits : ctx.rewardBalance < 9223372036854775808) (price : Price) :
    Returns (getRshareReward ctx price f c) fun r => 0 ≤ r ∧ r < 9223372036854775808 ∧
      0 < ctx.recentClaims ∧ r * ctx.recentClaims ≤ ctx.rewardBalance * c.netRshares := by
  have hcurve : f.authorRewardCurve = .linear := by rw [hf.post]; rfl
  have hweight : c.rewardWeight = hundredPercent := hc.weight
  have hnet : c.netRshares < 9223372036854775808 := hc.net
  unfold getRshareReward
  refine .ensure fun hpos => .ensure fun hclaims => ?_
  rw [decide_eq_true_eq] at hpos hclaims
  have hclaim : evaluateRewardCurve c.netRshares f.authorRewardCurve f.contentConstant *
      c.rewardWeight / hundredPercent = c.netRshares := by
    rw [hcurve, hweight]
    exact Int.mul_ediv_cancel _ (by decide)
  rw [hclaim]
  dsimp only
  have hproduct : 0 ≤ ctx.rewardBalance * c.netRshares := Int.mul_nonneg hbalance hpos.le
  have hsmall := mul_lt_uint128 hfits hpos.le (by omega)
  have hexact : toUInt256 (toUInt256 ctx.rewardBalance * c.netRshares) =
      ctx.rewardBalance * c.netRshares := by
    unfold toUInt256
    rw [Int.emod_eq_of_lt hbalance (by omega), Int.emod_eq_of_lt hproduct (by omega)]
  rw [hexact]
  have hshare := share_mul_le ctx.rewardBalance c.netRshares hclaims
  have hnonneg := Int.ediv_nonneg hproduct hclaims.le
  refine .ensure fun hmax => ?_
  rw [decide_eq_true_eq] at hmax
  generalize ctx.rewardBalance * c.netRshares / ctx.recentClaims = payout at *
  refine .ite (fun _ => .pure ⟨hnonneg, by omega, hclaims, hshare⟩) fun _ =>
    .bind_any fun dust => .bind_any fun maxGbc => .pure ?_
  have hcut : 0 ≤ toUInt64 maxGbc.amount := Int.emod_nonneg _ (by decide)
  have hdust : 0 ≤ (if dust then 0 else payout) ∧ (if dust then 0 else payout) ≤ payout := by
    cases dust
    · exact ⟨hnonneg, le_rfl⟩
    · exact ⟨le_rfl, hnonneg⟩
  have hle : min (if dust then 0 else payout) (toUInt64 maxGbc.amount) ≤ payout :=
    (min_le_left _ _).trans hdust.2
  have hge : 0 ≤ min (if dust then 0 else payout) (toUInt64 maxGbc.amount) := le_min hdust.1 hcut
  exact ⟨hge, by omega, hclaims, (Int.mul_le_mul_of_nonneg_right hle hclaims.le).trans hshare⟩

/-! ## A comment is cashed out -/

/-- What is left of a claim that has been paid. -/
def Claim.cashedOut (a : Claim) : Claim :=
  { a with
    cashoutTime := maximumTime
    netRshares := if 0 < a.netRshares then 0 else a.netRshares
    voteRshares := 0
    totalVoteWeight := 0 }

theorem Claim.capacity_nonneg (a : Claim) : 0 ≤ a.capacity := by
  unfold Claim.capacity
  split <;> omega

theorem Claim.capacity_cashedOut (a : Claim) : a.cashedOut.capacity = 0 := if_pos rfl

theorem Claim.Sound.cashedOut {votes : List CommentVote} {a : Claim} (h : a.Sound votes) :
    a.cashedOut.Sound (votes.filter fun v => v.comment ≠ a.id) where
  weight := h.weight
  net := by
    show (if 0 < a.netRshares then 0 else a.netRshares) < 9223372036854775808
    split <;> omega
  paid := fun _ => by
    show (if 0 < a.netRshares then 0 else a.netRshares) ≤ 0
    split <;> omega
  votes := (weightOn_filter_self a.id).le
  total := show (0 : Int) ≤ (approxSqrt 0 : Nat) by decide
  up := le_rfl
  fits := show (0 : Int) < _ by decide
  shared := h.shared

/-- `t` is `s` with the comment `c` cashed out for `x`. -/
structure CashedOut (s t : Database) (c : Comment) (x : Int) : Prop where
  nonneg : 0 ≤ x
  held : held t = held s + x
  gains : ∀ name, holding s name ≤ holding t name
  others : ∀ name, ¬Recipient s c name → holding t name = holding s name
  payees : t.comments.rows.map payeesOf = s.comments.rows.map payeesOf
  claims : Replaces (claim c) (claim c).cashedOut (view s).claims (view t).claims
  rest : view t = { view s with
    claims := (view t).claims, votes := (view s).votes.filter fun v => v.comment ≠ c.id }

theorem CashedOut.sound (hs : Sound (view s)) (h : CashedOut s t c x) : Sound (view t) := by
  have hmem := h.claims.mem_old
  rw [h.rest]
  refine hs.replace h.claims rfl ?_ (hs.claims _ hmem).cashedOut ?_ ?_
  · rw [Claim.capacity_cashedOut]
    exact Claim.capacity_nonneg _
  · intro i hi
    exact weightOn_filter_of_ne hi
  · intro w hw
    exact hs.votes w (List.mem_of_mem_filter hw)

theorem payComment_pays (h : Sound (view s)) (hc : claim c ∈ (view s).claims)
    {ctx : RewardFundContext} (hbalance : 0 ≤ ctx.rewardBalance)
    (hfits : ctx.rewardBalance < 9223372036854775808) (forward : Bool) :
    Returns (s.payComment ctx c forward) fun r => Pays (Recipient s c) s r.1 r.2 ∧ 0 ≤ r.2 ∧
      r.2 * ctx.recentClaims ≤ ctx.rewardBalance * max 0 c.netRshares := by
  obtain ⟨f, hf⟩ := h.fund
  have hnone : Pays (Recipient s c) s s 0 ∧ 0 ≤ (0 : Int) ∧
      0 * ctx.recentClaims ≤ ctx.rewardBalance * max 0 c.netRshares :=
    ⟨.refl _ s, le_rfl, by rw [Int.zero_mul]; exact Int.mul_nonneg hbalance (by omega)⟩
  unfold Database.payComment
  refine .ite (fun hpos => ?_) fun _ => .pure hnone
  refine .bind_eq fun fund hfund => ?_
  cases (getRewardFund_eq hf).symm.trans hfund
  refine .bind (getRshareReward_le (h.claims (claim c) hc) hf hbalance hfits _) ?_
  rintro reward ⟨hr0, hrfits, hclaims, hshare⟩
  refine .ite (fun _ => ?_) fun _ => .pure hnone
  refine (payReward_pays h hc hr0 hrfits forward).mono fun r ⟨hpays, hnonneg, hle⟩ =>
    ⟨hpays, hnonneg, ?_⟩
  rw [max_eq_right hpos.le]
  exact (Int.mul_le_mul_of_nonneg_right hle hclaims.le).trans hshare

theorem cashoutCommentHelper_spec (h : Sound (view s)) (hc : c ∈ s.comments.rows)
    {ctx : RewardFundContext} (hbalance : 0 ≤ ctx.rewardBalance)
    (hfits : ctx.rewardBalance < 9223372036854775808) (forward : Bool) :
    Returns (s.cashoutCommentHelper ctx c forward) fun r => CashedOut s r.1 c r.2 ∧
      r.2 * ctx.recentClaims ≤ ctx.rewardBalance * max 0 c.netRshares := by
  have hmem : claim c ∈ (view s).claims := List.mem_map_of_mem hc
  unfold Database.cashoutCommentHelper
  refine .bind (payComment_pays h hmem hbalance hfits forward) ?_
  rintro ⟨s1, claimed⟩ ⟨hpays, hnonneg, hshare⟩
  refine .bind (modifyComment_spec s1 c.id _) fun t ⟨d, ht⟩ => .pure ⟨?_, hshare⟩
  have hview := hpays.view
  have hd : claim d = claim c := by
    have hfound := ht.mem
    rw [hview] at hfound
    exact h.eq_of_id hfound hmem ht.id_eq
  have haccounts : t.accounts = s1.accounts := by rw [ht.rest]
  have hholding : ∀ name, holding t name = holding s1 name := by
    intro name
    unfold holding
    rw [haccounts]
  have hpayees : t.comments.rows.map payeesOf = s1.comments.rows.map payeesOf :=
    ht.replaces.map_eq rfl
  refine ⟨hnonneg, ?_, fun name => (hpays.gains name).trans_eq (hholding name).symm,
    fun name hname => (hholding name).trans (hpays.others name hname),
    hpayees.trans hpays.payees, ?_, ?_⟩
  · rw [← hpays.held]
    unfold held
    rw [← haccounts]
  · have hr : Replaces (claim d) (claim d).cashedOut (view s1).claims (view t).claims := ht.claims
    rw [hd, hview] at hr
    exact hr
  · have hrest := ht.view_eq
    rw [hview] at hrest
    show { view t with votes := (view t).votes.filter fun v => v.comment ≠ c.id } =
      { view s with
        claims := (view t).claims, votes := (view s).votes.filter fun v => v.comment ≠ c.id }
    generalize view t = v at hrest
    rw [hrest]

end Gamebank.Rewards
