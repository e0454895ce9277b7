import Gamebank.Ledger.Calls
import Gamebank.Ledger.Comments
import Mathlib.Algebra.Group.Nat.Defs

/-!
# Votes on comments and their rewards

`util/reward.cpp`, `vote_evaluator`, `comment_options_evaluator` and
`process_comment_cashout` with what it calls, of a full node that clears
votes. All comments are paid from the reward fund `post`.

`process_comment_cashout` adds the claims of the comments that are due to the
recent claims of the fund, pays every one of them its share of the balance
the fund had before, and takes what it paid from the fund at the end.
-/

namespace Gamebank.Ledger

open Gamebank.Lib Gamebank.Protocol

/-! ## Curves -/

/-- `approx_sqrt`: half of the bits of `x` below the highest one. -/
def approxSqrt (x : Nat) : Nat :=
  if x = 0 then 0
  else
    let msbX := Nat.log2 x
    let msbZ := msbX / 2
    let mantissaX := x % 2 ^ msbX
    let mantissaZHi := if msbX % 2 = 1 then 2 ^ msbZ else 0
    let mantissaZLo := mantissaX / 2 ^ (msbX - msbZ)
    2 ^ msbZ ||| (mantissaZHi ||| mantissaZLo) / 2

/-- `evaluate_reward_curve`. -/
def evaluateRewardCurve (rshares : Int) (curve : CurveId) (contentConstant : Int) : Int :=
  match curve with
  | .quadratic =>
      let rsharesPlusS := toUInt128 (rshares + contentConstant)
      toUInt128 (toUInt128 (rsharesPlusS * rsharesPlusS) -
        toUInt128 (contentConstant * contentConstant))
  | .quadraticCuration =>
      let twoAlpha := toUInt128 (contentConstant * 2)
      toUInt64 rshares * 18446744073709551616 / toUInt128 (twoAlpha + rshares)
  | .linear => rshares
  | .squareRoot => approxSqrt rshares.toNat

/-- `uint128_t::to_uint64`. -/
def checkedUInt64 (n : Int) : Except String Int := do
  ensure (n < 18446744073709551616) "hi == 0"
  return n

/-! ## Options -/

/-- `comment_options_operation`; each extension is a list of beneficiaries. -/
structure CommentOptionsOperation where
  author : AccountName
  permlink : String
  maxAcceptedPayout : Asset
  percentGamebankDollars : Nat
  allowVotes : Bool
  allowCurationRewards : Bool
  extensions : List (List (AccountName × Nat))
deriving DecidableEq

/-- The loop of `comment_payout_beneficiaries::validate`, with the sum and the
account so far. -/
def checkBeneficiaries : Nat → Option AccountName → List (AccountName × Nat) → Except String Unit
  | _, _, [] => .ok ()
  | sum, previous, (account, weight) :: rest => do
      validateAccountName account
      ensure (weight ≤ hundredPercent) "Cannot allocate more than 100% of rewards to one account"
      ensure (((sum + weight : Nat) : Int) ≤ hundredPercent)
        "Cannot allocate more than 100% of rewards to a comment"
      ensure (previous.all fun p => p < account)
        "Benficiaries must be specified in sorted order (account ascending)"
      checkBeneficiaries (sum + weight) (some account) rest

/-- `comment_payout_beneficiaries::validate`. -/
def validateBeneficiaries (beneficiaries : List (AccountName × Nat)) : Except String Unit := do
  ensure (beneficiaries ≠ []) "Must specify at least one beneficiary"
  ensure (beneficiaries.length < 128) "Cannot specify more than 127 beneficiaries."
  checkBeneficiaries 0 none beneficiaries

/-- `comment_options_operation::validate`. -/
def CommentOptionsOperation.validate (o : CommentOptionsOperation) : Except String Unit := do
  validateAccountName o.author
  ensure (o.percentGamebankDollars ≤ hundredPercent) "Percent cannot exceed 100%"
  ensure (o.maxAcceptedPayout.symbol = .gbd) "Max accepted payout must be in GBD"
  ensure (0 ≤ o.maxAcceptedPayout.amount) "Cannot accept less than 0 payout"
  validatePermlink o.permlink
  o.extensions.forM validateBeneficiaries

namespace Database

/-- `comment_options_extension_visitor`. -/
def addBeneficiaries (id : Nat) (s : Database) (beneficiaries : List (AccountName × Nat)) :
    Except String Database := do
  let c ← require (s.comments.find? fun c => c.id = id)
  ensure (c.beneficiaries = []) "Comment already has beneficiaries specified."
  ensure (c.absRshares = 0) "Comment must not have been voted on before specifying beneficiaries."
  ensure (beneficiaries.all fun b => (s.accounts.find? fun a => a.name = b.1).isSome)
    "Beneficiary must exist."
  return { s with
    comments := s.comments.modify (fun c => c.id = id) fun c =>
      { c with beneficiaries := beneficiaries.map fun b => (b.1, (b.2 : Int)) } }

/-- `comment_options_evaluator`. -/
def commentOptions (s : Database) (o : CommentOptionsOperation) : Except String Database := do
  let c ← Comments.getComment s.comments o.author o.permlink
  ensure ((o.allowCurationRewards && o.allowVotes &&
      c.maxAcceptedPayout ≤ o.maxAcceptedPayout.amount) || c.absRshares = 0)
    "One of the included comment options requires the comment to have no rshares allocated to it."
  ensure (c.allowCurationRewards || !o.allowCurationRewards)
    "Curation rewards cannot be re-enabled."
  ensure (c.allowVotes || !o.allowVotes) "Voting cannot be re-enabled."
  ensure (o.maxAcceptedPayout.amount ≤ c.maxAcceptedPayout)
    "A comment cannot accept a greater payout."
  ensure (o.percentGamebankDollars ≤ c.percentGamebankDollars)
    "A comment cannot accept a greater percent GBD."
  let s := { s with
    comments := s.comments.modify (fun d => d.id = c.id) fun d =>
      { d with
        maxAcceptedPayout := o.maxAcceptedPayout.amount
        percentGamebankDollars := o.percentGamebankDollars
        allowVotes := o.allowVotes
        allowCurationRewards := o.allowCurationRewards } }
  o.extensions.foldlM (addBeneficiaries c.id) s

/-- `get_reward_fund`. -/
def getRewardFund (s : Database) : Except String RewardFund :=
  require (s.rewardFunds.find? fun f => f.name = postRewardFundName)

/-- `modify` of a comment: what a `share_type` holds must fit. -/
def modifyComment (s : Database) (id : Nat) (f : Comment → Comment) : Except String Database := do
  let c ← require (s.comments.find? fun c => c.id = id)
  ensure ([(f c).netRshares, (f c).absRshares, (f c).voteRshares, (f c).childrenAbsRshares,
    (f c).totalPayoutValue, (f c).curatorPayoutValue, (f c).beneficiaryPayoutValue,
    (f c).authorRewards].all fitsInt64) "overflow"
  return { s with comments := s.comments.modify (fun c => c.id = id) f }

end Database

/-! ## Votes -/

/-- `GAMEBANK_MIN_VOTE_INTERVAL_SEC`. -/
def minVoteInterval : Int := 3

/-- `GAMEBANK_VOTE_REGENERATION_SECONDS`. -/
def voteRegenerationSeconds : Int := 432000

/-- `GAMEBANK_VOTE_DUST_THRESHOLD`. -/
def voteDustThreshold : Int := 50000000

/-- `GAMEBANK_UPVOTE_LOCKOUT_TIME`. -/
def upvoteLockoutTime : Int := 43200

/-- `GAMEBANK_REVERSE_AUCTION_WINDOW_SECONDS`. -/
def reverseAuctionWindow : Int := 1800

/-- `GAMEBANK_MAX_VOTE_CHANGES`. -/
def maxVoteChanges : Int := 5

/-- `vote_operation`. -/
structure VoteOperation where
  voter : AccountName
  author : AccountName
  permlink : String
  weight : Int
deriving DecidableEq

/-- `vote_operation::validate`. -/
def VoteOperation.validate (o : VoteOperation) : Except String Unit := do
  validateAccountName o.voter
  validateAccountName o.author
  ensure (o.weight.natAbs ≤ hundredPercent) "Weight is not a GAMEBANK percentage"
  validatePermlink o.permlink

/-- What a vote is worth and what it costs. -/
structure VotePower where
  current : Int
  used : Int
  absRshares : Int

/-- How `net_votes` moves when a vote changes. -/
def votesMoved (old new : Int) : Int :=
  if 0 < new ∧ old < 0 then 2
  else if 0 < new ∧ old = 0 then 1
  else if new = 0 ∧ old < 0 then 1
  else if new = 0 ∧ 0 < old then -1
  else if new < 0 ∧ old = 0 then -1
  else if new < 0 ∧ 0 < old then -2
  else 0

namespace Database

/-- The first part of `vote_evaluator`: the power of the voter. -/
def votePower (s : Database) (voter : Account) (weight : Int) : Except String VotePower := do
  let elapsed : Int := (s.headBlockTime : Int) - voter.lastVoteTime
  ensure (minVoteInterval ≤ elapsed) "Can only vote once every 3 seconds."
  let regenerated := hundredPercent * elapsed / voteRegenerationSeconds
  let current := min (voter.votingPower + regenerated) hundredPercent
  ensure (0 < current) "Account currently does not have voting power."
  let denominator := s.props.votePowerReserveRate * voteRegenerationSeconds
  ensure (0 < denominator) "max_vote_denom > 0"
  let used := (current * weight.natAbs / hundredPercent * 86400 + denominator - 1) / denominator
  ensure (used ≤ current) "Account does not have enough power to vote."
  let effective := voter.vestingShares - voter.delegatedVestingShares + voter.receivedVestingShares
  let shares ← checkedUInt64 (toUInt128 (toUInt128 effective * used) / hundredPercent)
  if s.hardfork01 then
    return ⟨current, used, max 0 (toInt64 shares - voteDustThreshold)⟩
  else
    ensure (voteDustThreshold < toInt64 shares || weight = 0)
      "Voting weight is too small, please accumulate more voting power or gamebank power."
    return ⟨current, used, toInt64 shares⟩

/-- The weight a new vote adds to the total of the comment, `c` being the
comment before the vote. -/
def maxVoteWeight (s : Database) (c : Comment) (rshares : Int) : Except String Int := do
  if 0 < rshares ∧ c.lastPayout = 0 ∧ c.allowCurationRewards then
    let fund ← s.getRewardFund
    if 0 < fund.percentCurationRewards then
      let oldWeight ← checkedUInt64
        (evaluateRewardCurve c.voteRshares fund.curationRewardCurve fund.contentConstant)
      let newWeight ← checkedUInt64
        (evaluateRewardCurve (c.voteRshares + rshares) fund.curationRewardCurve
          fund.contentConstant)
      return toUInt64 (newWeight - oldWeight)
    else return 0
  else return 0

/-- A vote counts less in the first minutes. -/
def discountWeight (weight : Int) (now created : Nat) : Int :=
  weight * min (toUInt64 ((now : Int) - created)) reverseAuctionWindow / reverseAuctionWindow

/-- `vote_evaluator`, for the first vote of the voter on the comment. -/
def castVote (s : Database) (c : Comment) (o : VoteOperation) (power : VotePower) :
    Except String Database := do
  ensure (o.weight ≠ 0) "Vote weight cannot be 0."
  let rshares := if o.weight < 0 then -power.absRshares else power.absRshares
  let now := s.headBlockTime
  ensure (!(decide (0 < rshares)) || (now : Int) < c.cashoutTime - upvoteLockoutTime)
    "Cannot increase payout within last twelve hours before payout."
  let s ← s.modifyAccount o.voter fun a =>
    { a with votingPower := power.current - power.used, lastVoteTime := now }
  ensure (0 < power.absRshares) "Cannot vote with 0 rshares."
  let s ← s.modifyComment c.id fun d =>
    { d with
      netRshares := d.netRshares + rshares
      absRshares := d.absRshares + power.absRshares
      voteRshares := if 0 < rshares then d.voteRshares + rshares else d.voteRshares
      netVotes := if 0 < rshares then d.netVotes + 1 else d.netVotes - 1 }
  let s ← s.modifyComment c.rootComment fun d =>
    { d with childrenAbsRshares := d.childrenAbsRshares + power.absRshares }
  let maxWeight ← s.maxVoteWeight c rshares
  let cast : CommentVote :=
    { voter := o.voter
      comment := c.id
      weight := discountWeight maxWeight now c.created
      rshares := rshares
      votePercent := o.weight
      lastUpdate := now
      numChanges := 0 }
  let s := { s with commentVotes := s.commentVotes ++ [cast] }
  s.modifyComment c.id fun d =>
    { d with totalVoteWeight := toUInt64 (d.totalVoteWeight + maxWeight) }

/-- `vote_evaluator`, for a vote that is changed. -/
def changeVote (s : Database) (c : Comment) (v : CommentVote) (o : VoteOperation)
    (power : VotePower) : Except String Database := do
  ensure (v.numChanges < maxVoteChanges)
    "Voter has used the maximum number of vote changes on this comment."
  ensure (v.votePercent ≠ o.weight) "You have already voted in a similar way."
  let rshares := if o.weight < 0 then -power.absRshares else power.absRshares
  let now := s.headBlockTime
  ensure (!(decide (v.rshares < rshares)) || (now : Int) < c.cashoutTime - upvoteLockoutTime)
    "Cannot increase payout within last twelve hours before payout."
  let s ← s.modifyAccount o.voter fun a =>
    { a with votingPower := power.current - power.used, lastVoteTime := now }
  let s ← s.modifyComment c.id fun d =>
    { d with
      netRshares := d.netRshares - v.rshares + rshares
      absRshares := d.absRshares + power.absRshares
      netVotes := d.netVotes + votesMoved v.rshares rshares }
  let s ← s.modifyComment c.rootComment fun d =>
    { d with childrenAbsRshares := d.childrenAbsRshares + power.absRshares }
  let s ← s.modifyComment c.id fun d =>
    { d with totalVoteWeight := toUInt64 (d.totalVoteWeight - v.weight) }
  return { s with
    commentVotes := modifyFirst (fun w => w.comment = c.id && w.voter = o.voter)
      (fun w =>
        { w with
          rshares := rshares
          votePercent := o.weight
          lastUpdate := now
          weight := 0
          numChanges := w.numChanges + 1 })
      s.commentVotes }

/-- `vote_evaluator`. On a comment that has been paid nothing is done. -/
def vote (s : Database) (o : VoteOperation) : Except String Database := do
  let c ← Comments.getComment s.comments o.author o.permlink
  let voter ← s.getAccount o.voter
  ensure voter.canVote "Voter has declined their voting rights."
  ensure (!(decide (0 < o.weight)) || c.allowVotes) "Votes are not allowed on the comment."
  if c.cashoutTime = maximumTime then return s
  else
    let power ← s.votePower voter o.weight
    match s.commentVotes.find? fun v => v.comment = c.id && v.voter = o.voter with
    | none => s.castVote c o power
    | some v =>
        ensure (v.numChanges ≠ -1) "Cannot vote again on a comment after payout."
        s.changeVote c v o power

end Database

/-! ## Payouts -/

/-- `util::to_gbd`. -/
def toGbd (p : Price) (amount : Int) : Except String Asset :=
  if p.isNull then .ok (.gbd 0) else (Asset.gbc amount).times p

/-- `util::to_gbc`. -/
def toGbc (p : Price) (amount : Int) : Except String Asset :=
  if p.isNull then .ok (.gbc 0) else (Asset.gbd amount).times p

/-- `GAMEBANK_MIN_PAYOUT_GBD`. -/
def minPayoutGbd : Int := 20

/-- `is_comment_payout_dust`. -/
def isCommentPayoutDust (p : Price) (payout : Int) : Except String Bool := do
  let worth ← toGbd p payout
  ensure (worth.symbol = .gbd) "a.symbol == b.symbol"
  return worth.amount < minPayoutGbd

/-- The value of an integer as a `u256`. -/
def toUInt256 (n : Int) : Int :=
  n % 115792089237316195423570985008687907853269984665640564039457584007913129639936

/-- `reward_fund_context`. -/
structure RewardFundContext where
  recentClaims : Int
  rewardBalance : Int
  gbcAwarded : Int
deriving DecidableEq

/-- `get_rshare_reward` of a comment. -/
def getRshareReward (ctx : RewardFundContext) (price : Price) (fund : RewardFund) (c : Comment) :
    Except String Int := do
  ensure (0 < c.netRshares) "ctx.rshares > 0"
  ensure (0 < ctx.recentClaims) "ctx.total_reward_shares2 > 0"
  let claim := evaluateRewardCurve c.netRshares fund.authorRewardCurve fund.contentConstant *
    c.rewardWeight / hundredPercent
  let payout := toUInt256 (toUInt256 ctx.rewardBalance * claim) / ctx.recentClaims
  ensure (payout ≤ 9223372036854775807)
    "payout_u256 <= u256( uint64_t( std::numeric_limits<int64_t>::max() ) )"
  if price.isNull then return payout
  else
    let dust ← isCommentPayoutDust price payout
    let maxGbc ← toGbc price c.maxAcceptedPayout
    return min (if dust then 0 else payout) (toUInt64 maxGbc.amount)

namespace Database

/-- The accounts are in the order of their ids. -/
def voterRank (s : Database) (v : CommentVote) : Nat :=
  s.accounts.rows.findIdx fun a => a.name = v.voter

/-- The votes of a comment, as `pay_curators` sorts them. -/
def curators (s : Database) (c : Comment) : List CommentVote :=
  (s.commentVotes.filter fun v => v.comment = c.id).insertionSort fun v w =>
    w.weight < v.weight ∨ (w.weight = v.weight ∧ s.voterRank v ≤ s.voterRank w)

/-- One turn of the loop of `pay_curators`. -/
def payCurator (maxRewards totalWeight : Int) (acc : Database × Int) (v : CommentVote) :
    Except String (Database × Int) := do
  let (s, unclaimed) := acc
  let claim ← checkedUInt64 (toUInt128 (maxRewards * v.weight) / totalWeight)
  if 0 < claim then
    let s ← s.createRewardVesting v.voter (.gbc (toInt64 claim))
    let s ← s.modifyAccount v.voter fun a =>
      { a with curationRewards := a.curationRewards + toInt64 claim }
    return (s, unclaimed - toInt64 claim)
  else return (s, unclaimed)

/-- `pay_curators`: the state, the unclaimed rewards, and what is left of
`max_rewards`. -/
def payCurators (s : Database) (c : Comment) (maxRewards : Int) :
    Except String (Database × Int × Int) := do
  if !c.allowCurationRewards then return (s, 0, 0)
  else if 0 < c.totalVoteWeight then
    let (s, unclaimed) ← (s.curators c).foldlM (payCurator maxRewards c.totalVoteWeight)
      (s, maxRewards)
    return (s, unclaimed, maxRewards - unclaimed)
  else return (s, maxRewards, 0)

/-- One turn of the loop over the beneficiaries. -/
def payBeneficiary (authorTokens : Int) (acc : Database × Int) (b : AccountName × Int) :
    Except String (Database × Int) := do
  let (s, total) := acc
  ensure (fitsInt64 (authorTokens * b.2)) "overflow"
  let tokens := (authorTokens * b.2).tdiv hundredPercent
  let s ← s.createRewardVesting b.1 (.gbc tokens)
  return (s, total + tokens)

/-- The reward of a comment is paid out. The result is what was paid. -/
def payReward (s : Database) (c : Comment) (reward : Int) (forwardCurationRemainder : Bool) :
    Except String (Database × Int) := do
  let fund ← s.getRewardFund
  let curationTokens ← checkedUInt64
    (toUInt128 (reward * fund.percentCurationRewards) / hundredPercent)
  let authorTokens := reward - curationTokens
  let (s, curationRemainder, curationTokens) ← s.payCurators c curationTokens
  let authorTokens :=
    if forwardCurationRemainder then authorTokens + curationRemainder else authorTokens
  let claimedReward := authorTokens + curationTokens
  let (s, totalBeneficiary) ← c.beneficiaries.foldlM (payBeneficiary authorTokens) (s, 0)
  let authorTokens := authorTokens - totalBeneficiary
  ensure (fitsInt64 (authorTokens * hundredPercent)) "overflow"
  let gbcToAuthor := (authorTokens * hundredPercent).tdiv (2 * hundredPercent)
  let s ← s.createRewardVesting c.author (.gbc (authorTokens - gbcToAuthor))
  let s ← s.adjustBalance c.author (.gbc gbcToAuthor)
  -- `adjust_total_payout`
  let s ← s.modifyComment c.id fun d =>
    { d with
      totalPayoutValue := d.totalPayoutValue + gbcToAuthor
      curatorPayoutValue := d.curatorPayoutValue + curationTokens
      beneficiaryPayoutValue := d.beneficiaryPayoutValue + totalBeneficiary }
  let s ← s.modifyComment c.id fun d => { d with authorRewards := d.authorRewards + authorTokens }
  let s ← s.modifyAccount c.author fun a =>
    { a with postingRewards := a.postingRewards + authorTokens }
  return (s, claimedReward)

/-- What becomes of a comment that has been cashed out. -/
def cashedOut (now : Nat) (c : Comment) : Comment :=
  { c with
    netRshares := if 0 < c.netRshares then 0 else c.netRshares
    childrenAbsRshares := 0
    absRshares := 0
    voteRshares := 0
    totalVoteWeight := 0
    maxCashoutTime := maximumTime
    cashoutTime := maximumTime
    lastPayout := now }

/-- The first part of `cashout_comment_helper`: the reward, if there is one. -/
def payComment (s : Database) (ctx : RewardFundContext) (c : Comment)
    (forwardCurationRemainder : Bool) : Except String (Database × Int) := do
  if 0 < c.netRshares then
    let fund ← s.getRewardFund
    let reward ← getRshareReward ctx s.currentMedianHistory fund c
    if 0 < reward then s.payReward c reward forwardCurationRemainder else return (s, 0)
  else return (s, 0)

/-- `cashout_comment_helper`. -/
def cashoutCommentHelper (s : Database) (ctx : RewardFundContext) (c : Comment)
    (forwardCurationRemainder : Bool) : Except String (Database × Int) := do
  let (s, claimedReward) ← s.payComment ctx c forwardCurationRemainder
  let s ← s.modifyComment c.id (cashedOut s.headBlockTime)
  return ({ s with commentVotes := s.commentVotes.filter fun v => v.comment ≠ c.id }, claimedReward)

/-! ## The routine of a block -/

/-- The order of `by_cashout_time`. -/
def cashesOutBefore (a b : Comment) : Bool :=
  a.cashoutTime < b.cashoutTime ∨ (a.cashoutTime = b.cashoutTime ∧ a.id < b.id)

/-- The first comment, if it is due. -/
def dueComment (s : Database) : Option Comment :=
  (s.comments.first cashesOutBefore).filter fun c => c.cashoutTime ≤ s.headBlockTime

/-- `GAMEBANK_RECENT_RSHARES_DECAY_TIME`. -/
def recentRsharesDecayTime : Int := 1296000

/-- The recent claims of a fund decay. -/
def decay (now : Nat) (f : RewardFund) : RewardFund :=
  { f with
    recentClaims := toUInt128 (f.recentClaims -
      toUInt128 (f.recentClaims * ((now : Int) - f.lastUpdate)) / recentRsharesDecayTime)
    lastUpdate := now }

def RewardFundContext.of (f : RewardFund) : RewardFundContext :=
    ⟨f.recentClaims, f.rewardBalance, 0⟩

/-- One turn of the second loop: the claim of a comment that is due. The order
of the comments does not matter. -/
def addClaim (s : Database) (funds : List RewardFundContext) (c : Comment) :
    Except String (List RewardFundContext) := do
  if 0 < c.netRshares then
    let fund ← s.getRewardFund
    return funds.modify fund.id fun ctx =>
      { ctx with
        recentClaims := toUInt128 (ctx.recentClaims +
          evaluateRewardCurve c.netRshares fund.authorRewardCurve fund.contentConstant) }
  else return funds

/-- The loop that pays the comments that are due, first to last. -/
def cashoutComments : Nat → Database → List RewardFundContext →
    Except String (Database × List RewardFundContext)
  | fuel, s, funds =>
      match s.dueComment with
      | none => .ok (s, funds)
      | some c =>
          match fuel with
          | 0 => .error "out of fuel"
          | fuel + 1 => do
              let fund ← s.getRewardFund
              let ctx ← require funds[fund.id]?
              let (s, claimed) ← s.cashoutCommentHelper ctx c (!s.hardfork01)
              cashoutComments fuel s
                (funds.modify fund.id fun ctx =>
                  { ctx with gbcAwarded := ctx.gbcAwarded + claimed })

/-- The state of a fund is written back. -/
def writeBack (funds : List RewardFundContext) (f : RewardFund) : Except String RewardFund := do
  let ctx ← require funds[f.id]?
  ensure (fitsInt64 (f.rewardBalance - ctx.gbcAwarded)) "overflow"
  return { f with
    recentClaims := ctx.recentClaims
    rewardBalance := f.rewardBalance - ctx.gbcAwarded }

/-- The first loop of `process_comment_cashout`. -/
def decayFunds (s : Database) : Database :=
  { s with
    rewardFunds := { s.rewardFunds with rows := s.rewardFunds.rows.map (decay s.headBlockTime) } }

/-- The other loops. A comment that was paid is not due any more, so there are
no more turns than comments. -/
def cashoutDue (s : Database) : Except String Database := do
  let due := s.comments.rows.filter fun c => c.cashoutTime ≤ s.headBlockTime
  let funds ← due.foldlM s.addClaim (s.rewardFunds.rows.map RewardFundContext.of)
  let (s, funds) ← s.cashoutComments s.comments.rows.length funds
  let rows ← s.rewardFunds.rows.mapM (writeBack funds)
  return { s with rewardFunds := { s.rewardFunds with rows := rows } }

/-- `process_comment_cashout`. -/
def processCommentCashout (s : Database) : Except String Database := s.decayFunds.cashoutDue

/-! ## Inflation -/

/-- `pay_reward_funds`: every fund gets its share. The result is what was used. -/
def payRewardFunds (s : Database) (reward : Int) : Except String (Database × Int) := do
  let (rows, used) ← s.rewardFunds.rows.foldlM
    (fun (acc : List RewardFund × Int) f => do
      ensure (fitsInt64 (reward * f.percentContentRewards)) "overflow"
      let r := (reward * f.percentContentRewards).tdiv hundredPercent
      ensure (fitsInt64 (f.rewardBalance + r)) "overflow"
      ensure (acc.2 + r ≤ reward) "used_rewards <= reward"
      return (acc.1 ++ [{ f with rewardBalance := f.rewardBalance + r }], acc.2 + r))
    (([] : List RewardFund), (0 : Int))
  return ({ s with rewardFunds := { s.rewardFunds with rows := rows } }, used)

/-- `GAMEBANK_BLOCKS_PER_YEAR`. -/
def blocksPerYear : Int := 10512000

/-- `GAMEBANK_CONTENT_REWARD_PERCENT`. -/
def contentRewardPercent : Int := 7500

/-- `GAMEBANK_VESTING_FUND_PERCENT`. -/
def vestingFundPercent : Int := 1500

/-- The inflation of a year: 9.78%, and 0.01% less every 250000 blocks until it is 0.95%. -/
def inflationRate (blockNum : Nat) : Int := max (978 - blockNum / 250000) 95

/-- How often a witness of a kind is paid. -/
def payWeight (schedule : WitnessSchedule) : WitnessScheduleType → Nat
  | .timeshare => schedule.timeshareWeight
  | .miner => schedule.minerWeight
  | .top19 => schedule.top19Weight
  | .none => 1

/-- `process_funds`. -/
def processFunds (s : Database) : Except String Database := do
  let rate := inflationRate s.props.headBlockNumber
  ensure (fitsInt64 (s.props.virtualSupply * rate)) "overflow"
  let newGbc := (s.props.virtualSupply * rate).tdiv (hundredPercent * blocksPerYear)
  ensure (fitsInt64 (newGbc * contentRewardPercent)) "overflow"
  let (s, contentReward) ← s.payRewardFunds ((newGbc * contentRewardPercent).tdiv hundredPercent)
  let vestingReward := (newGbc * vestingFundPercent).tdiv hundredPercent
  let cwit ← s.getWitness s.props.currentWitness
  let weighted := (newGbc - contentReward - vestingReward) * maxWitnesses *
    payWeight s.schedule cwit.schedule
  ensure (fitsInt64 weighted) "overflow"
  ensure (s.schedule.witnessPayNormalizationFactor ≠ 0) "division by zero"
  let witnessReward := weighted.tdiv s.schedule.witnessPayNormalizationFactor
  let s ← s.modifyProps fun p =>
    { p with
      totalVestingFundGbc := p.totalVestingFundGbc + vestingReward
      currentSupply := p.currentSupply + (contentReward + vestingReward + witnessReward)
      virtualSupply := p.virtualSupply + (contentReward + vestingReward + witnessReward) }
  s.createVesting cwit.owner (.gbc witnessReward)

end Database

end Gamebank.Ledger
