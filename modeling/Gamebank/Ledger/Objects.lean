import Gamebank.Lib.Table
import Gamebank.Protocol.Asset

/-!
# The objects of the ledger

`account_object.hpp`, `gamebank_objects.hpp`, `global_property_object.hpp`,
`witness_objects.hpp`, `comment_object.hpp` and `contract_object.hpp`, with
the fields that the functions of the ledger read or write. An amount whose
symbol never changes is an integer. Times are seconds; a reference to an
object is its key, and a function that keeps a reference reads the object
again. `from` and `to` are Lean words, so they are `sender` and `recipient`.
-/

namespace Gamebank.Ledger

open Gamebank.Lib Gamebank.Protocol

/-- `account_name_type`. -/
abbrev AccountName := String

/-- `time_point_sec::maximum`. -/
def maximumTime : Nat := 4294967295

/-- `GAMEBANK_100_PERCENT`. -/
def hundredPercent : Int := 10000

/-- `GAMEBANK_NULL_ACCOUNT`. -/
def nullAccount : AccountName := "null"

/-- `GAMEBANK_INIT_MINER_NAME`. -/
def initMinerName : AccountName := "initminer"

/-- `GAMEBANK_PROXY_TO_SELF_ACCOUNT`. -/
def proxyToSelfAccount : AccountName := ""

/-- The range of `int64_t`. A `share_type` that leaves it throws; the check is
made when the object is written. -/
def fitsInt64 (n : Int) : Bool := -9223372036854775808 ≤ n ∧ n < 9223372036854775808

/-- `account_object`. -/
structure Account where
  name : AccountName
  proxy : AccountName
  created : Nat
  lastVoteTime : Nat
  mined : Bool
  recoveryAccount : AccountName
  canVote : Bool
  votingPower : Int
  balance : Int
  savingsBalance : Int
  gbdBalance : Int
  gbdSeconds : Int
  gbdSecondsLastUpdate : Nat
  gbdLastInterestPayment : Nat
  savingsGbdBalance : Int
  savingsGbdSeconds : Int
  savingsGbdSecondsLastUpdate : Nat
  savingsGbdLastInterestPayment : Nat
  savingsWithdrawRequests : Nat
  rewardGbdBalance : Int
  rewardGbcBalance : Int
  rewardVestingBalance : Int
  rewardVestingGbc : Int
  curationRewards : Int
  postingRewards : Int
  vestingShares : Int
  delegatedVestingShares : Int
  receivedVestingShares : Int
  vestingWithdrawRate : Int
  nextVestingWithdrawal : Nat
  withdrawn : Int
  toWithdraw : Int
  withdrawRoutes : Nat
  proxiedVsfVotes : Vector Int 4
  witnessesVotedFor : Nat
  pendingClaimedAccounts : Int
  lastPost : Nat
  lastRootPost : Nat
  postCount : Nat
deriving DecidableEq

namespace Account

/-- A new object. -/
def make (name : AccountName) : Account where
  name := name
  proxy := proxyToSelfAccount
  created := 0
  lastVoteTime := 0
  mined := true
  recoveryAccount := ""
  canVote := true
  votingPower := hundredPercent
  balance := 0
  savingsBalance := 0
  gbdBalance := 0
  gbdSeconds := 0
  gbdSecondsLastUpdate := 0
  gbdLastInterestPayment := 0
  savingsGbdBalance := 0
  savingsGbdSeconds := 0
  savingsGbdSecondsLastUpdate := 0
  savingsGbdLastInterestPayment := 0
  savingsWithdrawRequests := 0
  rewardGbdBalance := 0
  rewardGbcBalance := 0
  rewardVestingBalance := 0
  rewardVestingGbc := 0
  curationRewards := 0
  postingRewards := 0
  vestingShares := 0
  delegatedVestingShares := 0
  receivedVestingShares := 0
  vestingWithdrawRate := 0
  nextVestingWithdrawal := maximumTime
  withdrawn := 0
  toWithdraw := 0
  withdrawRoutes := 0
  proxiedVsfVotes := #v[0, 0, 0, 0]
  witnessesVotedFor := 0
  pendingClaimedAccounts := 0
  lastPost := 0
  lastRootPost := 0
  postCount := 0

/-- Every `share_type` of the object is in range. -/
def fits (a : Account) : Bool :=
  [a.balance, a.savingsBalance, a.gbdBalance, a.savingsGbdBalance, a.rewardGbdBalance,
    a.rewardGbcBalance, a.rewardVestingBalance, a.rewardVestingGbc, a.curationRewards,
    a.postingRewards, a.vestingShares, a.delegatedVestingShares, a.receivedVestingShares,
    a.vestingWithdrawRate, a.withdrawn, a.toWithdraw, a.pendingClaimedAccounts].all fitsInt64
  && a.proxiedVsfVotes.all fitsInt64

/-- `witness_vote_weight`. -/
def witnessVoteWeight (a : Account) : Int :=
  a.vestingShares + (a.proxiedVsfVotes[0] + a.proxiedVsfVotes[1] + a.proxiedVsfVotes[2]
    + a.proxiedVsfVotes[3])

end Account

/-- `dynamic_global_property_object`. -/
structure GlobalProperties where
  headBlockNumber : Nat
  time : Nat
  currentWitness : AccountName
  virtualSupply : Int
  currentSupply : Int
  currentGbdSupply : Int
  totalVestingFundGbc : Int
  totalVestingShares : Int
  totalRewardFundGbc : Int
  pendingRewardedVestingShares : Int
  pendingRewardedVestingGbc : Int
  gbdInterestRate : Int
  gbdPrintRate : Int
  votePowerReserveRate : Nat
  delegationReturnPeriod : Nat
  maximumBlockSize : Nat
  numPowWitnesses : Nat
deriving DecidableEq

namespace GlobalProperties

def fits (p : GlobalProperties) : Bool :=
  [p.virtualSupply, p.currentSupply, p.currentGbdSupply, p.totalVestingFundGbc,
    p.totalVestingShares, p.pendingRewardedVestingShares, p.pendingRewardedVestingGbc].all fitsInt64

/-- `get_vesting_share_price`. -/
def getVestingSharePrice (p : GlobalProperties) : Except String Price :=
  if p.totalVestingFundGbc = 0 ∨ p.totalVestingShares = 0 then Price.make (.gbc 1000) (.gbs 1000000)
  else Price.make (.gbs p.totalVestingShares) (.gbc p.totalVestingFundGbc)

/-- `get_reward_vesting_share_price`. -/
def getRewardVestingSharePrice (p : GlobalProperties) : Except String Price :=
  Price.make (.gbs (p.totalVestingShares + p.pendingRewardedVestingShares))
    (.gbc (p.totalVestingFundGbc + p.pendingRewardedVestingGbc))

end GlobalProperties

/-- `witness_schedule_type`. -/
inductive WitnessScheduleType where
  | top19
  | timeshare
  | miner
  | none
deriving DecidableEq

/-- `GAMEBANK_MIN_ACCOUNT_CREATION_FEE`, on the live network. -/
def minAccountCreationFee : Int := 1

/-- `GAMEBANK_MIN_BLOCK_SIZE_LIMIT`. -/
def minBlockSizeLimit : Nat := 65536

/-- `chain_properties`, which a witness proposes. -/
structure ChainProperties where
  accountCreationFee : Int
  maximumBlockSize : Nat
  gbdInterestRate : Nat
  accountSubsidyLimit : Nat
deriving DecidableEq

/-- The default. -/
def ChainProperties.initial : ChainProperties :=
  ⟨minAccountCreationFee, minBlockSizeLimit * 2, 1000, 0⟩

/-- `witness_object`. The key `public_key_type()`, of a witness that produces
no blocks, is `none`. -/
structure Witness where
  id : Nat
  owner : AccountName
  created : Nat
  totalMissed : Nat
  lastConfirmedBlockNum : Nat
  powWorker : Nat
  signingKey : Option Nat
  props : ChainProperties
  votes : Int
  schedule : WitnessScheduleType
  virtualLastUpdate : Int
  virtualPosition : Int
  virtualScheduledTime : Int
  runningVersion : Nat
  hardforkVersionVote : Nat
  hardforkTimeVote : Nat
deriving DecidableEq

/-- `fc::uint128::max_value`, also `GAMEBANK_VIRTUAL_SCHEDULE_LAP_LENGTH2`. -/
def maxUInt128 : Int := 340282366920938463463374607431768211455

/-- `GAMEBANK_GENESIS_TIME`. -/
def genesisTime : Nat := 1458835200

/-- A new object. -/
def Witness.make (id : Nat) (owner : AccountName) : Witness where
  id := id
  owner := owner
  created := 0
  totalMissed := 0
  lastConfirmedBlockNum := 0
  powWorker := 0
  signingKey := none
  props := .initial
  votes := 0
  schedule := .none
  virtualLastUpdate := 0
  virtualPosition := 0
  virtualScheduledTime := maxUInt128
  runningVersion := 0
  hardforkVersionVote := 0
  hardforkTimeVote := genesisTime

/-- `witness_vote_object`. -/
structure WitnessVote where
  witness : AccountName
  account : AccountName
deriving DecidableEq

/-- `witness_schedule_object`. -/
structure WitnessSchedule where
  currentVirtualTime : Int
  nextShuffleBlockNum : Nat
  currentShuffledWitnesses : Vector AccountName 21
  numScheduledWitnesses : Nat
  top19Weight : Nat
  timeshareWeight : Nat
  minerWeight : Nat
  witnessPayNormalizationFactor : Nat
  medianProps : ChainProperties
  majorityVersion : Nat
  maxVotedWitnesses : Nat
  maxMinerWitnesses : Nat
  hardforkRequiredWitnesses : Nat
deriving DecidableEq

/-- The new object of `init_genesis`. -/
def WitnessSchedule.initial : WitnessSchedule where
  currentVirtualTime := 0
  nextShuffleBlockNum := 1
  currentShuffledWitnesses := (Vector.replicate 21 "").set 0 initMinerName
  numScheduledWitnesses := 1
  top19Weight := 1
  timeshareWeight := 5
  minerWeight := 1
  witnessPayNormalizationFactor := 25
  medianProps := .initial
  majorityVersion := 0
  maxVotedWitnesses := 20
  maxMinerWitnesses := 0
  hardforkRequiredWitnesses := 17

/-- `hardfork_property_object`. -/
structure HardforkProperties where
  currentHardforkVersion : Nat
  nextHardfork : Nat
  nextHardforkTime : Nat
deriving DecidableEq

/-- `limit_order_object`. -/
structure LimitOrder where
  id : Nat
  created : Nat
  expiration : Nat
  seller : AccountName
  orderid : Nat
  forSale : Int
  sellPrice : Price
deriving DecidableEq

/-- `amount_for_sale`. -/
def LimitOrder.amountForSale (o : LimitOrder) : Asset := ⟨o.forSale, o.sellPrice.base.symbol⟩

/-- `amount_to_receive`. -/
def LimitOrder.amountToReceive (o : LimitOrder) : Except String Asset :=
  o.amountForSale.times o.sellPrice

/-- `escrow_object`. -/
structure Escrow where
  id : Nat
  escrowId : Nat
  sender : AccountName
  recipient : AccountName
  agent : AccountName
  ratificationDeadline : Nat
  escrowExpiration : Nat
  gbdBalance : Int
  gbcBalance : Int
  pendingFee : Asset
  toApproved : Bool
  agentApproved : Bool
  disputed : Bool
deriving DecidableEq

/-- `is_approved`. -/
def Escrow.isApproved (e : Escrow) : Bool := e.toApproved && e.agentApproved

/-- `savings_withdraw_object`. -/
structure SavingsWithdraw where
  id : Nat
  sender : AccountName
  recipient : AccountName
  requestId : Nat
  amount : Asset
  complete : Nat
deriving DecidableEq

/-- `convert_request_object`. -/
structure ConvertRequest where
  id : Nat
  owner : AccountName
  requestid : Nat
  amount : Asset
  conversionDate : Nat
deriving DecidableEq

/-- `withdraw_vesting_route_object`. -/
structure WithdrawVestingRoute where
  fromAccount : AccountName
  toAccount : AccountName
  percent : Int
  autoVest : Bool
deriving DecidableEq

/-- `curve_id`. -/
inductive CurveId where
  | quadratic
  | quadraticCuration
  | linear
  | squareRoot
deriving DecidableEq

/-- `reward_fund_object`. -/
structure RewardFund where
  id : Nat
  name : String
  rewardBalance : Int
  recentClaims : Int
  lastUpdate : Nat
  contentConstant : Int
  percentCurationRewards : Int
  percentContentRewards : Int
  authorRewardCurve : CurveId
  curationRewardCurve : CurveId
deriving DecidableEq

/-- `GAMEBANK_POST_REWARD_FUND_NAME`. -/
def postRewardFundName : String := "post"

/-- The reward fund that `apply_pre_genesis_patches` creates on the live
network. -/
def RewardFund.post (id now : Nat) (rewardBalance : Int) : RewardFund where
  id := id
  name := postRewardFundName
  rewardBalance := rewardBalance
  recentClaims := 140797515942543623
  lastUpdate := now
  contentConstant := 2000000000000
  percentCurationRewards := 2500
  percentContentRewards := hundredPercent
  authorRewardCurve := .linear
  curationRewardCurve := .squareRoot

/-- `contract_object`; its version is never set. -/
structure Contract where
  name : AccountName
  creator : AccountName
  code : String
  abi : String
  balance : Int
  lastUpdate : Nat
  created : Nat
deriving DecidableEq

/-- `contract_user_object`. -/
structure ContractUser where
  contractName : AccountName
  userName : AccountName
  data : String
  lastUpdate : Nat
  created : Nat
deriving DecidableEq

/-- `vesting_delegation_object`. -/
structure VestingDelegation where
  id : Nat
  delegator : AccountName
  delegatee : AccountName
  vestingShares : Int
  minDelegationTime : Nat
deriving DecidableEq

/-- `vesting_delegation_expiration_object`. -/
structure VestingDelegationExpiration where
  id : Nat
  delegator : AccountName
  vestingShares : Int
  expiration : Nat
deriving DecidableEq

/-- `decline_voting_rights_request_object`. -/
structure DeclineVotingRightsRequest where
  account : AccountName
  effectiveDate : Nat
deriving DecidableEq

/-- `comment_object`; its text is in other objects. -/
structure Comment where
  id : Nat
  category : String
  parentAuthor : AccountName
  parentPermlink : String
  author : AccountName
  permlink : String
  lastUpdate : Nat
  created : Nat
  active : Nat
  lastPayout : Nat
  depth : Nat
  children : Nat
  netRshares : Int
  absRshares : Int
  voteRshares : Int
  childrenAbsRshares : Int
  cashoutTime : Nat
  maxCashoutTime : Nat
  totalVoteWeight : Int
  rewardWeight : Int
  totalPayoutValue : Int
  curatorPayoutValue : Int
  beneficiaryPayoutValue : Int
  authorRewards : Int
  netVotes : Int
  rootComment : Nat
  maxAcceptedPayout : Int
  percentGamebankDollars : Int
  allowReplies : Bool
  allowVotes : Bool
  allowCurationRewards : Bool
  beneficiaries : List (AccountName × Int)
deriving DecidableEq

/-- `comment_content_object`. -/
structure CommentContent where
  comment : Nat
  title : String
  body : String
  jsonMetadata : String
deriving DecidableEq

/-- `comment_vote_object`; the voter is referred to by name. -/
structure CommentVote where
  voter : AccountName
  comment : Nat
  weight : Int
  rshares : Int
  votePercent : Int
  lastUpdate : Nat
  numChanges : Int
deriving DecidableEq

/-- `nonfungible_fund_object`. -/
structure NonfungibleFund where
  id : Nat
  creator : AccountName
  owner : AccountName
  metaData : String
  lastUpdate : Nat
  created : Nat
deriving DecidableEq

/-- `nonfungible_fund_on_sale_object`. -/
structure NonfungibleFundOnSale where
  fundId : Nat
  created : Nat
  expiration : Nat
  seller : AccountName
  sellingPrice : Asset
deriving DecidableEq

/-- The object database. `hardfork01` says that hardfork 0_1 has been applied,
`headBlockId` is the last word of the head's id. -/
structure Database where
  props : GlobalProperties
  hardfork01 : Bool
  headBlockId : Nat
  currentMedianHistory : Price
  hardforks : HardforkProperties
  schedule : WitnessSchedule
  accounts : Table Account
  witnesses : Table Witness
  witnessVotes : List WitnessVote
  limitOrders : Table LimitOrder
  escrows : Table Escrow
  savingsWithdraws : Table SavingsWithdraw
  convertRequests : Table ConvertRequest
  withdrawVestingRoutes : Table WithdrawVestingRoute
  rewardFunds : Table RewardFund
  contracts : Table Contract
  contractUsers : Table ContractUser
  vestingDelegations : Table VestingDelegation
  vestingDelegationExpirations : Table VestingDelegationExpiration
  declineVotingRightsRequests : Table DeclineVotingRightsRequest
  comments : Table Comment
  commentContents : Table CommentContent
  commentVotes : List CommentVote
  nonfungibleFunds : Table NonfungibleFund
  nonfungibleFundsOnSale : Table NonfungibleFundOnSale

namespace Database

/-- `head_block_time`. -/
def headBlockTime (s : Database) : Nat := s.props.time

/-- An object that must exist. -/
def require {α : Type} (found : Option α) : Except String α :=
  match found with
  | some a => .ok a
  | none => .error "unknown key"

theorem require_eq_ok {α : Type} {found : Option α} {a : α} :
    require found = .ok a ↔ found = some a := by
  cases found <;> simp [require]

/-- `get_account`. -/
def getAccount (s : Database) (name : AccountName) : Except String Account :=
  require (s.accounts.find? fun a => a.name = name)

/-- `modify` of an account. -/
def modifyAccount (s : Database) (name : AccountName) (f : Account → Account) :
    Except String Database := do
  let a ← s.getAccount name
  ensure (f a).fits "overflow"
  return { s with accounts := s.accounts.modify (fun a => a.name = name) f }

/-- `modify` of the global properties. -/
def modifyProps (s : Database) (f : GlobalProperties → GlobalProperties) :
    Except String Database := do
  ensure (f s.props).fits "overflow"
  return { s with props := f s.props }

end Database

end Gamebank.Ledger
