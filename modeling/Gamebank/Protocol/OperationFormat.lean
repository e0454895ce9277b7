import Gamebank.Protocol.RawFormat

/-!
# How operations and blocks are built

The types of `gamebank_operations.hpp`, `gamebank_virtual_operations.hpp`,
`transaction.hpp` and `block.hpp`, as `FC_REFLECT` lists their fields. Above
each type stand its fields, in the order in which they are packed.
-/

namespace Gamebank.Protocol.Packed

open Gamebank.Lib Gamebank.Lib.Ty

/-- `sizeof` of what stands in containers, which the compiler chooses. -/
structure Layout where
  accountName : Nat
  publicKey : Nat
  weight : Nat
  string : Nat
  charVector : Nat
  uint32 : Nat
  authority : Nat
  beneficiaryRoute : Nat
  futureExtension : Nat
  commentOptionsExtension : Nat
  blockHeaderExtension : Nat
  operation : Nat
  signature : Nat
  signedTransaction : Nat

/-- A `static_variant` of these types. -/
def staticVariant (l : List (Ty 2)) : Ty 2 := .variant l.length l.get

/-! ## Parts of operations -/

def uint16 : Ty 2 := .leaf (integer 2)
def int16 : Ty 2 := .leaf (integer 2)
def uint32 : Ty 2 := .leaf (integer 4)
def int64 : Ty 2 := .leaf (integer 8)
def uint64 : Ty 2 := .leaf (integer 8)
def bool : Ty 2 := .leaf flag
def timePointSec : Ty 2 := uint32
def shareType : Ty 2 := int64
def accountNameType : Ty 2 := .leaf accountName
def stringType : Ty 2 := .leaf string
def charVector : Ty 2 := .leaf string
def publicKeyType : Ty 2 := .leaf (byteArray 33)
def signatureType : Ty 2 := .leaf (byteArray 65)
def digestType : Ty 2 := .leaf (byteArray 32)
def blockIdType : Ty 2 := .leaf (byteArray 20)
def voidType : Ty 2 := record []

/-- `(amount)(symbol)` -/
def asset : Ty 2 := record [shareType, .leaf assetSymbol]

/-- `(base)(quote)` -/
def price : Ty 2 := record [asset, asset]

/-- `(amount)(symbol)` -/
def legacyGamebankAsset : Ty 2 := record [shareType, .leaf legacySymbol]

/-- `(account_creation_fee)(maximum_block_size)(gbd_interest_rate)` -/
def legacyChainProperties : Ty 2 := record [legacyGamebankAsset, uint32, uint16]

variable (s : Layout)

/-- `(weight_threshold)(account_auths)(key_auths)` -/
def authority : Ty 2 :=
  record [uint32, .flatMap (s.accountName + s.weight) accountNameType uint16,
    .flatMap (s.publicKey + s.weight) publicKeyType uint16]

def futureExtensions : Ty 2 := staticVariant [voidType]

def extensionsType : Ty 2 := .flatSet s.futureExtension futureExtensions

def accountNames : Ty 2 := .flatSet s.accountName accountNameType

/-- `(account)(weight)` -/
def beneficiaryRouteType : Ty 2 := record [accountNameType, uint16]

/-- `(beneficiaries)` -/
def commentPayoutBeneficiaries : Ty 2 := record [.vector s.beneficiaryRoute beneficiaryRouteType]

def commentOptionsExtension : Ty 2 := staticVariant [commentPayoutBeneficiaries s]

/-- `(v_num)`, and that of a `hardfork_version`. -/
def version : Ty 2 := record [uint32]

/-- `(hf_version)(hf_time)` -/
def hardforkVersionVote : Ty 2 := record [version, timePointSec]

def blockHeaderExtensions : Ty 2 := staticVariant [voidType, version, hardforkVersionVote]

/-- `(previous)(timestamp)(witness)(transaction_merkle_root)(extensions)` -/
def blockHeaderFields : List (Ty 2) :=
  [blockIdType, timePointSec, stringType, blockIdType,
    .flatSet s.blockHeaderExtension blockHeaderExtensions]

/-- `(witness_signature)` behind the fields of a header. -/
def signedBlockHeader : Ty 2 := record (blockHeaderFields s ++ [signatureType])

/-- `(worker)(input)(signature)(work)` -/
def pow : Ty 2 := record [publicKeyType, digestType, signatureType, digestType]

/-- `(worker_account)(prev_block)(nonce)` -/
def pow2Input : Ty 2 := record [accountNameType, blockIdType, uint64]

/-- `(input)(pow_summary)` -/
def pow2 : Ty 2 := record [pow2Input, uint32]

/-- `(n)(k)(seed)(inputs)` -/
def equihashProof : Ty 2 := record [uint32, uint32, digestType, .vector s.uint32 uint32]

/-- `(input)(proof)(prev_block)(pow_summary)` -/
def equihashPow : Ty 2 := record [pow2Input, equihashProof s, blockIdType, uint32]

def pow2Work : Ty 2 := staticVariant [pow2, equihashPow s]

/-! ## Operations -/

/-- `(voter)(author)(permlink)(weight)` -/
def voteOperation : Ty 2 := record [accountNameType, accountNameType, stringType, int16]

/-- `(parent_author)(parent_permlink)(author)(permlink)(title)(body)(json_metadata)` -/
def commentOperation : Ty 2 :=
  record [accountNameType, stringType, accountNameType, stringType, stringType, stringType,
    stringType]

/-- `(from)(to)(amount)(memo)` -/
def transferOperation : Ty 2 := record [accountNameType, accountNameType, asset, stringType]

/-- `(from)(to)(amount)` -/
def transferToVestingOperation : Ty 2 := record [accountNameType, accountNameType, asset]

/-- `(account)(vesting_shares)` -/
def withdrawVestingOperation : Ty 2 := record [accountNameType, asset]

/-- `(owner)(orderid)(amount_to_sell)(min_to_receive)(fill_or_kill)(expiration)` -/
def limitOrderCreateOperation : Ty 2 :=
  record [accountNameType, uint32, asset, asset, bool, timePointSec]

/-- `(owner)(orderid)` -/
def limitOrderCancelOperation : Ty 2 := record [accountNameType, uint32]

/-- `(publisher)(exchange_rate)` -/
def feedPublishOperation : Ty 2 := record [accountNameType, price]

/-- `(owner)(requestid)(amount)` -/
def convertOperation : Ty 2 := record [accountNameType, uint32, asset]

/-- `(fee)(creator)(new_account_name)(owner)(active)(posting)(memo_key)(json_metadata)` -/
def accountCreateOperation : Ty 2 :=
  record [asset, accountNameType, accountNameType, authority s, authority s, authority s,
    publicKeyType, stringType]

/-- `(account)(owner)(active)(posting)(memo_key)(json_metadata)` -/
def accountUpdateOperation : Ty 2 :=
  record [accountNameType, .optional (authority s), .optional (authority s),
    .optional (authority s), publicKeyType, stringType]

/-- `(owner)(url)(block_signing_key)(props)(fee)` -/
def witnessUpdateOperation : Ty 2 :=
  record [accountNameType, stringType, publicKeyType, legacyChainProperties, asset]

/-- `(account)(witness)(approve)` -/
def accountWitnessVoteOperation : Ty 2 := record [accountNameType, accountNameType, bool]

/-- `(account)(proxy)` -/
def accountWitnessProxyOperation : Ty 2 := record [accountNameType, accountNameType]

/-- `(worker_account)(block_id)(nonce)(work)(props)` -/
def powOperation : Ty 2 := record [accountNameType, blockIdType, uint64, pow, legacyChainProperties]

/-- `(required_auths)(id)(data)` -/
def customOperation : Ty 2 := record [accountNames s, uint16, charVector]

/-- `(reporter)(first_block)(second_block)` -/
def reportOverProductionOperation : Ty 2 :=
  record [accountNameType, signedBlockHeader s, signedBlockHeader s]

/-- `(author)(permlink)` -/
def deleteCommentOperation : Ty 2 := record [accountNameType, stringType]

/-- `(required_auths)(required_posting_auths)(id)(json)` -/
def customJsonOperation : Ty 2 := record [accountNames s, accountNames s, stringType, stringType]

/-- `(author)(permlink)(max_accepted_payout)(percent_gamebank_dollars)(allow_votes)`
`(allow_curation_rewards)(extensions)` -/
def commentOptionsOperation : Ty 2 :=
  record [accountNameType, stringType, asset, uint16, bool, bool,
    .flatSet s.commentOptionsExtension (commentOptionsExtension s)]

/-- `(from_account)(to_account)(percent)(auto_vest)` -/
def setWithdrawVestingRouteOperation : Ty 2 :=
  record [accountNameType, accountNameType, uint16, bool]

/-- `(owner)(orderid)(amount_to_sell)(exchange_rate)(fill_or_kill)(expiration)` -/
def limitOrderCreate2Operation : Ty 2 :=
  record [accountNameType, uint32, asset, price, bool, timePointSec]

/-- `(creator)(fee)(extensions)` -/
def claimAccountOperation : Ty 2 := record [accountNameType, asset, extensionsType s]

/-- `(creator)(new_account_name)(owner)(active)(posting)(memo_key)(json_metadata)(extensions)` -/
def createClaimedAccountOperation : Ty 2 :=
  record [accountNameType, accountNameType, authority s, authority s, authority s, publicKeyType,
    stringType, extensionsType s]

/-- `(recovery_account)(account_to_recover)(new_owner_authority)(extensions)` -/
def requestAccountRecoveryOperation : Ty 2 :=
  record [accountNameType, accountNameType, authority s, extensionsType s]

/-- `(account_to_recover)(new_owner_authority)(recent_owner_authority)(extensions)` -/
def recoverAccountOperation : Ty 2 :=
  record [accountNameType, authority s, authority s, extensionsType s]

/-- `(account_to_recover)(new_recovery_account)(extensions)` -/
def changeRecoveryAccountOperation : Ty 2 :=
  record [accountNameType, accountNameType, extensionsType s]

/-- `(from)(to)(gbd_amount)(gbc_amount)(escrow_id)(agent)(fee)(json_meta)`
`(ratification_deadline)(escrow_expiration)` -/
def escrowTransferOperation : Ty 2 :=
  record [accountNameType, accountNameType, asset, asset, uint32, accountNameType, asset,
    stringType, timePointSec, timePointSec]

/-- `(from)(to)(agent)(who)(escrow_id)` -/
def escrowDisputeOperation : Ty 2 :=
  record [accountNameType, accountNameType, accountNameType, accountNameType, uint32]

/-- `(from)(to)(agent)(who)(receiver)(escrow_id)(gbd_amount)(gbc_amount)` -/
def escrowReleaseOperation : Ty 2 :=
  record [accountNameType, accountNameType, accountNameType, accountNameType, accountNameType,
    uint32, asset, asset]

/-- `(work)(new_owner_key)(props)` -/
def pow2Operation : Ty 2 := record [pow2Work s, .optional publicKeyType, legacyChainProperties]

/-- `(from)(to)(agent)(who)(escrow_id)(approve)` -/
def escrowApproveOperation : Ty 2 :=
  record [accountNameType, accountNameType, accountNameType, accountNameType, uint32, bool]

/-- `(from)(to)(amount)(memo)` -/
def transferToSavingsOperation : Ty 2 :=
  record [accountNameType, accountNameType, asset, stringType]

/-- `(from)(request_id)(to)(amount)(memo)` -/
def transferFromSavingsOperation : Ty 2 :=
  record [accountNameType, uint32, accountNameType, asset, stringType]

/-- `(from)(request_id)` -/
def cancelTransferFromSavingsOperation : Ty 2 := record [accountNameType, uint32]

/-- `(required_owner_auths)(required_active_auths)(required_posting_auths)(required_auths)(id)`
`(data)` -/
def customBinaryOperation : Ty 2 :=
  record [accountNames s, accountNames s, accountNames s, .vector s.authority (authority s),
    stringType, charVector]

/-- `(account)(decline)` -/
def declineVotingRightsOperation : Ty 2 := record [accountNameType, bool]

/-- `(reset_account)(account_to_reset)(new_owner_authority)` -/
def resetAccountOperation : Ty 2 := record [accountNameType, accountNameType, authority s]

/-- `(account)(current_reset_account)(reset_account)` -/
def setResetAccountOperation : Ty 2 := record [accountNameType, accountNameType, accountNameType]

/-- `(account)(reward_gbc)(reward_gbd)(reward_vests)` -/
def claimRewardBalanceOperation : Ty 2 := record [accountNameType, asset, asset, asset]

/-- `(delegator)(delegatee)(vesting_shares)` -/
def delegateVestingSharesOperation : Ty 2 := record [accountNameType, accountNameType, asset]

/-- `(fee)(delegation)(creator)(new_account_name)(owner)(active)(posting)(memo_key)(json_metadata)`
`(extensions)` -/
def accountCreateWithDelegationOperation : Ty 2 :=
  record [asset, asset, accountNameType, accountNameType, authority s, authority s, authority s,
    publicKeyType, stringType, extensionsType s]

/-- `(owner)(props)(extensions)` -/
def witnessSetPropertiesOperation : Ty 2 :=
  record [accountNameType, .flatMap (s.string + s.charVector) stringType charVector,
    extensionsType s]

/-- `(originator)(permlink)(raise)(title)(body)(json_metadata)` -/
def crowdfundingOperation : Ty 2 :=
  record [accountNameType, stringType, asset, stringType, stringType, stringType]

/-- `(invester)(originator)(permlink)(raise)` -/
def investOperation : Ty 2 := record [accountNameType, accountNameType, stringType, asset]

/-- `(creator)(owner)(meta_data)` -/
def nonfungibleFundCreateOperation : Ty 2 := record [accountNameType, accountNameType, stringType]

/-- `(from)(to)(fund_id)` -/
def nonfungibleFundTransferOperation : Ty 2 := record [accountNameType, accountNameType, int64]

/-- `(seller)(fund_id)(selling_price)(expiration)` -/
def nonfungibleFundPutUpForSaleOperation : Ty 2 :=
  record [accountNameType, int64, asset, timePointSec]

/-- `(seller)(fund_id)` -/
def nonfungibleFundWithdrawFromSaleOperation : Ty 2 := record [accountNameType, int64]

/-- `(buyer)(fund_id)` -/
def nonfungibleFundBuyOperation : Ty 2 := record [accountNameType, int64]

/-- `(creator)(name)(code)(abi)` -/
def contractDeployOperation : Ty 2 :=
  record [accountNameType, accountNameType, stringType, stringType]

/-- `(caller)(contract_name)(method)(args)` -/
def contractCallOperation : Ty 2 :=
  record [accountNameType, accountNameType, stringType, stringType]

/-! ## Virtual operations -/

/-- `(owner)(requestid)(amount_in)(amount_out)` -/
def fillConvertRequestOperation : Ty 2 := record [accountNameType, uint32, asset, asset]

/-- `(author)(permlink)(gbd_payout)(gbc_payout)(vesting_payout)` -/
def authorRewardOperation : Ty 2 := record [accountNameType, stringType, asset, asset, asset]

/-- `(curator)(reward)(comment_author)(comment_permlink)` -/
def curationRewardOperation : Ty 2 := record [accountNameType, asset, accountNameType, stringType]

/-- `(author)(permlink)(payout)` -/
def commentRewardOperation : Ty 2 := record [accountNameType, stringType, asset]

/-- `(owner)(payout)` -/
def liquidityRewardOperation : Ty 2 := record [accountNameType, asset]

/-- `(owner)(interest)` -/
def interestOperation : Ty 2 := record [accountNameType, asset]

/-- `(from_account)(to_account)(withdrawn)(deposited)` -/
def fillVestingWithdrawOperation : Ty 2 := record [accountNameType, accountNameType, asset, asset]

/-- `(current_owner)(current_orderid)(current_pays)(open_owner)(open_orderid)(open_pays)` -/
def fillOrderOperation : Ty 2 :=
  record [accountNameType, uint32, asset, accountNameType, uint32, asset]

/-- `(owner)` -/
def shutdownWitnessOperation : Ty 2 := record [accountNameType]

/-- `(from)(to)(amount)(request_id)(memo)` -/
def fillTransferFromSavingsOperation : Ty 2 :=
  record [accountNameType, accountNameType, asset, uint32, stringType]

/-- `(hardfork_id)` -/
def hardforkOperation : Ty 2 := record [uint32]

/-- `(author)(permlink)` -/
def commentPayoutUpdateOperation : Ty 2 := record [accountNameType, stringType]

/-- `(account)(vesting_shares)` -/
def returnVestingDelegationOperation : Ty 2 := record [accountNameType, asset]

/-- `(benefactor)(author)(permlink)(reward)` -/
def commentBenefactorRewardOperation : Ty 2 :=
  record [accountNameType, accountNameType, stringType, asset]

/-- `(producer)(vesting_shares)` -/
def producerRewardOperation : Ty 2 := record [accountNameType, asset]

/-- `(name)(key)(data)` -/
def contractLogOperation : Ty 2 := record [stringType, stringType, stringType]

/-- The alternatives of `operation`, in the order of their tags. -/
def operationTypes : List (Ty 2) := [
  voteOperation,
  commentOperation,
  transferOperation,
  transferToVestingOperation,
  withdrawVestingOperation,
  limitOrderCreateOperation,
  limitOrderCancelOperation,
  feedPublishOperation,
  convertOperation,
  accountCreateOperation s,
  accountUpdateOperation s,
  witnessUpdateOperation,
  accountWitnessVoteOperation,
  accountWitnessProxyOperation,
  powOperation,
  customOperation s,
  reportOverProductionOperation s,
  deleteCommentOperation,
  customJsonOperation s,
  commentOptionsOperation s,
  setWithdrawVestingRouteOperation,
  limitOrderCreate2Operation,
  claimAccountOperation s,
  createClaimedAccountOperation s,
  requestAccountRecoveryOperation s,
  recoverAccountOperation s,
  changeRecoveryAccountOperation s,
  escrowTransferOperation,
  escrowDisputeOperation,
  escrowReleaseOperation,
  pow2Operation s,
  escrowApproveOperation,
  transferToSavingsOperation,
  transferFromSavingsOperation,
  cancelTransferFromSavingsOperation,
  customBinaryOperation s,
  declineVotingRightsOperation,
  resetAccountOperation s,
  setResetAccountOperation,
  claimRewardBalanceOperation,
  delegateVestingSharesOperation,
  accountCreateWithDelegationOperation s,
  witnessSetPropertiesOperation s,
  crowdfundingOperation,
  investOperation,
  nonfungibleFundCreateOperation,
  nonfungibleFundTransferOperation,
  nonfungibleFundPutUpForSaleOperation,
  nonfungibleFundWithdrawFromSaleOperation,
  nonfungibleFundBuyOperation,
  contractDeployOperation,
  contractCallOperation,
  fillConvertRequestOperation,
  authorRewardOperation,
  curationRewardOperation,
  commentRewardOperation,
  liquidityRewardOperation,
  interestOperation,
  fillVestingWithdrawOperation,
  fillOrderOperation,
  shutdownWitnessOperation,
  fillTransferFromSavingsOperation,
  hardforkOperation,
  commentPayoutUpdateOperation,
  returnVestingDelegationOperation,
  commentBenefactorRewardOperation,
  producerRewardOperation,
  contractLogOperation]

def operation : Ty 2 := staticVariant (operationTypes s)

/-! ## Transactions and blocks -/

/-- `(ref_block_num)(ref_block_prefix)(expiration)(operations)(extensions)` -/
def transactionFields : List (Ty 2) :=
  [uint16, uint32, timePointSec, .vector s.operation (operation s), extensionsType s]

def transaction : Ty 2 := record (transactionFields s)

/-- `(signatures)` behind the fields of a transaction. -/
def signedTransaction : Ty 2 :=
  record (transactionFields s ++ [.vector s.signature signatureType])

/-- `(transactions)` behind the fields of a signed header. -/
def signedBlock : Ty 2 :=
  record ((blockHeaderFields s ++ [signatureType]) ++
    [.vector s.signedTransaction (signedTransaction s)])

end Gamebank.Protocol.Packed
