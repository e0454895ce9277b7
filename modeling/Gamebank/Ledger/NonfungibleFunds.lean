import Gamebank.Ledger.Voting

/-!
# Nonfungible funds

The five `nonfungible_fund` evaluators and the sweep of a block over the
offers that have run out. A fund is referred to by its id, an offer by the
fund it is for: `by_fund_id` is unique.

`validate` lets no operation name the fund with the id zero.
-/

namespace Gamebank.Ledger

open Gamebank.Lib Gamebank.Protocol

namespace Database

/-- `get< nonfungible_fund_object, by_id >`. -/
def getNonfungibleFund (s : Database) (fundId : Nat) : Except String NonfungibleFund :=
  require (s.nonfungibleFunds.find? fun f => f.id = fundId)

/-- `find< nonfungible_fund_on_sale_object, by_fund_id >`. -/
def findOnSale (s : Database) (fundId : Nat) : Option NonfungibleFundOnSale :=
  s.nonfungibleFundsOnSale.find? fun o => o.fundId = fundId

/-- The `modify` that gives a fund to another owner. -/
def setFundOwner (s : Database) (fundId : Nat) (owner : AccountName) : Database :=
  { s with
    nonfungibleFunds := s.nonfungibleFunds.modify (fun f => f.id = fundId) fun f =>
      { f with owner := owner, lastUpdate := s.headBlockTime } }

/-- `remove` of an offer. -/
def removeOnSale (s : Database) (fundId : Nat) : Database :=
  { s with nonfungibleFundsOnSale := s.nonfungibleFundsOnSale.remove fun o => o.fundId = fundId }

/-- `nonfungible_fund_create_evaluator`. -/
def nonfungibleFundCreate (s : Database) (creator owner : AccountName) (metaData : String) :
    Except String Database := do
  ensure (0 < metaData.utf8ByteSize) "meta_data is empty"
  ensure (metaData.utf8ByteSize < 256) "meta_data larger than size limit"
  validateName creator
  validateName owner
  let creator ← s.getAccount creator
  let owner ← s.getAccount owner
  return { s with
    nonfungibleFunds := s.nonfungibleFunds.create fun id =>
      ⟨id, creator.name, owner.name, metaData, s.headBlockTime, s.headBlockTime⟩ }

/-- `nonfungible_fund_transfer_evaluator`. -/
def nonfungibleFundTransfer (s : Database) (sender recipient : AccountName) (fundId : Nat) :
    Except String Database := do
  ensure (0 < fundId) "fund_id is zero"
  ensure (sender ≠ recipient) "from cant equal to"
  validateName sender
  validateName recipient
  let sender ← s.getAccount sender
  let recipient ← s.getAccount recipient
  let nfo ← s.getNonfungibleFund fundId
  ensure (nfo.owner = sender.name) "from not own the fund"
  ensure (s.findOnSale fundId).isNone "the fund is on sale"
  return s.setFundOwner fundId recipient.name

/-- `nonfungible_fund_put_up_for_sale_evaluator`. -/
def nonfungibleFundPutUpForSale (s : Database) (seller : AccountName) (fundId : Nat)
    (sellingPrice : Asset) (expiration : Nat) : Except String Database := do
  ensure (0 < fundId) "fund_id is zero"
  ensure (sellingPrice.isAssetType .gbc || sellingPrice.isAssetType .gbd)
    "Price must be for the GBC or GBD"
  ensure (0 < sellingPrice.amount) "Price should > 0"
  validateName seller
  ensure (s.headBlockTime < expiration) "Limit order has to expire after head block time."
  let account ← s.getAccount seller
  let nfo ← s.getNonfungibleFund fundId
  ensure (nfo.owner = account.name) "seller does't own the fund"
  ensure (s.findOnSale fundId).isNone "the fund is on sale"
  return { s with
    nonfungibleFundsOnSale := s.nonfungibleFundsOnSale.create fun _ =>
      ⟨fundId, s.headBlockTime, expiration, seller, sellingPrice⟩ }

/-- `nonfungible_fund_withdraw_from_sale_evaluator`. -/
def nonfungibleFundWithdrawFromSale (s : Database) (seller : AccountName) (fundId : Nat) :
    Except String Database := do
  ensure (0 < fundId) "fund_id is zero"
  validateName seller
  let account ← s.getAccount seller
  let nfo ← s.getNonfungibleFund fundId
  ensure (nfo.owner = account.name) "seller does't own the fund"
  let _ ← require (s.findOnSale fundId)
  return s.removeOnSale fundId

/-- `nonfungible_fund_buy_evaluator`. -/
def nonfungibleFundBuy (s : Database) (buyer : AccountName) (fundId : Nat) :
    Except String Database := do
  ensure (0 < fundId) "fund_id is zero"
  validateName buyer
  let _ ← s.getNonfungibleFund fundId
  let onSale ← require (s.findOnSale fundId)
  let balance ← s.getBalance buyer onSale.sellingPrice.symbol
  ensure (onSale.sellingPrice.amount ≤ balance)
    "Account does not have sufficient coins to buy the fund."
  let s ← s.adjustBalance buyer (-onSale.sellingPrice)
  let s ← s.adjustBalance onSale.seller onSale.sellingPrice
  return (s.removeOnSale fundId).setFundOwner fundId buyer

/-- The first offer by expiration, if it has run out. -/
def expiredOnSale (s : Database) : Option NonfungibleFundOnSale :=
  (s.nonfungibleFundsOnSale.first fun o o' => decide (o.expiration < o'.expiration)).filter
    fun o => o.expiration < s.headBlockTime

/-- `clear_expired_nonfungible_funds_on_sale`. -/
def clearExpiredNonfungibleFundsOnSale (s : Database) : Except String Database :=
  drain expiredOnSale (fun o s => .ok (s.removeOnSale o.fundId))
    (s.nonfungibleFundsOnSale.rows.length + 1) s

end Database

end Gamebank.Ledger
