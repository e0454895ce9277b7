import Gamebank.Ledger.Vesting
import Gamebank.Ledger.Savings

/-!
# Transfers and conversions

The evaluators for a transfer, for the claim of an account and for the
conversion of GBD, the routine of a block that fills the conversions whose
time has come, and `update_virtual_supply`.

`process_conversions` returns beside the new state the virtual operations it
pushes, one for a request that it fills. The rate at which GBD would be
printed is kept up to date, but nothing prints at that rate: the only call of
`create_gbd` is commented out.
-/

namespace Gamebank.Ledger

open Gamebank.Lib Gamebank.Protocol

/-- `transfer_operation`. -/
structure TransferOperation where
  sender : AccountName
  recipient : AccountName
  amount : Asset
  memo : String

/-- `convert_operation`. -/
structure ConvertOperation where
  owner : AccountName
  requestid : Nat
  amount : Asset

/-- `fill_convert_request_operation`. -/
structure FillConvertRequest where
  owner : AccountName
  requestid : Nat
  amountIn : Asset
  amountOut : Asset
deriving DecidableEq

/-- `GAMEBANK_CONVERSION_DELAY`, in seconds. -/
def conversionDelay : Nat := 302400

/-- `GAMEBANK_GBD_START_PERCENT`. -/
def gbdStartPercent : Int := 200

/-- `GAMEBANK_GBD_STOP_PERCENT`. -/
def gbdStopPercent : Int := 500

/-- `GAMEBANK_INIT_VESTING_SUPPLY_PERCENT`. -/
def initVestingSupplyPercent : Int := 1000

/-! ## Validation -/

/-- `transfer_operation::validate`. A string is UTF-8 here. -/
def TransferOperation.validate (o : TransferOperation) : Except String Unit := do
  validateAccountName o.sender
  validateAccountName o.recipient
  ensure (o.amount.symbol ≠ .gbs) "transferring of Gamebank Power (STMP) is not allowed."
  ensure (0 < o.amount.amount) "Cannot transfer a negative amount (aka: stealing)"
  ensure (o.memo.utf8ByteSize < maxMemoSize) "Memo is too large"

/-- `convert_operation::validate`. -/
def ConvertOperation.validate (o : ConvertOperation) : Except String Unit := do
  validateAccountName o.owner
  ensure (o.amount.isAssetType .gbd) "Can only convert GBD to GBC"
  ensure (0 < o.amount.amount) "Must convert some GBD"

/-- The request that `convert_evaluator` creates at the time `now`. -/
def ConvertOperation.opened (o : ConvertOperation) (now id : Nat) : ConvertRequest where
  id := id
  owner := o.owner
  requestid := o.requestid
  amount := o.amount
  conversionDate := addSeconds now conversionDelay

/-- The order of `by_conversion_date`. -/
def ConvertRequest.before (r r' : ConvertRequest) : Bool :=
  r.conversionDate < r'.conversionDate || (r.conversionDate = r'.conversionDate && r.id < r'.id)

/-- What `process_conversions` has done so far. -/
structure Conversions where
  db : Database
  netGbd : Int
  netGbc : Int
  filled : List FillConvertRequest

namespace Database

/-! ## Transfers -/

/-- `transfer_evaluator`. -/
def transfer (s : Database) (o : TransferOperation) : Except String Database := do
  signedBy o.sender
  o.validate
  let balance ← s.getBalance o.sender o.amount.symbol
  ensure (o.amount.amount ≤ balance) "Account does not have sufficient funds for transfer."
  let s ← s.adjustBalance o.sender (-o.amount)
  s.adjustBalance o.recipient o.amount

/-- `claim_account_evaluator`; the fee is GBC. -/
def claimAccount (s : Database) (creator : AccountName) (fee : Int) : Except String Database := do
  signedBy creator
  validateAccountName creator
  ensure (0 ≤ fee) "Account creation fee cannot be negative"
  ensure s.hardfork01 "claim_account_operation is not enabled until hardfork 20."
  let c ← s.getAccount creator
  ensure (fee ≤ c.balance) "Insufficient balance to create account."
  ensure (s.schedule.medianProps.accountCreationFee ≤ fee) "Insufficient Fee"
  let s ← s.adjustBalance nullAccount (.gbc fee)
  s.modifyAccount creator fun c =>
    { c with
      balance := c.balance - fee
      pendingClaimedAccounts := c.pendingClaimedAccounts + 1 }

/-- The part of the first block that turns some of the supply into vesting
shares of the first witness. -/
def vestInitialSupply (s : Database) (initSupply : Int) : Except String Database := do
  let initToVest := initSupply * initVestingSupplyPercent / hundredPercent
  let s ← s.adjustBalance initMinerName (-.gbc initToVest)
  s.createVesting initMinerName (.gbc initToVest)

/-! ## Conversions -/

/-- `remove` of a request. -/
def removeConvertRequest (s : Database) (id : Nat) : Database :=
  { s with convertRequests := s.convertRequests.remove fun r => r.id = id }

/-- `convert_evaluator`. -/
def convert (s : Database) (o : ConvertOperation) : Except String Database := do
  signedBy o.owner
  o.validate
  let balance ← s.getBalance o.owner o.amount.symbol
  ensure (o.amount.amount ≤ balance) "Account does not have sufficient balance for conversion."
  let s ← s.adjustBalance o.owner (-o.amount)
  ensure (!s.currentMedianHistory.isNull) "Cannot convert GBD because there is no price feed."
  -- `by_owner` is unique
  ensure (s.convertRequests.find? fun r => r.owner = o.owner && r.requestid = o.requestid).isNone
    "could not insert object, most likely a uniqueness constraint was violated"
  return { s with convertRequests := s.convertRequests.create (o.opened s.headBlockTime) }

/-- The first request by its conversion date, if that has come. -/
def dueConversion (s : Database) : Option ConvertRequest :=
  (s.convertRequests.first ConvertRequest.before).filter fun r =>
    r.conversionDate ≤ s.headBlockTime

/-- One turn of the loop of `process_conversions`. -/
def fillConvertRequest (r : ConvertRequest) (x : Conversions) : Except String Conversions := do
  let issued ← r.amount.times x.db.currentMedianHistory
  let s ← x.db.adjustBalance r.owner issued
  ensure (r.amount.symbol = .gbd) "a.symbol == b.symbol"
  ensure (fitsInt64 (x.netGbd + r.amount.amount)) "overflow"
  ensure (issued.symbol = .gbc) "a.symbol == b.symbol"
  ensure (fitsInt64 (x.netGbc + issued.amount)) "overflow"
  return ⟨s.removeConvertRequest r.id, x.netGbd + r.amount.amount, x.netGbc + issued.amount,
    x.filled ++ [⟨r.owner, r.requestid, r.amount, issued⟩]⟩

/-- `process_conversions`. -/
def processConversions (s : Database) : Except String (Database × List FillConvertRequest) := do
  if s.currentMedianHistory.isNull then return (s, [])
  else
    let x ← drain (fun x => x.db.dueConversion) fillConvertRequest
      (s.convertRequests.rows.length + 1) ⟨s, 0, 0, []⟩
    let worth ← (Asset.gbd x.netGbd).times x.db.currentMedianHistory
    ensure (worth.symbol = .gbc) "a.symbol == b.symbol"
    ensure (fitsInt64 (x.db.props.virtualSupply + x.netGbc)) "overflow"
    let s ← x.db.modifyProps fun p =>
      { p with
        currentSupply := p.currentSupply + x.netGbc
        currentGbdSupply := p.currentGbdSupply - x.netGbd
        virtualSupply := p.virtualSupply + x.netGbc - worth.amount }
    return (s, x.filled)

/-! ## The virtual supply -/

/-- The rate at which GBD is printed, for the percentage of GBD. -/
def printRate (percentGbd : Int) : Int :=
  if percentGbd ≤ gbdStartPercent then hundredPercent
  else if gbdStopPercent ≤ percentGbd then 0
  else (gbdStopPercent - percentGbd) * hundredPercent / (gbdStopPercent - gbdStartPercent)

/-- `update_virtual_supply`. -/
def updateVirtualSupply (s : Database) : Except String Database := do
  if s.currentMedianHistory.isNull then
    s.modifyProps fun p => { p with virtualSupply := p.currentSupply }
  else
    let worth ← (Asset.gbd s.props.currentGbdSupply).times s.currentMedianHistory
    ensure (worth.symbol = .gbc) "a.symbol == b.symbol"
    let virtualSupply := s.props.currentSupply + worth.amount
    ensure (virtualSupply ≠ 0) "division by zero"
    let percent := toUInt128 (toUInt128 worth.amount * hundredPercent) / toUInt128 virtualSupply
    ensure (percent < 18446744073709551616) "hi == 0"
    s.modifyProps fun p =>
      { p with
        virtualSupply := virtualSupply
        -- the percentage is kept in 16 bits
        gbdPrintRate := printRate (percent % 65536) }

end Database

end Gamebank.Ledger
