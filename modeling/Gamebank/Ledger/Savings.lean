import Gamebank.Ledger.Balances
import Gamebank.Protocol.Validation

/-!
# Savings

The three evaluators for savings and the sweep of a block over the
withdrawals that are complete. A withdrawal is referred to by its id, an
operation names it by its `from` account and request id: `by_from_rid` is
unique, and a request id may be used again.

Each function returns beside the new state what was moved, one event for an
object that is created or removed. A string is UTF-8 here, so that check of
a memo is left out, and so is the memo of the object, which only a virtual
operation reads.
-/

namespace Gamebank.Ledger

open Gamebank.Lib Gamebank.Protocol

/-- `transfer_to_savings_operation`. -/
structure TransferToSavings where
  sender : AccountName
  recipient : AccountName
  amount : Asset
  memo : String

/-- `transfer_from_savings_operation`. -/
structure TransferFromSavings where
  sender : AccountName
  requestId : Nat
  recipient : AccountName
  amount : Asset
  memo : String

/-- `cancel_transfer_from_savings_operation`. -/
structure CancelTransferFromSavings where
  sender : AccountName
  requestId : Nat

/-- A call of `adjust_balance` or `adjust_savings_balance` that settles the
withdrawal with the id `request`. -/
structure SavingsPayment where
  request : Nat
  account : AccountName
  amount : Asset
  time : Nat
deriving DecidableEq

/-- What happens to the money in savings. -/
inductive SavingsEvent where
  | deposited (sender recipient : AccountName) (amount : Asset)
  | taken (r : SavingsWithdraw)
  /-- To the balance of the recipient. -/
  | credited (p : SavingsPayment)
  /-- To the savings of the sender. -/
  | returned (p : SavingsPayment)
deriving DecidableEq

/-- `GAMEBANK_MAX_MEMO_SIZE`. -/
def maxMemoSize : Nat := 2048

/-- `GAMEBANK_SAVINGS_WITHDRAW_TIME`, in seconds. -/
def savingsWithdrawTime : Nat := 259200

/-- `GAMEBANK_SAVINGS_WITHDRAW_REQUEST_LIMIT`. -/
def savingsWithdrawRequestLimit : Nat := 100

/-! ## Validation -/

/-- What both transfers check. -/
def validateSavingsTransfer (sender recipient : AccountName) (amount : Asset) (memo : String) :
    Except String Unit := do
  validateAccountName sender
  validateAccountName recipient
  ensure (0 < amount.amount) "amount.amount > 0"
  ensure (amount.symbol = .gbc || amount.symbol = .gbd)
    "amount.symbol == GBC_SYMBOL || amount.symbol == GBD_SYMBOL"
  ensure (memo.utf8ByteSize < maxMemoSize) "Memo is too large"

def TransferToSavings.validate (o : TransferToSavings) : Except String Unit :=
  validateSavingsTransfer o.sender o.recipient o.amount o.memo

def TransferFromSavings.validate (o : TransferFromSavings) : Except String Unit :=
  validateSavingsTransfer o.sender o.recipient o.amount o.memo

def CancelTransferFromSavings.validate (o : CancelTransferFromSavings) : Except String Unit :=
  validateAccountName o.sender

/-! ## Withdrawals -/

/-- The withdrawal that `transfer_from_savings_evaluator` creates at the time
`now`; a time has 32 bits. -/
def TransferFromSavings.opened (o : TransferFromSavings) (now id : Nat) : SavingsWithdraw where
  id := id
  sender := o.sender
  recipient := o.recipient
  requestId := o.requestId
  amount := o.amount
  complete := (now + savingsWithdrawTime) % 4294967296

namespace SavingsWithdraw

/-- The order of `by_complete_from_rid`. -/
def before (r r' : SavingsWithdraw) : Bool :=
  r.complete < r'.complete ||
  (r.complete = r'.complete &&
    (r.sender < r'.sender || (r.sender = r'.sender && r.requestId < r'.requestId)))

/-- Its amount, paid to `account`. -/
def payment (r : SavingsWithdraw) (account : AccountName) (time : Nat) : SavingsPayment :=
  ⟨r.id, account, r.amount, time⟩

end SavingsWithdraw

/-- `savings_withdraw_requests++`, of eight bits. -/
def Account.addWithdrawRequest (a : Account) : Account :=
  { a with savingsWithdrawRequests := (a.savingsWithdrawRequests + 1) % 256 }

/-- `savings_withdraw_requests--`, of eight bits. -/
def Account.dropWithdrawRequest (a : Account) : Account :=
  { a with savingsWithdrawRequests := (a.savingsWithdrawRequests + 255) % 256 }

namespace Database

/-- `get_savings_withdraw`. -/
def getSavingsWithdraw (s : Database) (owner : AccountName) (requestId : Nat) :
    Except String SavingsWithdraw :=
  require (s.savingsWithdraws.find? fun r => r.sender = owner && r.requestId = requestId)

/-- `remove` of a withdrawal. -/
def removeSavingsWithdraw (s : Database) (id : Nat) : Database :=
  { s with savingsWithdraws := s.savingsWithdraws.remove fun r => r.id = id }

/-- `transfer_to_savings_evaluator`. -/
def transferToSavings (s : Database) (o : TransferToSavings) :
    Except String (Database × List SavingsEvent) := do
  o.validate
  let _ ← s.getAccount o.sender
  let _ ← s.getAccount o.recipient
  let balance ← s.getBalance o.sender o.amount.symbol
  ensure (o.amount.amount ≤ balance)
    "Account does not have sufficient funds to transfer to savings."
  let s ← s.adjustBalance o.sender (-o.amount)
  let s ← s.adjustSavingsBalance o.recipient o.amount
  return (s, [.deposited o.sender o.recipient o.amount])

/-- `transfer_from_savings_evaluator`. -/
def transferFromSavings (s : Database) (o : TransferFromSavings) :
    Except String (Database × List SavingsEvent) := do
  o.validate
  let account ← s.getAccount o.sender
  let _ ← s.getAccount o.recipient
  ensure (account.savingsWithdrawRequests < savingsWithdrawRequestLimit)
    "Account has reached limit for pending withdraw requests."
  let balance ← s.getSavingsBalance o.sender o.amount.symbol
  ensure (o.amount.amount ≤ balance)
    "_db.get_savings_balance( from, op.amount.symbol ) >= op.amount"
  let s ← s.adjustSavingsBalance o.sender (-o.amount)
  ensure (s.savingsWithdraws.find? fun r =>
      r.sender = o.sender && r.requestId = o.requestId).isNone
    "could not insert object, most likely a uniqueness constraint was violated"
  let r := o.opened s.headBlockTime
  let t : Database := { s with savingsWithdraws := s.savingsWithdraws.create r }
  let t ← t.modifyAccount o.sender Account.addWithdrawRequest
  return (t, [.taken (r s.savingsWithdraws.nextId)])

/-- `cancel_transfer_from_savings_evaluator`. -/
def cancelTransferFromSavings (s : Database) (o : CancelTransferFromSavings) :
    Except String (Database × List SavingsEvent) := do
  o.validate
  let r ← s.getSavingsWithdraw o.sender o.requestId
  let s ← s.adjustSavingsBalance r.sender r.amount
  let s := s.removeSavingsWithdraw r.id
  let s ← s.modifyAccount o.sender Account.dropWithdrawRequest
  return (s, [.returned (r.payment r.sender s.headBlockTime)])

/-- The first withdrawal by its completion time, if that has come. -/
def completedWithdraw (s : Database) : Option SavingsWithdraw :=
  (s.savingsWithdraws.first SavingsWithdraw.before).filter fun r => r.complete ≤ s.headBlockTime

/-- One turn of the loop of `process_savings_withdraws`. -/
def fillSavingsWithdraw (r : SavingsWithdraw) (x : Database × List SavingsEvent) :
    Except String (Database × List SavingsEvent) := do
  let s ← x.1.adjustBalance r.recipient r.amount
  let s ← s.modifyAccount r.sender Account.dropWithdrawRequest
  return (s.removeSavingsWithdraw r.id,
    x.2 ++ [.credited (r.payment r.recipient s.headBlockTime)])

/-- `process_savings_withdraws`. -/
def processSavingsWithdraws (s : Database) : Except String (Database × List SavingsEvent) :=
  drain (fun x => x.1.completedWithdraw) fillSavingsWithdraw (s.savingsWithdraws.rows.length + 1)
    (s, [])

end Database

end Gamebank.Ledger
