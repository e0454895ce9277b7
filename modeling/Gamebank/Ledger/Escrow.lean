import Gamebank.Ledger.Voting
import Gamebank.Protocol.Validation

/-!
# Escrow

The four escrow evaluators and the sweep of a block over the escrows that
were not approved in time. An escrow is referred to by its id, an operation
names it by its `from` account and number: `by_from_id` is unique.

Each function returns beside the new state what an escrow was paid in and
what it paid out, in the order of the calls of `adjust_balance`. What is
JSON is a parameter.
-/

namespace Gamebank.Ledger

open Gamebank.Lib Gamebank.Protocol

/-- `escrow_transfer_operation`. -/
structure EscrowTransfer where
  sender : AccountName
  recipient : AccountName
  agent : AccountName
  escrowId : Nat
  gbdAmount : Asset
  gbcAmount : Asset
  fee : Asset
  ratificationDeadline : Nat
  escrowExpiration : Nat
  jsonMeta : String

/-- `escrow_approve_operation`. -/
structure EscrowApprove where
  sender : AccountName
  recipient : AccountName
  agent : AccountName
  who : AccountName
  escrowId : Nat
  approve : Bool

/-- `escrow_dispute_operation`. -/
structure EscrowDispute where
  sender : AccountName
  recipient : AccountName
  agent : AccountName
  who : AccountName
  escrowId : Nat

/-- `escrow_release_operation`. -/
structure EscrowRelease where
  sender : AccountName
  recipient : AccountName
  agent : AccountName
  who : AccountName
  receiver : AccountName
  escrowId : Nat
  gbdAmount : Asset
  gbcAmount : Asset

/-- Why money leaves an escrow. -/
inductive EscrowCause where
  | release
  | refund
  | fee
  | feeReturn
deriving DecidableEq

/-- A call of `adjust_balance` that pays out of the escrow object with the id
`escrow`. -/
structure EscrowPayment where
  escrow : Nat
  cause : EscrowCause
  account : AccountName
  amount : Asset
deriving DecidableEq

/-- What happens to the money of escrows. -/
inductive EscrowEvent where
  | deposited (e : Escrow)
  | paid (p : EscrowPayment)
deriving DecidableEq

/-- The escrow `escrow_transfer_evaluator` creates. -/
def EscrowTransfer.opened (o : EscrowTransfer) (id : Nat) : Escrow where
  id := id
  escrowId := o.escrowId
  sender := o.sender
  recipient := o.recipient
  agent := o.agent
  ratificationDeadline := o.ratificationDeadline
  escrowExpiration := o.escrowExpiration
  gbdBalance := o.gbdAmount.amount
  gbcBalance := o.gbcAmount.amount
  pendingFee := o.fee
  toApproved := false
  agentApproved := false
  disputed := false

/-! ## Validation -/

def EscrowTransfer.validate (isValidJson : String → Bool) (o : EscrowTransfer) :
    Except String Unit := do
  validateAccountName o.sender
  validateAccountName o.recipient
  validateAccountName o.agent
  ensure (0 ≤ o.fee.amount) "fee cannot be negative"
  ensure (0 ≤ o.gbdAmount.amount) "gbd amount cannot be negative"
  ensure (0 ≤ o.gbcAmount.amount) "gbc amount cannot be negative"
  ensure (0 < o.gbdAmount.amount || 0 < o.gbcAmount.amount)
    "escrow must transfer a non-zero amount"
  ensure (o.sender ≠ o.agent && o.recipient ≠ o.agent) "agent must be a third party"
  ensure (o.fee.symbol = .gbc || o.fee.symbol = .gbd) "fee must be GBC or GBD"
  ensure (o.gbdAmount.symbol = .gbd) "gbd amount must contain GBD"
  ensure (o.gbcAmount.symbol = .gbc) "gbc amount must contain GBC"
  ensure (o.ratificationDeadline < o.escrowExpiration)
    "ratification deadline must be before escrow expiration"
  ensure (o.jsonMeta = "" || isValidJson o.jsonMeta) "JSON Metadata not valid JSON"

def EscrowApprove.validate (o : EscrowApprove) : Except String Unit := do
  validateAccountName o.sender
  validateAccountName o.recipient
  validateAccountName o.agent
  validateAccountName o.who
  ensure (o.who = o.recipient || o.who = o.agent) "to or agent must approve escrow"

def EscrowDispute.validate (o : EscrowDispute) : Except String Unit := do
  validateAccountName o.sender
  validateAccountName o.recipient
  validateAccountName o.agent
  validateAccountName o.who
  ensure (o.who = o.sender || o.who = o.recipient) "who must be from or to"

def EscrowRelease.validate (o : EscrowRelease) : Except String Unit := do
  validateAccountName o.sender
  validateAccountName o.recipient
  validateAccountName o.agent
  validateAccountName o.who
  validateAccountName o.receiver
  ensure (o.who = o.sender || o.who = o.recipient || o.who = o.agent)
    "who must be from or to or agent"
  ensure (o.receiver = o.sender || o.receiver = o.recipient) "receiver must be from or to"
  ensure (0 ≤ o.gbdAmount.amount) "gbd amount cannot be negative"
  ensure (0 ≤ o.gbcAmount.amount) "gbc amount cannot be negative"
  ensure (0 < o.gbdAmount.amount || 0 < o.gbcAmount.amount)
    "escrow must release a non-zero amount"
  ensure (o.gbdAmount.symbol = .gbd) "gbd amount must contain GBD"
  ensure (o.gbcAmount.symbol = .gbc) "gbc amount must contain GBC"

namespace Escrow

/-- The part of `escrow_approve_evaluator` for the recipient. -/
def approveAsTo (e : Escrow) (o : EscrowApprove) : Except String Escrow := do
  if o.who = o.recipient then
    ensure (!e.toApproved) "Account 'to' has already approved the escrow."
    return if o.approve then { e with toApproved := true } else e
  else return e

/-- The part of `escrow_approve_evaluator` for the agent. -/
def approveAsAgent (e : Escrow) (o : EscrowApprove) : Except String Escrow := do
  if o.who = o.agent then
    ensure (!e.agentApproved) "Account 'agent' has already approved the escrow."
    return if o.approve then { e with agentApproved := true } else e
  else return e

/-- Everything in the escrow goes back to `account`. -/
def refunds (e : Escrow) (account : AccountName) : List EscrowPayment :=
  [⟨e.id, .refund, account, .gbc e.gbcBalance⟩, ⟨e.id, .refund, account, .gbd e.gbdBalance⟩,
    ⟨e.id, .feeReturn, account, e.pendingFee⟩]

/-- The order of `by_ratification_deadline`. -/
def before (e e' : Escrow) : Bool :=
  (!e.isApproved && e'.isApproved) ||
  (e.isApproved = e'.isApproved &&
    (e.ratificationDeadline < e'.ratificationDeadline ||
      (e.ratificationDeadline = e'.ratificationDeadline && e.id < e'.id)))

end Escrow

namespace Database

/-- `get_escrow`. -/
def getEscrow (s : Database) (name : AccountName) (escrowId : Nat) : Except String Escrow :=
  require (s.escrows.find? fun e => e.sender = name && e.escrowId = escrowId)

/-- `modify` of an escrow. -/
def setEscrow (s : Database) (e : Escrow) : Database :=
  { s with escrows := s.escrows.modify (fun x => x.id = e.id) fun _ => e }

/-- `remove` of an escrow. -/
def removeEscrow (s : Database) (id : Nat) : Database :=
  { s with escrows := s.escrows.remove fun x => x.id = id }

/-- One `adjust_balance` after the other. -/
def payOut (s : Database) (payments : List EscrowPayment) : Except String Database :=
  payments.foldlM (fun s p => s.adjustBalance p.account p.amount) s

/-- `escrow_transfer_evaluator`. -/
def escrowTransfer (isValidJson : String → Bool) (s : Database) (o : EscrowTransfer) :
    Except String (Database × List EscrowEvent) := do
  o.validate isValidJson
  let account ← s.getAccount o.sender
  let _ ← s.getAccount o.recipient
  let _ ← s.getAccount o.agent
  ensure (s.headBlockTime < o.ratificationDeadline)
    "The escorw ratification deadline must be after head block time."
  ensure (s.headBlockTime < o.escrowExpiration)
    "The escrow expiration must be after head block time."
  let gbcSpent :=
    o.gbcAmount.amount + if o.fee.symbol = .gbc then o.fee.amount else 0
  let gbdSpent :=
    o.gbdAmount.amount + if o.fee.symbol = .gbc then 0 else o.fee.amount
  ensure (gbcSpent ≤ account.balance) "Account cannot cover GBC costs of escrow."
  ensure (gbdSpent ≤ account.gbdBalance) "Account cannot cover GBD costs of escrow."
  let s ← s.adjustBalance o.sender (.gbc (-gbcSpent))
  let s ← s.adjustBalance o.sender (.gbd (-gbdSpent))
  ensure (s.escrows.find? fun e => e.sender = o.sender && e.escrowId = o.escrowId).isNone
    "could not insert object, most likely a uniqueness constraint was violated"
  return ({ s with escrows := s.escrows.create o.opened },
    [.deposited (o.opened s.escrows.nextId)])

/-- `escrow_approve_evaluator`. -/
def escrowApprove (s : Database) (o : EscrowApprove) :
    Except String (Database × List EscrowEvent) := do
  o.validate
  let escrow ← s.getEscrow o.sender o.escrowId
  ensure (escrow.recipient = o.recipient) "Operation 'to' does not match escrow 'to'."
  ensure (escrow.agent = o.agent) "Operation 'agent' does not match escrow 'agent'."
  ensure (s.headBlockTime ≤ escrow.ratificationDeadline)
    "The escrow ratification deadline has passed. Escrow can no longer be ratified."
  let e ← escrow.approveAsTo o
  let e ← e.approveAsAgent o
  let s := s.setEscrow e
  if !o.approve then
    let payments := e.refunds o.sender
    let s ← s.payOut payments
    return (s.removeEscrow e.id, payments.map .paid)
  else if e.isApproved then
    let payments : List EscrowPayment := [⟨e.id, .fee, o.agent, e.pendingFee⟩]
    let s ← s.payOut payments
    return (s.setEscrow { e with pendingFee := ⟨0, e.pendingFee.symbol⟩ }, payments.map .paid)
  else return (s, [])

/-- `escrow_dispute_evaluator`. -/
def escrowDispute (s : Database) (o : EscrowDispute) :
    Except String (Database × List EscrowEvent) := do
  o.validate
  let _ ← s.getAccount o.sender
  let e ← s.getEscrow o.sender o.escrowId
  ensure (s.headBlockTime < e.escrowExpiration)
    "Disputing the escrow must happen before expiration."
  ensure e.isApproved "The escrow must be approved by all parties before a dispute can be raised."
  ensure (!e.disputed) "The escrow is already under dispute."
  ensure (e.recipient = o.recipient) "Operation 'to' does not match escrow 'to'."
  ensure (e.agent = o.agent) "Operation 'agent' does not match escrow 'agent'."
  return (s.setEscrow { e with disputed := true }, [])

/-- Who may release, and to whom. -/
def checkRelease (s : Database) (e : Escrow) (o : EscrowRelease) : Except String Unit := do
  if e.disputed then
    ensure (o.who = e.agent) "Only 'agent' can release funds in a disputed escrow."
  else
    ensure (o.who = e.sender || o.who = e.recipient)
      "Only 'from' and 'to' can release funds from a non-disputed escrow"
    if s.headBlockTime < e.escrowExpiration then
      if o.who = e.sender then
        ensure (o.receiver = e.recipient) "Only 'from' can release funds to 'to'."
      else if o.who = e.recipient then
        ensure (o.receiver = e.sender) "Only 'to' can release funds to 'from'."

/-- `escrow_release_evaluator`. -/
def escrowRelease (s : Database) (o : EscrowRelease) :
    Except String (Database × List EscrowEvent) := do
  o.validate
  let _ ← s.getAccount o.sender
  let e ← s.getEscrow o.sender o.escrowId
  ensure (o.gbcAmount.amount ≤ e.gbcBalance) "Release amount exceeds escrow balance."
  ensure (o.gbdAmount.amount ≤ e.gbdBalance) "Release amount exceeds escrow balance."
  ensure (e.recipient = o.recipient) "Operation 'to' does not match escrow 'to'."
  ensure (e.agent = o.agent) "Operation 'agent' does not match escrow 'agent'."
  ensure (o.receiver = e.sender || o.receiver = e.recipient)
    "Funds must be released to 'from' or 'to'"
  ensure e.isApproved "Funds cannot be released prior to escrow approval."
  s.checkRelease e o
  let payments : List EscrowPayment :=
    [⟨e.id, .release, o.receiver, o.gbcAmount⟩, ⟨e.id, .release, o.receiver, o.gbdAmount⟩]
  let s ← s.payOut payments
  let e :=
    { e with
      gbcBalance := e.gbcBalance - o.gbcAmount.amount
      gbdBalance := e.gbdBalance - o.gbdAmount.amount }
  let s := s.setEscrow e
  return (if e.gbcBalance = 0 && e.gbdBalance = 0 then s.removeEscrow e.id else s,
    payments.map .paid)

/-- The first escrow by approval and deadline, if it was not approved in time. -/
def unratified (s : Database) : Option Escrow :=
  (s.escrows.first Escrow.before).filter fun e =>
    !e.isApproved && e.ratificationDeadline ≤ s.headBlockTime

/-- One turn of the loop of `expire_escrow_ratification`. -/
def expireEscrow (e : Escrow) (r : Database × List EscrowEvent) :
    Except String (Database × List EscrowEvent) := do
  let payments := e.refunds e.sender
  let s ← r.1.payOut payments
  return (s.removeEscrow e.id, r.2 ++ payments.map .paid)

/-- `expire_escrow_ratification`. -/
def expireEscrowRatification (s : Database) : Except String (Database × List EscrowEvent) :=
  drain (fun r => r.1.unratified) expireEscrow (s.escrows.rows.length + 1) (s, [])

end Database

end Gamebank.Ledger
