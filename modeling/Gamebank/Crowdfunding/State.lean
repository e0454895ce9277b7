import Gamebank.Lib.OrderedIndex
import Gamebank.Protocol.Asset
import Mathlib.Data.Prod.Lex

/-!
# Crowdfunding

`crowdfunding_object.hpp`, `crowdfunding_evaluator`, `invest_evaluator` and
`process_crowdfunding`. An operation that throws is undone with its
transaction. Validation lets only GBC through, so the objects hold plain
amounts.

The campaigns are kept in the order of `by_expire_originator`, the
investments in the order of `by_expire_invester`. `ledger` records every
credit and debit of an account by these functions; nothing reads it.
-/

namespace Gamebank.Crowdfunding

open Gamebank.Lib Gamebank.Protocol

/-- `crowdfunding_object`. -/
structure CrowdfundingObject (Name : Type) (Permlink : Type) where
  id : Nat
  originator : Name
  permlink : Permlink
  created : Nat
  expire : Nat
  lastRaise : Nat
  totalRaiseValue : Int
  curatorRaiseValue : Int
  finish : Nat
deriving DecidableEq

/-- `crowdfunding_invest_object`. -/
structure CrowdfundingInvestObject (Name : Type) where
  id : Nat
  invester : Name
  crowdfunding : Nat
  expire : Nat
  lastUpdate : Nat
  raise : Int
deriving DecidableEq

/-- A change of an account's balance, with the campaign it is on account of. -/
inductive LedgerEntry (Name : Type) where
  | debit (crowdfunding : Nat) (invester : Name) (amount : Int)
  | payout (crowdfunding : Nat) (originator : Name) (amount : Int)
  | refund (crowdfunding : Nat) (invester : Name) (amount : Int)
deriving DecidableEq

structure State (Name : Type) (Permlink : Type) where
  headBlockTime : Nat
  hasAccount : Name → Bool
  balance : Name → Int
  lastCrowdfundingExpire : Name → Nat
  crowdfundingCount : Name → Nat
  crowdfundings : List (CrowdfundingObject Name Permlink)
  invests : List (CrowdfundingInvestObject Name)
  nextCrowdfunding : Nat
  nextInvest : Nat
  ledger : List (LedgerEntry Name)

/-- `crowdfunding_operation`; the texts are byte strings. -/
structure CrowdfundingOperation (Name : Type) (Permlink : Type) where
  originator : Name
  permlink : Permlink
  raise : Asset
  title : List UInt8
  body : List UInt8
  jsonMetadata : List UInt8

/-- `invest_operation`. -/
structure InvestOperation (Name : Type) (Permlink : Type) where
  invester : Name
  originator : Name
  permlink : Permlink
  raise : Asset

/-- The checks of names and texts. -/
structure Validators (Name : Type) (Permlink : Type) where
  validateAccountName : Name → Bool
  validatePermlink : Permlink → Bool
  validatePermlink01 : Permlink → Bool
  isUtf8 : List UInt8 → Bool
  isValidJson : List UInt8 → Bool

variable {Name : Type} {Permlink : Type}

/-! ## Validation -/

/-- `FC_ASSERT`. -/
def ensure (condition : Bool) (message : String) : Except String Unit :=
  if condition then .ok () else .error message

/-- `crowdfunding_operation::validate`. -/
def CrowdfundingOperation.validate (v : Validators Name Permlink)
    (op : CrowdfundingOperation Name Permlink) : Except String Unit := do
  ensure (op.title.length < 256) "Title larger than size limit"
  ensure (v.isUtf8 op.title) "Title not formatted in UTF8"
  ensure (0 < op.body.length) "Body is empty"
  ensure (v.isUtf8 op.body) "Body not formatted in UTF8"
  ensure (v.validateAccountName op.originator) "validate_account_name"
  ensure (v.validatePermlink op.permlink) "validate_permlink"
  ensure (op.jsonMetadata.length = 0 || v.isValidJson op.jsonMetadata)
    "JSON Metadata not valid JSON"
  ensure (op.raise.isAssetType .gbc) "Raise must be GBC_SYMBOL"
  ensure (0 ≤ op.raise.amount) "Raise cannot be negative"

/-- `invest_operation::validate`. -/
def InvestOperation.validate (v : Validators Name Permlink) (op : InvestOperation Name Permlink) :
    Except String Unit := do
  ensure (v.validateAccountName op.invester) "validate_account_name"
  ensure (v.validateAccountName op.originator) "validate_account_name"
  ensure (v.validatePermlink op.permlink) "validate_permlink"
  ensure (op.raise.isAssetType .gbc) "Invest must be GBC_SYMBOL"
  ensure (0 ≤ op.raise.amount) "Invest cannot be negative"

/-! ## Indices -/

variable [LinearOrder Name]

/-- The key of `by_expire_originator`. -/
def CrowdfundingObject.key (c : CrowdfundingObject Name Permlink) : Nat ×ₗ Name :=
  toLex (c.expire, c.originator)

/-- The key of `by_expire_invester`. -/
def CrowdfundingInvestObject.key (i : CrowdfundingInvestObject Name) : Nat ×ₗ Name :=
  toLex (i.expire, i.invester)

namespace State

/-- `adjust_balance`. -/
def adjustBalance (s : State Name Permlink) (name : Name) (delta : Int) : State Name Permlink :=
  { s with balance := fun n => if n = name then s.balance n + delta else s.balance n }

def record (s : State Name Permlink) (e : LedgerEntry Name) : State Name Permlink :=
  { s with ledger := s.ledger ++ [e] }

variable [DecidableEq Permlink]

/-- `find_crowdfunding`. -/
def findCrowdfunding (s : State Name Permlink) (originator : Name) (permlink : Permlink) :
    Option (CrowdfundingObject Name Permlink) :=
  s.crowdfundings.find? fun c => c.originator = originator ∧ c.permlink = permlink

/-! ## Evaluators -/

/-- Three days. -/
def crowdfundingPeriod : Nat := 3 * 24 * 3600

/-- `crowdfunding_evaluator::do_apply`. -/
def applyCrowdfunding (v : Validators Name Permlink) (op : CrowdfundingOperation Name Permlink)
    (s : State Name Permlink) : Except String (State Name Permlink) := do
  ensure (op.title.length + op.body.length + op.jsonMetadata.length ≠ 0)
    "Crowdfunding content is empty."
  ensure (v.isUtf8 op.jsonMetadata) "JSON Metadata must be UTF-8"
  ensure (s.hasAccount op.originator) "unknown key"
  ensure (s.lastCrowdfundingExpire op.originator < s.headBlockTime) "Crowdfunding is in progress."
  ensure (s.findCrowdfunding op.originator op.permlink).isNone "Permlink is exist."
  ensure (v.validatePermlink01 op.permlink) "validate_permlink_0_1"
  let expire := s.headBlockTime + crowdfundingPeriod
  let c : CrowdfundingObject Name Permlink :=
    { id := s.nextCrowdfunding, originator := op.originator, permlink := op.permlink,
      created := s.headBlockTime, expire := expire, lastRaise := 0, totalRaiseValue :=
        op.raise.amount,
      curatorRaiseValue := 0, finish := 0 }
  ensure (!s.crowdfundings.any fun d => d.key = c.key) "could not insert object"
  return { s with
    lastCrowdfundingExpire := fun n =>
      if n = op.originator then expire else s.lastCrowdfundingExpire n
    crowdfundingCount := fun n =>
      if n = op.originator then s.crowdfundingCount n + 1 else s.crowdfundingCount n
    crowdfundings := s.crowdfundings.orderedInsert (fun a b => a.key ≤ b.key) c
    nextCrowdfunding := s.nextCrowdfunding + 1 }

/-- The last part of `invest_evaluator::do_apply`: the investor's object for
the campaign `c` is created, or the amount added to it. -/
def recordInvest (c : CrowdfundingObject Name Permlink) (op : InvestOperation Name Permlink)
    (s : State Name Permlink) : Except String (State Name Permlink) := do
  let isOwn : CrowdfundingInvestObject Name → Bool := fun i =>
    i.crowdfunding = c.id ∧ i.invester = op.invester
  match s.invests.find? isOwn with
  | some _ =>
      return { s with
        invests := modifyFirst isOwn
          (fun i => { i with raise := i.raise + op.raise.amount, lastUpdate := s.headBlockTime })
          s.invests }
  | none =>
      let i : CrowdfundingInvestObject Name :=
        { id := s.nextInvest, invester := op.invester, crowdfunding := c.id, expire := c.expire,
          lastUpdate := s.headBlockTime, raise := op.raise.amount }
      ensure (!s.invests.any fun j => j.key = i.key) "could not insert object"
      return { s with
        invests := s.invests.orderedInsert (fun a b => a.key ≤ b.key) i
        nextInvest := s.nextInvest + 1 }

/-- `invest_evaluator::do_apply`. -/
def applyInvest (op : InvestOperation Name Permlink) (s : State Name Permlink) :
    Except String (State Name Permlink) := do
  match s.findCrowdfunding op.originator op.permlink with
  | none => .error "unknown key"
  | some c =>
      ensure (s.hasAccount op.invester) "unknown key"
      ensure (s.headBlockTime < c.expire) "Crowdfunding is complete."
      ensure (op.raise.amount ≤ s.balance op.invester)
        "Invester does not have sufficient funds for invest."
      ensure (c.curatorRaiseValue + op.raise.amount ≤ c.totalRaiseValue)
        "Invester does not have sufficient funds for invest."
      let s := (s.adjustBalance op.invester (-op.raise.amount)).record
        (.debit c.id op.invester op.raise.amount)
      recordInvest c op { s with
        crowdfundings := modifyFirst
          (fun d => d.originator = op.originator ∧ d.permlink = op.permlink)
          (fun d =>
            { d with
              curatorRaiseValue := d.curatorRaiseValue + op.raise.amount
              lastRaise := s.headBlockTime }) s.crowdfundings }

/-! ## `process_crowdfunding` -/

/-- The inner loop: every investment that has expired is paid back and
removed, from the first of the index on. -/
def refundLoop : List (CrowdfundingInvestObject Name) → State Name Permlink → State Name Permlink
  | [], s => s
  | i :: rest, s =>
      if s.headBlockTime < i.expire then s
      else
        refundLoop rest ({ s with invests := rest }.adjustBalance i.invester i.raise |>.record
          (.refund i.crowdfunding i.invester i.raise))

/-- The body of the outer loop for the first campaign `c` of the index. -/
def settle (c : CrowdfundingObject Name Permlink) (rest : List (CrowdfundingObject Name Permlink))
    (s : State Name Permlink) : State Name Permlink :=
  if c.curatorRaiseValue < c.totalRaiseValue then
    { refundLoop s.invests s with crowdfundings := { c with finish := 2 } :: rest }
  else
    { (s.adjustBalance c.originator c.curatorRaiseValue).record
        (.payout c.id c.originator c.curatorRaiseValue) with
      crowdfundings := { c with finish := 1 } :: rest }

/-- The outer loop. Every turn settles a campaign, so the number of campaigns
bounds the turns. -/
def processLoop : Nat → State Name Permlink → State Name Permlink
  | 0, s => s
  | fuel + 1, s =>
      match s.crowdfundings with
      | [] => s
      | c :: rest =>
          if s.headBlockTime < c.expire then s
          else if 0 < c.finish then s
          else processLoop fuel (s.settle c rest)

/-- `process_crowdfunding`. -/
def processCrowdfunding (s : State Name Permlink) : State Name Permlink :=
  processLoop (s.crowdfundings.length + 1) s

/-! ## Runs -/

end State

/-- A transaction with one operation, or a block. -/
inductive Step (Name : Type) (Permlink : Type) where
  | crowdfunding (op : CrowdfundingOperation Name Permlink)
  | invest (op : InvestOperation Name Permlink)
  | block (time : Nat)

namespace State

variable [DecidableEq Permlink]

/-- The state after an operation; one that throws changes nothing. -/
def attempt (s : State Name Permlink) : Except String (State Name Permlink) → State Name Permlink
  | .ok s' => s'
  | .error _ => s

/-- One step. The header of a block that is not newer than the head is refused. -/
def step (v : Validators Name Permlink) (s : State Name Permlink) :
    Step Name Permlink → State Name Permlink
  | .crowdfunding op => s.attempt do op.validate v; s.applyCrowdfunding v op
  | .invest op => s.attempt do op.validate v; s.applyInvest op
  | .block time =>
      if s.headBlockTime < time then { s with headBlockTime := time }.processCrowdfunding else s

def run (v : Validators Name Permlink) (s : State Name Permlink)
    (steps : List (Step Name Permlink)) :
    State Name Permlink :=
  steps.foldl (step v) s

/-- Before the first campaign. -/
structure Genesis (s : State Name Permlink) : Prop where
  crowdfundings : s.crowdfundings = []
  invests : s.invests = []
  ledger : s.ledger = []

end State

end Gamebank.Crowdfunding
