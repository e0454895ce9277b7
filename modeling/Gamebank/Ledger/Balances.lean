import Gamebank.Ledger.Objects

/-!
# Balances

The functions of `database.cpp` through which evaluators and the routines of
a block change balances, supplies and witness votes: `modify_balance`,
`modify_reward_balance`, `adjust_savings_balance`, `adjust_contract_balance`,
`adjust_supply`, `create_vesting` and `adjust_proxied_witness_votes`.

Virtual operations only notify plugins and are left out. `create_vesting`
returns the new shares for such a notification, so here it returns nothing.
-/

namespace Gamebank.Ledger

open Gamebank.Lib Gamebank.Protocol

/-! ## Interest -/

/-- `GAMEBANK_SECONDS_PER_YEAR`. -/
def secondsPerYear : Int := 31536000

/-- `GAMEBANK_GBD_INTEREST_COMPOUND_INTERVAL_SEC`. -/
def interestCompoundInterval : Nat := 2592000

/-- What is written back when interest on a GBD balance is accrued. -/
structure Accrual where
  due : Bool
  interestPaid : Int
  seconds : Int
  lastUpdate : Nat
  lastInterestPayment : Nat

/-- The part of `modify_balance` and of `adjust_savings_balance` that accrues
interest on `balance` since `lastUpdate`. -/
def accrue (now : Nat) (interestRate balance seconds : Int) (lastUpdate lastInterestPayment : Nat) :
    Except String Accrual := do
  if lastUpdate = now then
    return ⟨false, 0, seconds, lastUpdate, lastInterestPayment⟩
  else
    let seconds := toUInt128 (seconds +
      toUInt128 (toUInt128 balance * toUInt128 ((now : Int) - lastUpdate)))
    if 0 < seconds ∧ (interestCompoundInterval : Int) < (now : Int) - lastInterestPayment then
      let interest := toUInt128 (seconds / secondsPerYear * interestRate) / hundredPercent
      ensure (interest < 18446744073709551616) "hi == 0"
      return ⟨true, toInt64 interest, 0, now, now⟩
    else
      return ⟨false, 0, seconds, now, lastInterestPayment⟩

/-- The number `votes + 1` by which a lap is divided; of type `int64_t`. -/
def votesPlusOne (votes : Int) : Int := toUInt128 (toInt64 (toUInt64 (votes + 1)))

/-- What `adjust_witness_vote` writes: the witness has moved on at the speed of
its old votes, and its lap ends at the time its new votes give. -/
def Witness.moveVotes (now delta : Int) (w : Witness) : Witness :=
  let position := toUInt128 (w.virtualPosition +
    toUInt128 (toUInt128 w.votes * toUInt128 (now - w.virtualLastUpdate)))
  let votes := w.votes + delta
  let scheduled := toUInt128 (now + toUInt128 (maxUInt128 - position) / votesPlusOne votes)
  { w with
    virtualPosition := position
    virtualLastUpdate := now
    votes := votes
    virtualScheduledTime := if scheduled < now then maxUInt128 else scheduled }

namespace Database

/-- Interest enters the supplies. -/
def payInterest (s : Database) (i : Accrual) : Except String Database :=
  if i.due then do
    let converted ← (Asset.gbd i.interestPaid).times s.currentMedianHistory
    ensure (converted.symbol = .gbc) "symbol == o.symbol"
    s.modifyProps fun p =>
      { p with
        currentGbdSupply := p.currentGbdSupply + i.interestPaid
        virtualSupply := p.virtualSupply + converted.amount }
  else .ok s

/-! ## Balances of an account -/

/-- `modify_balance`. -/
def modifyBalance (s : Database) (name : AccountName) (delta : Asset) (checkBalance : Bool) :
    Except String Database := do
  let a ← s.getAccount name
  match delta.symbol with
  | .gbc =>
      ensure (!checkBalance || 0 ≤ a.balance + delta.amount) "Insufficient GBC funds"
      s.modifyAccount name fun a => { a with balance := a.balance + delta.amount }
  | .gbd =>
      let i ← accrue s.headBlockTime s.props.gbdInterestRate a.gbdBalance a.gbdSeconds
        a.gbdSecondsLastUpdate a.gbdLastInterestPayment
      let s ← s.payInterest i
      ensure (!checkBalance || 0 ≤ a.gbdBalance + i.interestPaid + delta.amount)
        "Insufficient GBD funds"
      s.modifyAccount name fun a =>
        { a with
          gbdSeconds := i.seconds
          gbdSecondsLastUpdate := i.lastUpdate
          gbdLastInterestPayment := i.lastInterestPayment
          gbdBalance := a.gbdBalance + i.interestPaid + delta.amount }
  | .gbs =>
      ensure (!checkBalance || 0 ≤ a.vestingShares + delta.amount) "Insufficient GBS funds"
      s.modifyAccount name fun a => { a with vestingShares := a.vestingShares + delta.amount }

/-- `adjust_balance`. -/
def adjustBalance (s : Database) (name : AccountName) (delta : Asset) : Except String Database :=
  s.modifyBalance name delta s.hardfork01

/-- `modify_reward_balance`. -/
def modifyRewardBalance (s : Database) (name : AccountName) (valueDelta shareDelta : Asset)
    (checkBalance : Bool) : Except String Database := do
  let a ← s.getAccount name
  match valueDelta.symbol with
  | .gbc =>
      if shareDelta.amount = 0 then
        ensure (!checkBalance || 0 ≤ a.rewardGbcBalance + valueDelta.amount)
          "Insufficient reward GBC funds"
        s.modifyAccount name fun a =>
          { a with rewardGbcBalance := a.rewardGbcBalance + valueDelta.amount }
      else
        ensure (!checkBalance || 0 ≤ a.rewardVestingBalance + shareDelta.amount)
          "Insufficient reward GBS funds"
        s.modifyAccount name fun a =>
          { a with
            rewardVestingGbc := a.rewardVestingGbc + valueDelta.amount
            rewardVestingBalance := a.rewardVestingBalance + shareDelta.amount }
  | .gbd =>
      ensure (shareDelta.amount = 0) "share_delta.amount.value == 0"
      ensure (!checkBalance || 0 ≤ a.rewardGbdBalance + valueDelta.amount)
        "Insufficient reward GBD funds"
      s.modifyAccount name fun a =>
        { a with rewardGbdBalance := a.rewardGbdBalance + valueDelta.amount }
  | .gbs => .error "invalid symbol"

/-- `adjust_reward_balance`. -/
def adjustRewardBalance (s : Database) (name : AccountName) (valueDelta shareDelta : Asset) :
    Except String Database := do
  ensure (!valueDelta.symbol.isVesting && shareDelta.symbol.isVesting) "is_vesting"
  s.modifyRewardBalance name valueDelta shareDelta s.hardfork01

/-- `adjust_savings_balance`. -/
def adjustSavingsBalance (s : Database) (name : AccountName) (delta : Asset) :
    Except String Database := do
  let a ← s.getAccount name
  match delta.symbol with
  | .gbc =>
      ensure (!s.hardfork01 || 0 ≤ a.savingsBalance + delta.amount) "Insufficient savings GBC funds"
      s.modifyAccount name fun a => { a with savingsBalance := a.savingsBalance + delta.amount }
  | .gbd =>
      let i ← accrue s.headBlockTime s.props.gbdInterestRate a.savingsGbdBalance a.savingsGbdSeconds
        a.savingsGbdSecondsLastUpdate a.savingsGbdLastInterestPayment
      let s ← s.payInterest i
      ensure (!s.hardfork01 || 0 ≤ a.savingsGbdBalance + i.interestPaid + delta.amount)
        "Insufficient savings GBD funds"
      s.modifyAccount name fun a =>
        { a with
          savingsGbdSeconds := i.seconds
          savingsGbdSecondsLastUpdate := i.lastUpdate
          savingsGbdLastInterestPayment := i.lastInterestPayment
          savingsGbdBalance := a.savingsGbdBalance + i.interestPaid + delta.amount }
  | .gbs => .error "invalid symbol"

/-- `get_balance`. -/
def getBalance (s : Database) (name : AccountName) (symbol : AssetSymbol) : Except String Int := do
  let a ← s.getAccount name
  match symbol with
  | .gbc => return a.balance
  | .gbd => return a.gbdBalance
  | .gbs => .error "invalid symbol"

/-- `get_savings_balance`. -/
def getSavingsBalance (s : Database) (name : AccountName) (symbol : AssetSymbol) :
    Except String Int := do
  let a ← s.getAccount name
  match symbol with
  | .gbc => return a.savingsBalance
  | .gbd => return a.savingsGbdBalance
  | .gbs => .error "invalid symbol"

/-! ## Contracts -/

/-- `get_contract`. -/
def getContract (s : Database) (name : AccountName) : Except String Contract :=
  require (s.contracts.find? fun c => c.name = name)

/-- `adjust_contract_balance`. -/
def adjustContractBalance (s : Database) (name : AccountName) (delta : Asset) :
    Except String Database := do
  let c ← s.getContract name
  match delta.symbol with
  | .gbc =>
      ensure (fitsInt64 (c.balance + delta.amount)) "overflow"
      return { s with
        contracts := s.contracts.modify (fun c => c.name = name) fun c =>
          { c with balance := c.balance + delta.amount } }
  | _ => .error "invalid symbol"

/-- `get_contract_balance`. -/
def getContractBalance (s : Database) (name : AccountName) (symbol : AssetSymbol) :
    Except String Int := do
  let c ← s.getContract name
  match symbol with
  | .gbc => return c.balance
  | _ => .error "invalid symbol"

/-! ## Supplies -/

/-- `GAMEBANK_BLOCKS_PER_DAY`. -/
def blocksPerDay : Nat := 28800

/-- `adjust_supply`. -/
def adjustSupply (s : Database) (delta : Asset) (adjustVesting : Bool) : Except String Database :=
  match delta.symbol with
  | .gbc => do
      let adjustVesting := adjustVesting && !decide (s.props.headBlockNumber < blocksPerDay * 7)
      let newVesting := if adjustVesting ∧ 0 < delta.amount then delta.amount * 9 else 0
      ensure (!s.hardfork01 || 0 ≤ s.props.currentSupply + (delta.amount + newVesting))
        "props.current_supply.amount.value >= 0"
      s.modifyProps fun p =>
        { p with
          currentSupply := p.currentSupply + (delta.amount + newVesting)
          virtualSupply := p.virtualSupply + (delta.amount + newVesting)
          totalVestingFundGbc := p.totalVestingFundGbc + newVesting }
  | .gbd => do
      let gbdSupply := s.props.currentGbdSupply + delta.amount
      let converted ← (Asset.gbd gbdSupply).times s.currentMedianHistory
      ensure (converted.symbol = .gbc) "a.symbol == b.symbol"
      ensure (!s.hardfork01 || 0 ≤ gbdSupply) "props.current_gbd_supply.amount.value >= 0"
      s.modifyProps fun p =>
        { p with
          currentGbdSupply := p.currentGbdSupply + delta.amount
          virtualSupply := converted.amount + p.currentSupply }
  | .gbs => .error "invalid symbol"

/-! ## Witness votes -/

/-- `GAMEBANK_MAX_PROXY_RECURSION_DEPTH`. -/
def maxProxyRecursionDepth : Nat := 4

/-- `get_witness`. -/
def getWitness (s : Database) (owner : AccountName) : Except String Witness :=
  require (s.witnesses.find? fun w => w.owner = owner)

/-- `modify` of a witness. -/
def modifyWitness (s : Database) (owner : AccountName) (f : Witness → Witness) : Database :=
  { s with witnesses := s.witnesses.modify (fun w => w.owner = owner) f }

/-- `adjust_witness_vote`. -/
def adjustWitnessVote (s : Database) (owner : AccountName) (delta : Int) :
    Except String Database := do
  let w ← s.getWitness owner
  let votes := w.votes + delta
  ensure (fitsInt64 votes) "overflow"
  ensure (votes ≤ s.props.totalVestingShares) ""
  ensure (votes ≠ -1) "division by zero"
  return s.modifyWitness owner (Witness.moveVotes s.schedule.currentVirtualTime delta)

/-- `adjust_witness_votes`; every object is for another witness, so the order
does not matter. -/
def adjustWitnessVotes (s : Database) (name : AccountName) (delta : Int) : Except String Database :=
  (s.witnessVotes.filter fun v => v.account = name).foldlM
    (fun s v => s.adjustWitnessVote v.witness delta) s

/-- The amounts of `delta` are added to the proxied votes, shifted by `depth`. -/
def addShifted (votes : Vector Int 4) (depth : Nat) (delta : Nat → Int) : Vector Int 4 :=
  Vector.ofFn fun i => if depth ≤ i.val then votes[i] + delta (i.val - depth) else votes[i]

/-- The sum of the amounts `0` to `last`. -/
def sumUpTo (delta : Nat → Int) : Nat → Int
  | 0 => delta 0
  | last + 1 => sumUpTo delta last + delta (last + 1)

/-- `adjust_proxied_witness_votes` of an array, with `remaining` links of the
chain of proxies still to follow: `depth` is `4 - remaining`. -/
def adjustProxiedBy : Nat → Database → AccountName → (Nat → Int) → Except String Database
  | remaining, s, name, delta => do
      let a ← s.getAccount name
      if a.proxy ≠ proxyToSelfAccount then
        match remaining with
        | 0 => return s
        | remaining + 1 =>
            let s ← s.modifyAccount a.proxy fun p =>
              { p with
                proxiedVsfVotes :=
                  addShifted p.proxiedVsfVotes (maxProxyRecursionDepth - (remaining + 1)) delta }
            adjustProxiedBy remaining s a.proxy delta
      else
        s.adjustWitnessVotes name (sumUpTo delta remaining)

/-- `adjust_proxied_witness_votes` of one amount. -/
def adjustProxied : Nat → Database → AccountName → Int → Except String Database
  | remaining, s, name, delta => do
      let a ← s.getAccount name
      if a.proxy ≠ proxyToSelfAccount then
        match remaining with
        | 0 => return s
        | remaining + 1 =>
            let depth := maxProxyRecursionDepth - (remaining + 1)
            let s ← s.modifyAccount a.proxy fun p =>
              { p with
                proxiedVsfVotes := Vector.ofFn fun i =>
                  if i.val = depth then p.proxiedVsfVotes[i] + delta else p.proxiedVsfVotes[i] }
            adjustProxied remaining s a.proxy delta
      else s.adjustWitnessVotes name delta

/-- `adjust_proxied_witness_votes` from the account itself. -/
def adjustProxiedWitnessVotes (s : Database) (name : AccountName) (delta : Int) :
    Except String Database :=
  adjustProxied maxProxyRecursionDepth s name delta

/-! ## Vesting -/

/-- `create_vesting` to the vesting shares of the account. -/
def createVesting (s : Database) (name : AccountName) (liquid : Asset) :
    Except String Database := do
  ensure (liquid.symbol = .gbc) "liquid.symbol == GBC_SYMBOL"
  let price ← s.props.getVestingSharePrice
  let newVesting ← liquid.times price
  let s ← s.adjustBalance name newVesting
  let s ← s.modifyProps fun p =>
    { p with
      totalVestingFundGbc := p.totalVestingFundGbc + liquid.amount
      totalVestingShares := p.totalVestingShares + newVesting.amount }
  s.adjustProxiedWitnessVotes name newVesting.amount

/-- `create_vesting` to the reward balance of the account. -/
def createRewardVesting (s : Database) (name : AccountName) (liquid : Asset) :
    Except String Database := do
  ensure (liquid.symbol = .gbc) "liquid.symbol == GBC_SYMBOL"
  let price ← s.props.getRewardVestingSharePrice
  let newVesting ← liquid.times price
  let s ← s.adjustRewardBalance name liquid newVesting
  s.modifyProps fun p =>
    { p with
      pendingRewardedVestingShares := p.pendingRewardedVestingShares + newVesting.amount
      pendingRewardedVestingGbc := p.pendingRewardedVestingGbc + liquid.amount }

end Database

end Gamebank.Ledger
