import Gamebank.Ledger.Vesting
import Gamebank.Ledger.WitnessSchedule

/-!
# Runs of the object database

A state of the database is reached from genesis by calls: the operations and
per-block routines that touch vesting shares, proxies, votes, delegations,
power-downs or the witness schedule, each with its arguments, and everything
else. A routine that loops over an index is a call for each object it
handles. A call that throws is undone, so it does not appear in a run.

`other` stands for what the remaining operations and routines do: transfers,
escrows, markets, comments and their rewards, inflation, header data of a
block. They leave alone what `SameStake` lists.
-/

namespace Gamebank.Ledger

open Gamebank.Lib Gamebank.Protocol

/-- What the other operations leave alone in an account. -/
def Account.stake (a : Account) : Account :=
  { Account.make a.name with
    proxy := a.proxy
    canVote := a.canVote
    vestingShares := a.vestingShares
    delegatedVestingShares := a.delegatedVestingShares
    receivedVestingShares := a.receivedVestingShares
    vestingWithdrawRate := a.vestingWithdrawRate
    nextVestingWithdrawal := a.nextVestingWithdrawal
    withdrawn := a.withdrawn
    toWithdraw := a.toWithdraw
    withdrawRoutes := a.withdrawRoutes
    proxiedVsfVotes := a.proxiedVsfVotes
    witnessesVotedFor := a.witnessesVotedFor }

/-- What the other operations leave alone in a witness. -/
def Witness.standing (w : Witness) : Witness :=
  { Witness.make w.id w.owner with
    powWorker := w.powWorker
    signingKey := w.signingKey
    votes := w.votes
    schedule := w.schedule
    virtualLastUpdate := w.virtualLastUpdate
    virtualPosition := w.virtualPosition
    virtualScheduledTime := w.virtualScheduledTime }

/-- What the other operations leave alone in the schedule. -/
def WitnessSchedule.standing (s : WitnessSchedule) : WitnessSchedule :=
  { s with medianProps := .initial }

namespace Database

/-- `t` is `s` as far as the calls that are modelled are concerned. -/
structure SameStake (s t : Database) : Prop where
  accounts : t.accounts.rows.map Account.stake = s.accounts.rows.map Account.stake
  witnesses : t.witnesses.rows.map Witness.standing = s.witnesses.rows.map Witness.standing
  nextWitness : t.witnesses.nextId = s.witnesses.nextId
  witnessVotes : t.witnessVotes = s.witnessVotes
  schedule : t.schedule.standing = s.schedule.standing
  totalVestingShares : t.props.totalVestingShares = s.props.totalVestingShares
  withdrawVestingRoutes : t.withdrawVestingRoutes = s.withdrawVestingRoutes
  vestingDelegations : t.vestingDelegations = s.vestingDelegations
  vestingDelegationExpirations : t.vestingDelegationExpirations = s.vestingDelegationExpirations
  declineVotingRightsRequests : t.declineVotingRightsRequests = s.declineVotingRightsRequests

/-- The state at another time. -/
def atTime (s : Database) (time : Nat) : Database :=
  { s with props := { s.props with time := time } }

/-! ## Genesis -/

/-- An account of `init_genesis`, after `perform_vesting_share_split` has
given every account a withdraw rate. -/
def genesisAccount (name : AccountName) (balance : Int) : Account :=
  { Account.make name with balance := balance, vestingWithdrawRate := 1 }

/-- The state after `init_genesis` and `apply_pre_genesis_patches`. Nobody has
vesting shares or votes yet, so the share split and the retallies find
nothing to do. -/
def genesis (initialSupply : Int) : Database where
  props :=
    { headBlockNumber := 0
      time := genesisTime
      currentWitness := initMinerName
      virtualSupply := initialSupply
      currentSupply := initialSupply
      currentGbdSupply := 0
      totalVestingFundGbc := 0
      totalVestingShares := 0
      totalRewardFundGbc := 0
      pendingRewardedVestingShares := 0
      pendingRewardedVestingGbc := 0
      gbdInterestRate := 0
      gbdPrintRate := hundredPercent
      votePowerReserveRate := 10
      delegationReturnPeriod := 604800
      maximumBlockSize := 393216000
      numPowWitnesses := 0 }
  hardfork01 := false
  headBlockId := 0
  currentMedianHistory := .empty
  hardforks := ⟨0, 0, 0⟩
  schedule := .initial
  accounts := ⟨4, [genesisAccount "miners" 0, genesisAccount nullAccount 0,
    genesisAccount tempAccount 0, genesisAccount initMinerName initialSupply]⟩
  witnesses := ⟨1, [{ Witness.make 0 initMinerName with signingKey := some 0, schedule := .miner }]⟩
  witnessVotes := []
  limitOrders := .empty
  escrows := .empty
  savingsWithdraws := .empty
  convertRequests := .empty
  withdrawVestingRoutes := .empty
  rewardFunds := ⟨1, [.post 0 genesisTime 0]⟩
  contracts := .empty
  contractUsers := .empty
  vestingDelegations := .empty
  vestingDelegationExpirations := .empty
  declineVotingRightsRequests := .empty
  comments := .empty
  commentContents := .empty
  commentVotes := []
  nonfungibleFunds := .empty
  nonfungibleFundsOnSale := .empty

end Database

/-! ## Calls -/

inductive Call where
  | createVesting (name : AccountName) (liquid : Asset)
  | transferToVesting (sender recipient : AccountName) (amount : Asset)
  | claimRewardBalance (account : AccountName) (rewardGbc rewardGbd rewardVests : Int)
  | withdrawVesting (account : AccountName) (vestingShares : Int)
  | setWithdrawVestingRoute (fromAccount toAccount : AccountName) (percent : Int) (autoVest : Bool)
  | processVestingWithdrawal (account : AccountName)
  | accountWitnessProxy (account proxy : AccountName)
  | accountWitnessVote (account witness : AccountName) (approve : Bool)
  | declineVotingRights (account : AccountName) (decline : Bool)
  | processDeclineVotingRights (account : AccountName)
  | delegateVestingShares (delegator delegatee : AccountName) (vestingShares : Int)
  | clearExpiredDelegation (id : Nat)
  | reclaimAccountCreationDelegation (id : Nat)
  | accountCreate (creator newAccountName : AccountName) (accountAuths : List AccountName)
      (fee : Int)
  | accountCreateWithDelegation (creator newAccountName : AccountName)
      (accountAuths : List AccountName) (fee delegation : Int)
  | createClaimedAccount (creator newAccountName : AccountName) (accountAuths : List AccountName)
  | clearNullAccountBalance
  | witnessUpdate (owner : AccountName) (key : Option Nat) (fee : Int)
      (maximumBlockSize gbdInterestRate : Nat)
  | witnessSetProperties (owner : AccountName) (key : Option Nat)
      (newSigningKey : Option (Option Nat)) (fee : Option Int)
      (maximumBlockSize gbdInterestRate accountSubsidyLimit : Option Nat)
  | recordMissedBlock (owner : AccountName)
  | updateWitnessSchedule
  | other

namespace Database

/-- What a call does; `other` is described by `Step` alone. -/
def perform (s : Database) : Call → Except String Database
  | .createVesting name liquid => s.createVesting name liquid
  | .transferToVesting sender recipient amount => s.transferToVesting sender recipient amount
  | .claimRewardBalance account gbc gbd vests => s.claimRewardBalance account gbc gbd vests
  | .withdrawVesting account shares => s.withdrawVesting account shares
  | .setWithdrawVestingRoute fromAccount toAccount percent autoVest =>
      s.setWithdrawVestingRoute fromAccount toAccount percent autoVest
  | .processVestingWithdrawal account => s.processVestingWithdrawal account
  | .accountWitnessProxy account proxy => s.accountWitnessProxy account proxy
  | .accountWitnessVote account witness approve => s.accountWitnessVote account witness approve
  | .declineVotingRights account decline => s.declineVotingRights account decline
  | .processDeclineVotingRights account => s.processDeclineVotingRights account
  | .delegateVestingShares delegator delegatee shares =>
      s.delegateVestingShares delegator delegatee shares
  | .clearExpiredDelegation id => s.clearExpiredDelegation id
  | .reclaimAccountCreationDelegation id => s.reclaimAccountCreationDelegation id
  | .accountCreate creator name auths fee => s.accountCreate creator name auths fee
  | .accountCreateWithDelegation creator name auths fee delegation =>
      s.accountCreateWithDelegation creator name auths fee delegation
  | .createClaimedAccount creator name auths => s.createClaimedAccount creator name auths
  | .clearNullAccountBalance => s.clearNullAccountBalance
  | .witnessUpdate owner key fee size rate => s.witnessUpdate owner key fee size rate
  | .witnessSetProperties owner key newKey fee size rate limit =>
      s.witnessSetProperties owner key newKey fee size rate limit
  | .recordMissedBlock owner => s.recordMissedBlock owner
  | .updateWitnessSchedule => s.updateWitnessSchedule
  | .other => .ok s

/-- A call leads from one state to the next. -/
inductive Step (s : Database) : Call → Database → Prop
  | call {c : Call} {t : Database} (h : s.perform c = .ok t) : Step s c t
  | other {t : Database} (h : SameStake s t) : Step s .other t

theorem atTime_sameStake (s : Database) (time : Nat) : SameStake s (s.atTime time) :=
  ⟨rfl, rfl, rfl, rfl, rfl, rfl, rfl, rfl, rfl, rfl⟩

theorem atTime_step (s : Database) (time : Nat) : Step s .other (s.atTime time) :=
  .other (atTime_sameStake s time)

/-- The states reached from genesis by calls that meet `C` where they are made. -/
inductive Reachable (C : Database → Call → Prop) : Database → Prop
  | genesis (initialSupply : Int) : Reachable C (Database.genesis initialSupply)
  | step {s t : Database} {c : Call} (hs : Reachable C s) (hc : C s c) (h : Step s c t) :
      Reachable C t

/-- Any call may be made. -/
def anyCall (_ : Database) (_ : Call) : Prop := True

/-- Fewer calls lead to fewer states. -/
theorem Reachable.mono {C C' : Database → Call → Prop} (hC : ∀ s c, C s c → C' s c) {s : Database}
    (h : Reachable C s) : Reachable C' s := by
  induction h with
  | genesis supply => exact .genesis supply
  | step hs hc hstep ih => exact .step ih (hC _ _ hc) hstep

/-- Calls made one after the other, as long as they meet `C`. -/
def run (C : Database → Call → Prop) [∀ s c, Decidable (C s c)] (s : Database) (calls : List Call) :
    Except String Database :=
  calls.foldlM (fun s c => do
    ensure (C s c) "the call does not meet the condition"
    s.perform c) s

instance (s : Database) (c : Call) : Decidable (anyCall s c) := inferInstanceAs (Decidable True)

theorem Reachable.run {C : Database → Call → Prop} [∀ s c, Decidable (C s c)] {s t : Database}
    (hs : Reachable C s) {calls : List Call} (h : Database.run C s calls = .ok t) :
    Reachable C t := by
  have hcalls : Returns (Database.run C s calls) (Reachable C) := by
    refine .foldlM hs fun u hu c _ => .ensure fun hc v hcall => ?_
    exact .step hu (of_decide_eq_true hc) (.call hcall)
  exact hcalls t h

theorem exists_run (C : Database → Call → Prop) [∀ s c, Decidable (C s c)] (s : Database)
    (calls : List Call) (P : Database → Bool) (h : (run C s calls).toOption.any P = true) :
    ∃ t, run C s calls = .ok t ∧ P t = true :=
  exists_of_any h

/-- **The rule for invariants.** -/
theorem Reachable.invariant {C : Database → Call → Prop} {I : Database → Prop}
    (hgenesis : ∀ supply, I (Database.genesis supply))
    (hcall : ∀ s t c, Reachable C s → I s → C s c → s.perform c = .ok t → I t)
    (hother : ∀ s t, I s → SameStake s t → I t) {s : Database} (h : Reachable C s) : I s := by
  induction h with
  | genesis supply => exact hgenesis supply
  | step hs hc hstep ih =>
      cases hstep with
      | call h => exact hcall _ _ _ hs ih hc h
      | other h => exact hother _ _ ih h

end Database

end Gamebank.Ledger
