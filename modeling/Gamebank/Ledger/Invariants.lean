import Gamebank.Ledger.Objects
import Mathlib.Data.List.Sort

/-!
# Sums made anew

`validate_invariants`: a node that is told to runs it when it opens its
database. It adds up what the objects hold and compares the sums with the
global properties.
-/

namespace Gamebank.Ledger

open Gamebank.Lib Gamebank.Protocol

/-- `+=` of a `share_type`. -/
def checkedAdd (a b : Int) : Except String Int := do
  ensure (fitsInt64 (a + b)) "overflow"
  return a + b

theorem checkedAdd_eq (a b : Int) : Returns (checkedAdd a b) fun c => c = a + b :=
  .ensure fun _ => .pure rfl

theorem checkedAdds_eq (l : List Int) (a : Int) :
    Returns (l.foldlM checkedAdd a) fun c => c = a + sumOf id l := by
  induction l generalizing a with
  | nil => exact .pure (Int.add_zero a).symm
  | cons b rest ih =>
      rw [List.foldlM_cons]
      refine .bind (checkedAdd_eq a b) fun c hc => (ih c).mono fun e he => ?_
      rw [he, hc, sumOf_cons, Int.add_assoc]
      rfl

/-- `witness_vote_weight`, with its assertions. -/
def checkedWeight (a : Account) : Except String Int :=
  a.proxiedVsfVotes.toList.foldlM checkedAdd a.vestingShares

/-! ## The check of the supplies -/

/-- What has been added up so far. -/
structure Totals where
  totalSupply : Int
  totalGbd : Int
  totalVesting : Int
  pendingVestingGbc : Int
  totalVsfVotes : Int
deriving DecidableEq

namespace Totals

def zero : Totals := ⟨0, 0, 0, 0, 0⟩

/-- What an account adds to the votes: the votes it casts itself, or those of
the deepest level it cannot hand on. -/
def vsfVotes (a : Account) : Except String Int :=
  if a.proxy = proxyToSelfAccount then checkedWeight a else .ok (a.proxiedVsfVotes.get 3)

def addAccount (x : Totals) (a : Account) : Except String Totals := do
  let totalSupply ←
    [a.balance, a.savingsBalance, a.rewardGbcBalance].foldlM checkedAdd x.totalSupply
  let totalGbd ←
    [a.gbdBalance, a.savingsGbdBalance, a.rewardGbdBalance].foldlM checkedAdd x.totalGbd
  let totalVesting ← [a.vestingShares, a.rewardVestingBalance].foldlM checkedAdd x.totalVesting
  let pendingVestingGbc ← checkedAdd x.pendingVestingGbc a.rewardVestingGbc
  let votes ← vsfVotes a
  let totalVsfVotes ← checkedAdd x.totalVsfVotes votes
  return ⟨totalSupply, totalGbd, totalVesting, pendingVestingGbc, totalVsfVotes⟩

/-- An amount in GBC or GBD. -/
def addAmount (illegal : Except String Totals) (x : Totals) (a : Asset) : Except String Totals :=
  match a.symbol with
  | .gbc => do
      let totalSupply ← checkedAdd x.totalSupply a.amount
      return { x with totalSupply := totalSupply }
  | .gbd => do
      let totalGbd ← checkedAdd x.totalGbd a.amount
      return { x with totalGbd := totalGbd }
  | .gbs => illegal

def addConvertRequest (x : Totals) (r : ConvertRequest) : Except String Totals :=
  addAmount (.error "Encountered illegal symbol in convert_request_object") x r.amount

/-- An order in anything else is left out. -/
def addLimitOrder (x : Totals) (o : LimitOrder) : Except String Totals :=
  addAmount (.ok x) x o.amountForSale

def addEscrow (x : Totals) (e : Escrow) : Except String Totals := do
  let totalSupply ← checkedAdd x.totalSupply e.gbcBalance
  let totalGbd ← checkedAdd x.totalGbd e.gbdBalance
  addAmount (.error "found escrow pending fee that is not GBD or GBC")
    { x with totalSupply := totalSupply, totalGbd := totalGbd } e.pendingFee

def addSavingsWithdraw (x : Totals) (r : SavingsWithdraw) : Except String Totals :=
  addAmount (.error "found savings withdraw that is not GBD or GBC") x r.amount

def addRewardFund (x : Totals) (f : RewardFund) : Except String Totals := do
  let totalSupply ← checkedAdd x.totalSupply f.rewardBalance
  return { x with totalSupply := totalSupply }

end Totals

namespace Database

/-- The first part of `validate_invariants`: the sums. The accounts come in
the order of `by_name`. -/
def addUp (s : Database) : Except String Totals := do
  let accounts := s.accounts.rows.insertionSort fun a b => a.name ≤ b.name
  let x ← accounts.foldlM Totals.addAccount .zero
  let x ← s.convertRequests.rows.foldlM Totals.addConvertRequest x
  let x ← s.limitOrders.rows.foldlM Totals.addLimitOrder x
  let x ← s.escrows.rows.foldlM Totals.addEscrow x
  let x ← s.savingsWithdraws.rows.foldlM Totals.addSavingsWithdraw x
  let x ← s.rewardFunds.rows.foldlM Totals.addRewardFund x
  let funds ← [s.props.totalRewardFundGbc, s.props.pendingRewardedVestingGbc].foldlM checkedAdd
    s.props.totalVestingFundGbc
  let totalSupply ← checkedAdd x.totalSupply funds
  return { x with totalSupply := totalSupply }

/-- `validate_invariants`. -/
def validateInvariants (s : Database) : Except String Unit := do
  ensure (s.witnesses.rows.all fun w => w.votes ≤ s.props.totalVestingShares)
    "itr->votes <= gpo.total_vesting_shares.amount"
  let x ← s.addUp
  ensure (s.props.currentSupply = x.totalSupply) "gpo.current_supply == total_supply"
  ensure (s.props.currentGbdSupply = x.totalGbd) "gpo.current_gbd_supply == total_gbd"
  let vesting ← checkedAdd s.props.totalVestingShares s.props.pendingRewardedVestingShares
  ensure (vesting = x.totalVesting)
    "gpo.total_vesting_shares + gpo.pending_rewarded_vesting_shares == total_vesting"
  ensure (s.props.totalVestingShares = x.totalVsfVotes)
    "gpo.total_vesting_shares.amount == total_vsf_votes"
  ensure (s.props.pendingRewardedVestingGbc = x.pendingVestingGbc)
    "gpo.pending_rewarded_vesting_gbc == pending_vesting_gbc"
  ensure (s.props.currentSupply ≤ s.props.virtualSupply)
    "gpo.virtual_supply >= gpo.current_supply"
  if s.currentMedianHistory.isNull then return ()
  else
    let worth ← (Asset.gbd s.props.currentGbdSupply).times s.currentMedianHistory
    ensure (worth.symbol = .gbc) "a.symbol == b.symbol"
    let virtualSupply ← checkedAdd worth.amount s.props.currentSupply
    ensure (virtualSupply = s.props.virtualSupply)
      ("gpo.current_gbd_supply * get_feed_history().current_median_history + " ++
        "gpo.current_supply == gpo.virtual_supply")

end Database

end Gamebank.Ledger
