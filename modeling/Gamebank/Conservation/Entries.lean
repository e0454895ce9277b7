import Gamebank.Ledger.Conversions
import Gamebank.Lib.DoubleEntry
import Gamebank.Lib.Keyed
import Gamebank.Stake.Rules
import Gamebank.Stake.Power
import Mathlib.Algebra.Group.Pi.Lemmas

/-!
# The books

`validate_invariants` adds up what the objects hold, and compares the sums
with the supplies in the global properties. A `Book` is one of the sums;
`excess` is what is held beyond the supply, in every book. Contracts hold GBC
too, but `validate_invariants` leaves them out.

Each function through which evaluators change balances enters an amount:
`Enters s t d`. A credit enters its amount, since no supply grows with it; a
change of the supply enters the opposite.

The GBC that is rewarded as vesting shares is counted where the accounts have
it. The global properties count it too, and not always the same: a reward that
comes to no shares is added to the liquid reward balance of the account, but
to the pending GBC of the global properties (`createRewardVesting_enters`).
-/

namespace Gamebank.Conservation

open Gamebank.Lib Gamebank.Protocol Gamebank.Ledger
open Gamebank.Ledger.Database (Edited OnlyVotes modifyAccount_spec modifyProps_spec require_eq_ok)

inductive Book where
  | gbc
  | gbd
  | shares
  | rewardShares
  | rewardGbc
deriving DecidableEq

/-- An amount in every book. -/
abbrev Entry := Book → Int

/-- An amount in one book. -/
def entry (b : Book) (amount : Int) : Entry := Pi.single b amount

theorem entry_apply (b c : Book) (amount : Int) :
    entry b amount c = if c = b then amount else 0 := by
  unfold entry
  rw [Pi.single_apply]

@[simp] theorem entry_zero (b : Book) : entry b 0 = 0 := Pi.single_zero b

theorem entry_add (b : Book) (x y : Int) : entry b (x + y) = entry b x + entry b y :=
  Pi.single_add (f := fun _ => Int) b x y

@[simp] theorem entry_neg (b : Book) (x : Int) : entry b (-x) = -entry b x :=
  Pi.single_neg (f := fun _ => Int) b x

theorem entry_sub (b : Book) (x y : Int) : entry b (x - y) = entry b x - entry b y :=
  Pi.single_sub (f := fun _ => Int) b x y

def bookOf : AssetSymbol → Book
  | .gbc => .gbc
  | .gbd => .gbd
  | .gbs => .shares

def assetEntry (a : Asset) : Entry := entry (bookOf a.symbol) a.amount

@[simp] theorem assetEntry_neg (a : Asset) : assetEntry (-a) = -assetEntry a := entry_neg _ _

@[simp] theorem assetEntry_gbc (x : Int) : assetEntry (.gbc x) = entry .gbc x := rfl

@[simp] theorem assetEntry_gbd (x : Int) : assetEntry (.gbd x) = entry .gbd x := rfl

@[simp] theorem assetEntry_gbs (x : Int) : assetEntry (.gbs x) = entry .shares x := rfl

/-! ## What the objects hold -/

def accountHolds (a : Account) : Entry
  | .gbc => a.balance + a.savingsBalance + a.rewardGbcBalance + a.rewardVestingGbc
  | .gbd => a.gbdBalance + a.savingsGbdBalance + a.rewardGbdBalance
  | .shares => a.vestingShares
  | .rewardShares => a.rewardVestingBalance
  | .rewardGbc => a.rewardVestingGbc

def orderHolds (o : LimitOrder) : Entry := assetEntry o.amountForSale

def escrowHolds (e : Escrow) : Entry :=
  entry .gbc e.gbcBalance + entry .gbd e.gbdBalance + assetEntry e.pendingFee

def withdrawHolds (r : SavingsWithdraw) : Entry := assetEntry r.amount

def requestHolds (r : ConvertRequest) : Entry := assetEntry r.amount

def fundHolds (f : RewardFund) : Entry := entry .gbc f.rewardBalance

def contractHolds (c : Contract) : Entry := entry .gbc c.balance

/-- The supplies, less the vesting fund, which belongs to all shares. -/
def supplies (p : GlobalProperties) : Entry
  | .gbc => p.currentSupply - p.totalVestingFundGbc - p.totalRewardFundGbc
  | .gbd => p.currentGbdSupply
  | .shares => p.totalVestingShares
  | .rewardShares => p.pendingRewardedVestingShares
  | .rewardGbc => p.pendingRewardedVestingGbc

/-- What is held beyond the supply. -/
def excess (s : Database) : Entry :=
  s.accounts.sum accountHolds + s.limitOrders.sum orderHolds + s.escrows.sum escrowHolds
    + s.savingsWithdraws.sum withdrawHolds + s.convertRequests.sum requestHolds
    + s.rewardFunds.sum fundHolds + s.contracts.sum contractHolds - supplies s.props

/-- The tables that only some evaluators change. -/
def sideTables (s : Database) : Table WithdrawVestingRoute × Table Escrow ×
    Table SavingsWithdraw × Table ConvertRequest × Table RewardFund :=
  (s.withdrawVestingRoutes, s.escrows, s.savingsWithdraws, s.convertRequests, s.rewardFunds)

/-- What a withdrawal is computed from is in range. -/
def InRange (a : Account) : Prop :=
  fitsInt64 a.vestingShares ∧ fitsInt64 a.vestingWithdrawRate ∧ fitsInt64 a.toWithdraw

theorem InRange.of_fits {a : Account} (h : a.fits = true) : InRange a := by
  simp only [Account.fits, List.all_cons, List.all_nil, Bool.and_true, Bool.and_eq_true] at h
  tauto

/-- What the books need of accounts and orders: an order never sells shares. -/
structure Fair (s : Database) : Prop where
  accounts : ∀ a ∈ s.accounts.rows, InRange a
  orders : ∀ o ∈ s.limitOrders.rows, o.sellPrice.base.symbol ≠ .gbs

/-- `t` is `s` with `d` entered. -/
structure Enters (s t : Database) (d : Entry) : Prop where
  excess : excess t = excess s + d
  fair : Fair s → Fair t
  tables : sideTables t = sideTables s

variable {s t u : Database} {d e : Entry} {name : AccountName} {a a' : Account}

theorem entering : Entering Enters where
  refl s := ⟨(add_zero _).symm, id, rfl⟩
  trans h h' := by
    refine ⟨?_, fun hs => h'.fair (h.fair hs), h'.tables.trans h.tables⟩
    rw [h'.excess, h.excess, add_assoc]

namespace Enters

theorem refl (s : Database) : Enters s s 0 := entering.refl s

theorem trans (h : Enters s t d) (h' : Enters t u e) : Enters s u (d + e) := entering.trans h h'

theorem of_eq (h : Enters s t d) (hd : d = e) : Enters s t e := hd ▸ h

/-- Nothing was held by what has changed. -/
theorem of_excess (hexcess : Conservation.excess t = Conservation.excess s + d)
    (hholders : (t.accounts, t.limitOrders) = (s.accounts, s.limitOrders))
    (htables : sideTables t = sideTables s) : Enters s t d := by
  rw [Prod.mk.injEq] at hholders
  refine ⟨hexcess, fun hs => ⟨?_, ?_⟩, htables⟩
  · rw [hholders.1]
    exact hs.accounts
  · rw [hholders.2]
    exact hs.orders

theorem of_same (hexcess : Conservation.excess t = Conservation.excess s)
    (hholders : (t.accounts, t.limitOrders) = (s.accounts, s.limitOrders))
    (htables : sideTables t = sideTables s) : Enters s t 0 :=
  of_excess (hexcess.trans (add_zero _).symm) hholders htables

theorem of_edited (he : Edited s t name a a') (h : accountHolds a' = accountHolds a + d) :
    Enters s t d := by
  refine ⟨?_, fun hs => ⟨fun b hb => ?_, ?_⟩, by rw [he.rest]; rfl⟩
  · have hsum : t.accounts.sum accountHolds = s.accounts.sum accountHolds + d := by
      have hreplaced := he.replaces.sum_map accountHolds
      rw [h, add_sub_cancel_left] at hreplaced
      exact hreplaced
    rw [Conservation.excess, hsum, he.rest, Conservation.excess]
    abel
  · obtain ⟨before, after, hold, hnew⟩ := he.replaces
    have haccounts := hs.accounts
    rw [hnew, List.mem_append, List.mem_cons] at hb
    rw [hold] at haccounts
    rcases hb with hb | rfl | hb
    · exact haccounts b (List.mem_append_left _ hb)
    · exact .of_fits he.fits
    · exact haccounts b (List.mem_append_right _ (List.mem_cons_of_mem a hb))
  · rw [he.rest]
    exact hs.orders

theorem of_props {p : GlobalProperties} (h : supplies p = supplies s.props - d) :
    Enters s { s with props := p } d := by
  refine of_excess ?_ rfl rfl
  rw [Conservation.excess, Conservation.excess, h]
  abel

end Enters

/-- The books are left alone. -/
abbrev Keeps (s t : Database) : Prop := Enters s t 0

theorem Keeps.trans (h : Keeps s t) (h' : Keeps t u) : Keeps s u :=
  (Enters.trans h h').of_eq (add_zero 0)

/-- Nothing was held by what had changed before. -/
theorem Keeps.after_same (h : Keeps t u) (hexcess : excess t = excess s)
    (hholders : (t.accounts, t.limitOrders) = (s.accounts, s.limitOrders))
    (htables : sideTables t = sideTables s) : Keeps s u :=
  Keeps.trans (.of_same hexcess hholders htables) h

theorem returns_of_eq {x : Except String Database} (h : Returns x fun t => Enters s t d)
    (hd : d = e) : Returns x fun t => Enters s t e :=
  h.mono fun _ ht => ht.of_eq hd

/-! ## Accounts and global properties -/

theorem modifyAccount_enters (s : Database) (name : AccountName) {f : Account → Account}
    (h : ∀ a, accountHolds (f a) = accountHolds a + d) :
    Returns (s.modifyAccount name f) fun t => Enters s t d :=
  (modifyAccount_spec s name f).mono fun _ ⟨a, he⟩ => .of_edited he (h a)

theorem modifyProps_enters (s : Database) {f : GlobalProperties → GlobalProperties}
    (h : supplies (f s.props) = supplies s.props - d) :
    Returns (s.modifyProps f) fun t => Enters s t d :=
  (modifyProps_spec s f).mono fun t ⟨_, ht⟩ => by
    rw [ht]
    exact .of_props h

theorem OnlyVotes.enters (h : OnlyVotes s t) : Enters s t 0 := by
  have horders : t.limitOrders = s.limitOrders := by rw [h.rest]
  have hfair : Fair s → Fair t := fun hs =>
    ⟨fun a ha => (h.fits a ha).elim (hs.accounts a) InRange.of_fits, horders ▸ hs.orders⟩
  refine ⟨?_, hfair, by rw [h.rest]; rfl⟩
  have hholds : ∀ a : Account, accountHolds a.withoutVotes = accountHolds a := fun _ => rfl
  have hsum : t.accounts.sum accountHolds = s.accounts.sum accountHolds := by
    have hmap : ∀ l : List Account, l.map accountHolds = (l.map Account.withoutVotes).map
        accountHolds := by
      intro l
      rw [List.map_map]
      exact List.map_congr_left fun a _ => (hholds a).symm
    unfold Table.sum
    rw [hmap, h.accounts, ← hmap]
  rw [excess, hsum, h.rest, add_zero]
  rfl

theorem adjustProxiedWitnessVotes_enters (s : Database) (name : AccountName) (x : Int) :
    Returns (s.adjustProxiedWitnessVotes name x) fun t => Enters s t 0 :=
  ((OnlyVotes.refl s).adjustProxiedWitnessVotes name x).mono fun _ ht => OnlyVotes.enters ht

/-! ## Interest -/

theorem accrue_notDue (now : Nat) (rate balance seconds : Int) (lastUpdate lastPayment : Nat) :
    Returns (accrue now rate balance seconds lastUpdate lastPayment) fun i =>
      i.due = false → i.interestPaid = 0 := by
  unfold accrue
  refine .ite (fun _ => .pure fun _ => rfl) fun _ => .ite (fun _ => .ensure fun _ => .pure ?_)
    fun _ => .pure fun _ => rfl
  intro hdue
  cases hdue

/-- Interest is added to the supply, and not yet to an account. -/
theorem payInterest_enters (s : Database) {i : Accrual} (hi : i.due = false → i.interestPaid = 0) :
    Returns (s.payInterest i) fun t => Enters s t (-entry .gbd i.interestPaid) := by
  unfold Database.payInterest
  refine .ite (fun _ => ?_) fun hdue => .ok ?_
  · refine .bind_any fun converted => .ensure fun _ => modifyProps_enters s ?_
    funext b
    cases b <;> simp [supplies, entry_apply]
  · rw [hi (by simpa using hdue), entry_zero, neg_zero]
    exact .refl s

/-! ## Balances -/

theorem modifyBalance_enters (s : Database) (name : AccountName) (delta : Asset) (check : Bool) :
    Returns (s.modifyBalance name delta check) fun t => Enters s t (assetEntry delta) := by
  obtain ⟨amount, symbol⟩ := delta
  unfold Database.modifyBalance
  refine .bind_any fun a => ?_
  cases symbol with
  | gbc =>
      refine .ensure fun _ => modifyAccount_enters s name fun a => ?_
      funext b
      cases b <;> simp [accountHolds, assetEntry, bookOf, entry_apply]
      omega
  | gbd =>
      refine .bind (accrue_notDue _ _ _ _ _ _) fun i hi => ?_
      refine .bind (payInterest_enters s hi) fun t ht => .ensure fun _ => ?_
      have hcredit : ∀ a : Account, accountHolds { a with
          gbdSeconds := i.seconds, gbdSecondsLastUpdate := i.lastUpdate,
          gbdLastInterestPayment := i.lastInterestPayment,
          gbdBalance := a.gbdBalance + i.interestPaid + amount } =
            accountHolds a + (entry .gbd i.interestPaid + entry .gbd amount) := by
        intro a
        funext b
        cases b <;> simp [accountHolds, entry_apply]
        omega
      refine (modifyAccount_enters t name hcredit).mono fun u hu => (ht.trans hu).of_eq ?_
      exact neg_add_cancel_left _ _
  | gbs =>
      refine .ensure fun _ => modifyAccount_enters s name fun a => ?_
      funext b
      cases b <;> simp [accountHolds, assetEntry, bookOf, entry_apply]

theorem adjustBalance_enters (s : Database) (name : AccountName) (delta : Asset) :
    Returns (s.adjustBalance name delta) fun t => Enters s t (assetEntry delta) :=
  modifyBalance_enters s name delta _

theorem adjustSavingsBalance_enters (s : Database) (name : AccountName) (delta : Asset) :
    Returns (s.adjustSavingsBalance name delta) fun t => Enters s t (assetEntry delta) := by
  obtain ⟨amount, symbol⟩ := delta
  unfold Database.adjustSavingsBalance
  refine .bind_any fun a => ?_
  cases symbol with
  | gbc =>
      refine .ensure fun _ => modifyAccount_enters s name fun a => ?_
      funext b
      cases b <;> simp [accountHolds, assetEntry, bookOf, entry_apply]
      omega
  | gbd =>
      refine .bind (accrue_notDue _ _ _ _ _ _) fun i hi => ?_
      refine .bind (payInterest_enters s hi) fun t ht => .ensure fun _ => ?_
      have hcredit : ∀ a : Account, accountHolds { a with
          savingsGbdSeconds := i.seconds, savingsGbdSecondsLastUpdate := i.lastUpdate,
          savingsGbdLastInterestPayment := i.lastInterestPayment,
          savingsGbdBalance := a.savingsGbdBalance + i.interestPaid + amount } =
            accountHolds a + (entry .gbd i.interestPaid + entry .gbd amount) := by
        intro a
        funext b
        cases b <;> simp [accountHolds, entry_apply]
        omega
      refine (modifyAccount_enters t name hcredit).mono fun u hu => (ht.trans hu).of_eq ?_
      exact neg_add_cancel_left _ _
  | gbs => exact .error

/-- What a reward balance is credited with. -/
def rewardEntry (value share : Asset) : Entry :=
  assetEntry value + entry .rewardShares share.amount +
    if share.amount = 0 then 0 else entry .rewardGbc value.amount

theorem adjustRewardBalance_enters (s : Database) (name : AccountName) (value share : Asset) :
    Returns (s.adjustRewardBalance name value share) fun t =>
      Enters s t (rewardEntry value share) := by
  obtain ⟨amount, symbol⟩ := value
  unfold Database.adjustRewardBalance Database.modifyRewardBalance rewardEntry
  refine .ensure fun _ => .bind_any fun a => ?_
  cases symbol with
  | gbc =>
      refine .ite (fun hzero => .ensure fun _ => modifyAccount_enters s name fun a => ?_)
        fun hshare => .ensure fun _ => modifyAccount_enters s name fun a => ?_
      · rw [if_pos hzero, hzero]
        funext b
        cases b <;> simp [accountHolds, assetEntry, bookOf, entry_apply]
        omega
      · rw [if_neg hshare]
        funext b
        cases b <;> simp [accountHolds, assetEntry, bookOf, entry_apply]
        omega
  | gbd =>
      refine .ensure fun hzero => .ensure fun _ => modifyAccount_enters s name fun a => ?_
      have hnone : share.amount = 0 := of_decide_eq_true hzero
      rw [if_pos hnone, hnone]
      funext b
      cases b <;> simp [accountHolds, assetEntry, bookOf, entry_apply]
      omega
  | gbs => exact .error

theorem adjustContractBalance_enters (s : Database) (name : AccountName) (delta : Asset) :
    Returns (s.adjustContractBalance name delta) fun t => Enters s t (assetEntry delta) := by
  obtain ⟨amount, symbol⟩ := delta
  unfold Database.adjustContractBalance
  refine .bind_eq fun c hc => ?_
  cases symbol with
  | gbc =>
      refine .ensure fun _ => .pure (.of_excess ?_ rfl rfl)
      have hfound : s.contracts.find? (fun c => c.name = name) = some c := require_eq_ok.mp hc
      simp only [excess, Table.sum_modify hfound, contractHolds, entry_add, assetEntry_gbc,
        add_sub_cancel_left, show (⟨amount, .gbc⟩ : Asset) = .gbc amount from rfl]
      abel
  | gbd => exact .error
  | gbs => exact .error

/-! ## Supplies -/

/-- What is added to the supply is held by nobody yet. -/
theorem adjustSupply_enters (s : Database) (delta : Asset) (adjustVesting : Bool) :
    Returns (s.adjustSupply delta adjustVesting) fun t => Enters s t (-assetEntry delta) := by
  obtain ⟨amount, symbol⟩ := delta
  unfold Database.adjustSupply
  cases symbol with
  | gbc =>
      refine .ensure fun _ => modifyProps_enters s ?_
      funext b
      cases b <;> simp [supplies, assetEntry, bookOf, entry_apply]
      omega
  | gbd =>
      refine .bind_any fun converted => .ensure fun _ => .ensure fun _ => modifyProps_enters s ?_
      funext b
      cases b <;> simp [supplies, assetEntry, bookOf, entry_apply]
  | gbs => exact .error

/-! ## Vesting shares -/

theorem accountHolds_addShares (a : Account) (shares : Int) :
    accountHolds { a with vestingShares := a.vestingShares + shares } =
      accountHolds a + entry .shares shares := by
  funext b
  cases b <;> simp [accountHolds, entry_apply]

/-- Shares go, and take what they are worth out of the vesting fund. -/
theorem supplies_removeShares (p : GlobalProperties) (shares gbc : Int) :
    supplies { p with
      totalVestingFundGbc := p.totalVestingFundGbc - gbc
      totalVestingShares := p.totalVestingShares - shares } =
        supplies p - (entry .shares shares - entry .gbc gbc) := by
  funext b
  cases b <;> simp [supplies, entry_apply]
  omega

theorem createVesting_enters (s : Database) (name : AccountName) (liquid : Asset) :
    Returns (s.createVesting name liquid) fun t => Enters s t (assetEntry liquid) := by
  refine Database.createVesting_cases s name liquid fun _ shares _ _ hsymbol t a he u hu => ?_
  have hprops : t.props = s.props := by rw [he.rest]
  have hentry : assetEntry liquid = entry .gbc liquid.amount := by
    rw [Asset.eq_gbc hsymbol]
    rfl
  have hfund : Enters t u (assetEntry liquid - entry .shares shares.amount) := by
    rw [hu, ← hprops, hentry]
    refine .of_props ?_
    funext b
    cases b <;> simp [supplies, entry_apply]
    omega
  have hshares : Enters s t (entry .shares shares.amount) :=
    .of_edited he (accountHolds_addShares a shares.amount)
  have hcreated := (hshares.trans hfund).of_eq (add_sub_cancel _ _)
  refine (adjustProxiedWitnessVotes_enters u name shares.amount).mono fun v hv => ?_
  exact (hcreated.trans hv).of_eq (add_zero _)

/-- A reward that comes to no shares is missing from the books: the accounts do
not have it as GBC behind shares. -/
theorem createRewardVesting_enters (s : Database) (name : AccountName) (x : Int) :
    Returns (s.createRewardVesting name (.gbc x)) fun t =>
      ∃ lost, Enters s t (entry .gbc x + entry .rewardGbc lost) := by
  unfold Database.createRewardVesting
  refine .ensure fun _ => .bind_any fun price => .bind_any fun shares => ?_
  refine .bind (adjustRewardBalance_enters s name _ shares) fun t ht => ?_
  have hpending : ∀ p : GlobalProperties, supplies { p with
      pendingRewardedVestingShares := p.pendingRewardedVestingShares + shares.amount
      pendingRewardedVestingGbc := p.pendingRewardedVestingGbc + (Asset.gbc x).amount } =
        supplies p - -(entry .rewardShares shares.amount + entry .rewardGbc x) := by
    intro p
    funext b
    cases b <;> simp [supplies, entry_apply, Asset.gbc]
  refine (modifyProps_enters t (hpending t.props)).mono fun u hu =>
    ⟨if shares.amount = 0 then -x else 0, (ht.trans hu).of_eq ?_⟩
  unfold rewardEntry
  split
  · rw [assetEntry_gbc, entry_neg]
    abel
  · rw [assetEntry_gbc, entry_zero]
    show _ + entry .rewardGbc x + _ = _
    abel

end Gamebank.Conservation
