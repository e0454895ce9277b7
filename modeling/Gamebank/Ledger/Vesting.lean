import Gamebank.Ledger.Voting

/-!
# Vesting shares: powering up and down, delegation, account creation

The evaluators and per-block routines that change vesting shares and what is
promised of them: `transfer_to_vesting`, `claim_reward_balance`,
`withdraw_vesting` with its routes and `process_vesting_withdrawals`,
`delegate_vesting_shares` with the return of delegations, the creation of
accounts, and `clear_null_account_balance`.

The routines of a block are loops over ordered indices. What they do with one
object is a function here, with the guard of the loop as its first assertion.
-/

namespace Gamebank.Ledger

open Gamebank.Lib Gamebank.Protocol

/-- `GAMEBANK_VESTING_WITHDRAW_INTERVALS`. -/
def vestingWithdrawIntervals : Int := 13

/-- `GAMEBANK_VESTING_WITHDRAW_INTERVAL_SECONDS`. -/
def vestingWithdrawIntervalSeconds : Nat := 604800

/-- `GAMEBANK_MAX_WITHDRAW_ROUTES`. -/
def maxWithdrawRoutes : Nat := 10

/-- `GAMEBANK_CREATE_ACCOUNT_DELEGATION_TIME`. -/
def createAccountDelegationTime : Nat := 2592000

/-- `GAMEBANK_CREATE_ACCOUNT_DELEGATION_RATIO`. -/
def createAccountDelegationRatio : Int := 5

/-- `GAMEBANK_CREATE_ACCOUNT_WITH_GBC_MODIFIER`. -/
def createAccountWithGbcModifier : Int := 30

/-- `GAMEBANK_TEMP_ACCOUNT`. -/
def tempAccount : AccountName := "temp"

/-- The difference of two `share_type`s. -/
def checkedSub (a b : Int) : Except String Int := do
  ensure (fitsInt64 (a - b)) "overflow"
  return a - b

/-- `uint128::to_uint64`, as an `int64_t`. -/
def lowWord (n : Int) : Except String Int := do
  ensure (n < 18446744073709551616) "hi == 0"
  return toInt64 n

namespace Database

/-! ## Powering up -/

/-- `transfer_to_vesting_evaluator`. -/
def transferToVesting (s : Database) (sender recipient : AccountName) (amount : Asset) :
    Except String Database := do
  signedBy sender
  ensure (amount.symbol = .gbc) "Amount must be GBC"
  ensure (0 < amount.amount) "Must transfer a nonzero amount"
  let fromAccount ← s.getAccount sender
  let toAccount ← (if recipient ≠ "" then s.getAccount recipient else .ok fromAccount)
  let balance ← s.getBalance sender amount.symbol
  ensure (amount.amount ≤ balance) "Account does not have sufficient liquid amount for transfer."
  let s ← s.adjustBalance sender (-amount)
  s.createVesting toAccount.name amount

/-- `claim_reward_balance_evaluator`. -/
def claimRewardBalance (s : Database) (account : AccountName)
    (rewardGbc rewardGbd rewardVests : Int) :
    Except String Database := do
  signedBy account
  ensure (0 ≤ rewardGbc && 0 ≤ rewardGbd && 0 ≤ rewardVests) "Cannot claim a negative amount"
  ensure (0 < rewardGbc || 0 < rewardGbd || 0 < rewardVests) "Must claim something."
  let a ← s.getAccount account
  ensure (rewardGbc ≤ a.rewardGbcBalance) "Cannot claim that much GBC."
  ensure (rewardGbd ≤ a.rewardGbdBalance) "Cannot claim that much GBD."
  ensure (rewardVests ≤ a.rewardVestingBalance) "Cannot claim that much GBS."
  let gbcToMove ← (
    if rewardVests = a.rewardVestingBalance then .ok a.rewardVestingGbc
    else lowWord (toUInt128 (toUInt128 rewardVests * toUInt128 a.rewardVestingGbc)
      / toUInt128 a.rewardVestingBalance))
  let s ← s.adjustRewardBalance account (-Asset.gbc rewardGbc) (.gbs 0)
  let s ← s.adjustRewardBalance account (-Asset.gbd rewardGbd) (.gbs 0)
  let s ← s.adjustBalance account (.gbc rewardGbc)
  let s ← s.adjustBalance account (.gbd rewardGbd)
  let s ← s.modifyAccount account fun a =>
    { a with
      vestingShares := a.vestingShares + rewardVests
      rewardVestingBalance := a.rewardVestingBalance - rewardVests
      rewardVestingGbc := a.rewardVestingGbc - gbcToMove }
  let s ← s.modifyProps fun p =>
    { p with
      totalVestingShares := p.totalVestingShares + rewardVests
      totalVestingFundGbc := p.totalVestingFundGbc + gbcToMove
      pendingRewardedVestingShares := p.pendingRewardedVestingShares - rewardVests
      pendingRewardedVestingGbc := p.pendingRewardedVestingGbc - gbcToMove }
  s.adjustProxiedWitnessVotes account rewardVests

/-! ## Powering down -/

/-- `withdraw_vesting_evaluator`. The branch for no shares at all is dead code
behind the first assertion. -/
def withdrawVesting (s : Database) (account : AccountName) (vestingShares : Int) :
    Except String Database := do
  signedBy account
  ensure (0 < vestingShares) "withdraw vest must be greater than 0."
  let a ← s.getAccount account
  ensure (0 ≤ a.vestingShares) "Account does not have sufficient Gamebank Power for withdraw."
  let available ← checkedSub a.vestingShares a.delegatedVestingShares
  ensure (vestingShares ≤ available) "Account does not have sufficient Gamebank Power for withdraw."
  let rate := vestingShares.tdiv vestingWithdrawIntervals
  let rate := if rate = 0 then 1 else rate
  ensure (a.vestingWithdrawRate ≠ rate) "This operation would not change the vesting withdraw rate."
  s.modifyAccount account fun a =>
    { a with
      vestingWithdrawRate := rate
      nextVestingWithdrawal := addSeconds s.headBlockTime vestingWithdrawIntervalSeconds
      toWithdraw := vestingShares
      withdrawn := 0 }

/-- The routes of an account, in the order of `by_withdraw_route`. -/
def routesOf (s : Database) (account : AccountName) : List WithdrawVestingRoute :=
  (s.withdrawVestingRoutes.rows.filter fun r => r.fromAccount = account).insertionSort
    fun r r' => r.toAccount ≤ r'.toAccount

/-- The route from one account to another. -/
def isRoute (fromAccount toAccount : AccountName) (r : WithdrawVestingRoute) : Bool :=
  r.fromAccount = fromAccount ∧ r.toAccount = toAccount

/-- The route is created, removed or changed. -/
def changeRoute (s : Database) (a : Account) (toAccount : AccountName) (percent : Int)
    (autoVest : Bool) : Except String Database :=
  match s.withdrawVestingRoutes.find? (isRoute a.name toAccount) with
  | none => do
      ensure (percent ≠ 0) "Cannot create a 0% destination."
      ensure (a.withdrawRoutes < maxWithdrawRoutes)
        "Account already has the maximum number of routes."
      let routes := s.withdrawVestingRoutes.create fun _ => ⟨a.name, toAccount, percent, autoVest⟩
      let s := { s with withdrawVestingRoutes := routes }
      s.modifyAccount a.name fun a => { a with withdrawRoutes := a.withdrawRoutes + 1 }
  | some _ =>
      if percent = 0 then
        let routes := s.withdrawVestingRoutes.remove (isRoute a.name toAccount)
        let s := { s with withdrawVestingRoutes := routes }
        s.modifyAccount a.name fun a => { a with withdrawRoutes := a.withdrawRoutes - 1 }
      else
        let routes := s.withdrawVestingRoutes.modify (isRoute a.name toAccount) fun _ =>
          ⟨a.name, toAccount, percent, autoVest⟩
        .ok { s with withdrawVestingRoutes := routes }

/-- `set_withdraw_vesting_route_evaluator`; the percentages are added up in 16
bits. -/
def setWithdrawVestingRoute (s : Database) (fromAccount toAccount : AccountName) (percent : Int)
    (autoVest : Bool) : Except String Database := do
  signedBy fromAccount
  ensure (0 ≤ percent ∧ percent ≤ hundredPercent) "Percent must be valid gbc percent"
  let a ← s.getAccount fromAccount
  let _ ← s.getAccount toAccount
  let s ← s.changeRoute a toAccount percent autoVest
  ensure (sumOf (fun r => r.percent) (s.routesOf fromAccount) % 65536 ≤ hundredPercent)
    "More than 100% of vesting withdrawals allocated to destinations."
  return s

/-- The share of `toWithdraw` that goes along a route. -/
def routeDeposit (toWithdraw : Int) (r : WithdrawVestingRoute) : Except String Int :=
  lowWord (toUInt128 (toUInt128 toWithdraw * r.percent) / hundredPercent)

/-- What an account withdraws this week. -/
def weeklyWithdrawal (a : Account) : Except String Int := do
  let left ← checkedSub a.toWithdraw a.withdrawn
  if left < a.vestingWithdrawRate then
    ensure (a.vestingWithdrawRate ≠ 0) "division by zero"
    return min a.vestingShares (a.toWithdraw.tmod a.vestingWithdrawRate)
  else
    return min a.vestingShares a.vestingWithdrawRate

/-- A route in the first pass: vesting shares are deposited as such. The second
component is the sum of the deposits so far. -/
def depositVests (toWithdraw : Int) (s : Database × Int) (r : WithdrawVestingRoute) :
    Except String (Database × Int) :=
  if r.autoVest then do
    let deposit ← routeDeposit toWithdraw r
    ensure (fitsInt64 (s.2 + deposit)) "overflow"
    if 0 < deposit then
      let t ← s.1.modifyAccount r.toAccount fun a =>
        { a with vestingShares := a.vestingShares + deposit }
      let t ← t.adjustProxiedWitnessVotes r.toAccount deposit
      return (t, s.2 + deposit)
    else return (s.1, s.2 + deposit)
  else .ok s

/-- A route in the second pass: the deposit is converted. -/
def depositGbc (toWithdraw : Int) (s : Database × Int) (r : WithdrawVestingRoute) :
    Except String (Database × Int) :=
  if r.autoVest then .ok s
  else do
    let _ ← s.1.getAccount r.toAccount
    let deposit ← routeDeposit toWithdraw r
    ensure (fitsInt64 (s.2 + deposit)) "overflow"
    let price ← s.1.props.getVestingSharePrice
    let converted ← (Asset.gbs deposit).times price
    if 0 < deposit then
      let t ← s.1.modifyAccount r.toAccount fun a =>
        { a with balance := a.balance + converted.amount }
      let t ← t.modifyProps fun p =>
        { p with
          totalVestingFundGbc := p.totalVestingFundGbc - converted.amount
          totalVestingShares := p.totalVestingShares - deposit }
      return (t, s.2 + deposit)
    else return (s.1, s.2 + deposit)

/-- The body of `process_vesting_withdrawals` for one account. -/
def processVestingWithdrawal (s : Database) (account : AccountName) : Except String Database := do
  let a ← s.getAccount account
  ensure (a.nextVestingWithdrawal ≤ s.headBlockTime)
    "current->next_vesting_withdrawal <= head_block_time()"
  let toWithdraw ← weeklyWithdrawal a
  let routes := s.routesOf account
  let (s, asVests) ← routes.foldlM (depositVests toWithdraw) (s, 0)
  let (s, asGbc) ← routes.foldlM (depositGbc toWithdraw) (s, 0)
  let toConvert := toWithdraw - asGbc - asVests
  ensure (0 ≤ toConvert) "Deposited more vests than were supposed to be withdrawn"
  let price ← s.props.getVestingSharePrice
  let converted ← (Asset.gbs toConvert).times price
  let s ← s.modifyAccount account fun a =>
    let shares := a.vestingShares - toWithdraw
    let done := a.toWithdraw ≤ a.withdrawn + toWithdraw ∨ shares = 0
    { a with
      vestingShares := shares
      balance := a.balance + converted.amount
      withdrawn := a.withdrawn + toWithdraw
      vestingWithdrawRate := if done then 0 else a.vestingWithdrawRate
      nextVestingWithdrawal :=
        if done then maximumTime
        else addSeconds a.nextVestingWithdrawal vestingWithdrawIntervalSeconds }
  let s ← s.modifyProps fun p =>
    { p with
      totalVestingFundGbc := p.totalVestingFundGbc - converted.amount
      totalVestingShares := p.totalVestingShares - toConvert }
  if 0 < toWithdraw then s.adjustProxiedWitnessVotes account (-toWithdraw) else .ok s

/-- The order of `by_next_vesting_withdrawal`. -/
def withdrawsBefore (a b : Account) : Bool :=
  a.nextVestingWithdrawal < b.nextVestingWithdrawal ∨
    (a.nextVestingWithdrawal = b.nextVestingWithdrawal ∧ a.name < b.name)

/-- The account that follows `a` in that order. -/
def withdrawsAfter (s : Database) (a : Account) : Option Account :=
  Table.least withdrawsBefore (s.accounts.rows.filter fun b => withdrawsBefore a b)

/-- The loop of `process_vesting_withdrawals`, with the name of the account it
has come to. It moves on before the account is changed. -/
def processFrom : Nat → Database → Option AccountName → Except String Database
  | 0, _, _ => .error "out of fuel"
  | _ + 1, s, none => .ok s
  | fuel + 1, s, some current => do
      let a ← s.getAccount current
      if a.nextVestingWithdrawal ≤ s.headBlockTime then
        let next := s.withdrawsAfter a
        let s ← s.processVestingWithdrawal current
        processFrom fuel s (next.map Account.name)
      else return s

/-- The name of the account whose withdrawal comes first. -/
def firstWithdrawal (s : Database) : Option AccountName :=
  (s.accounts.first withdrawsBefore).map Account.name

/-- `process_vesting_withdrawals`. -/
def processVestingWithdrawals (fuel : Nat) (s : Database) : Except String Database :=
  processFrom fuel s s.firstWithdrawal

/-! ## Delegation -/

/-- `get_effective_vesting_shares`; a result that is out of range throws. -/
def effectiveVestingShares (a : Account) : Except String Int := do
  let own ← checkedSub a.vestingShares a.delegatedVestingShares
  ensure (fitsInt64 (own + a.receivedVestingShares)) "overflow"
  return own + a.receivedVestingShares

/-- The delegation of one account to another. -/
def isDelegation (delegator delegatee : AccountName) (d : VestingDelegation) : Bool :=
  d.delegator = delegator ∧ d.delegatee = delegatee

/-- `min_delegation` and `min_update`: the account creation fee, times or over
a number that depends on the hardfork, in vesting shares. -/
def delegationLimits (s : Database) : Except String (Int × Int) := do
  let fee := s.schedule.medianProps.accountCreationFee
  let price ← s.props.getVestingSharePrice
  let minDelegation ← (Asset.gbc (if s.hardfork01 then fee.tdiv 3 else fee * 10)).times price
  let minUpdate ← (Asset.gbc (if s.hardfork01 then fee.tdiv 30 else fee)).times price
  return (minDelegation.amount, minUpdate.amount)

/-- `delegate_vesting_shares_evaluator`. -/
def delegateVestingShares (s : Database) (delegator delegatee : AccountName) (vestingShares : Int) :
    Except String Database := do
  signedBy delegator
  ensure (delegator ≠ delegatee) "You cannot delegate GBS to yourself"
  ensure (0 ≤ vestingShares) "Delegation cannot be negative"
  let a ← s.getAccount delegator
  let _ ← s.getAccount delegatee
  let free ← checkedSub a.vestingShares a.delegatedVestingShares
  let leaving ← checkedSub a.toWithdraw a.withdrawn
  let available ← checkedSub free leaving
  let (minDelegation, minUpdate) ← s.delegationLimits
  match s.vestingDelegations.find? fun d => isDelegation delegator delegatee d with
  | none =>
      ensure (vestingShares ≤ available) "Account does not have enough vesting shares to delegate."
      ensure (minDelegation ≤ vestingShares) "Account must delegate a minimum"
      let delegations := s.vestingDelegations.create fun id =>
        ⟨id, delegator, delegatee, vestingShares, s.headBlockTime⟩
      let s := { s with vestingDelegations := delegations }
      let s ← s.modifyAccount delegator fun a =>
        { a with delegatedVestingShares := a.delegatedVestingShares + vestingShares }
      s.modifyAccount delegatee fun a =>
        { a with receivedVestingShares := a.receivedVestingShares + vestingShares }
  | some d =>
      if d.vestingShares ≤ vestingShares then
        let delta ← checkedSub vestingShares d.vestingShares
        ensure (minUpdate ≤ delta) "Gamebank Power increase is not enough of a difference."
        ensure (delta ≤ available) "Account does not have enough vesting shares to delegate."
        let s ← s.modifyAccount delegator fun a =>
          { a with delegatedVestingShares := a.delegatedVestingShares + delta }
        let s ← s.modifyAccount delegatee fun a =>
          { a with receivedVestingShares := a.receivedVestingShares + delta }
        return { s with
          vestingDelegations := s.vestingDelegations.modify
            (fun d => isDelegation delegator delegatee d) fun d =>
              { d with vestingShares := vestingShares } }
      else
        let delta ← checkedSub d.vestingShares vestingShares
        (if 0 < vestingShares then do
          ensure (minUpdate ≤ delta) "Gamebank Power decrease is not enough of a difference."
          ensure (minDelegation ≤ vestingShares)
            "Delegation must be removed or leave minimum delegation amount"
        else
          ensure (0 < d.vestingShares)
            "Delegation would set vesting_shares to zero, but it is already zero")
        let expirations := s.vestingDelegationExpirations.create fun id =>
          ⟨id, delegator, delta,
            max (addSeconds s.headBlockTime s.props.delegationReturnPeriod) d.minDelegationTime⟩
        let s := { s with vestingDelegationExpirations := expirations }
        let s ← s.modifyAccount delegatee fun a =>
          { a with receivedVestingShares := a.receivedVestingShares - delta }
        let isThis := fun d => isDelegation delegator delegatee d
        return { s with
          vestingDelegations :=
            if 0 < vestingShares then
              s.vestingDelegations.modify isThis fun d => { d with vestingShares := vestingShares }
            else s.vestingDelegations.remove isThis }

/-- The body of `clear_expired_delegations`. -/
def clearExpiredDelegation (s : Database) (id : Nat) : Except String Database := do
  let e ← require (s.vestingDelegationExpirations.find? fun e => e.id = id)
  ensure (e.expiration < s.headBlockTime) "itr->expiration < now"
  let s ← s.modifyAccount e.delegator fun a =>
    { a with delegatedVestingShares := a.delegatedVestingShares - e.vestingShares }
  return { s with
    vestingDelegationExpirations := s.vestingDelegationExpirations.remove fun e => e.id = id }

/-- The body of `reclaim_account_creation_delegations`. The loop goes on from
the iterator of the object it has removed, so which delegation comes next, of
those that meet the guard, is open. -/
def reclaimAccountCreationDelegation (s : Database) (id : Nat) : Except String Database := do
  let d ← require (s.vestingDelegations.find? fun d => d.id = id)
  ensure (d.delegator = initMinerName ∧ d.minDelegationTime < s.headBlockTime)
    "itr->delegator == GAMEBANK_INIT_MINER_NAME && itr->min_delegation_time < now"
  let s ← s.modifyAccount d.delegatee fun a =>
    { a with receivedVestingShares := a.receivedVestingShares - d.vestingShares }
  return { s with
    vestingDelegationExpirations := s.vestingDelegationExpirations.create fun id =>
      ⟨id, d.delegator, d.vestingShares,
        max (addSeconds s.headBlockTime s.props.delegationReturnPeriod) d.minDelegationTime⟩
    vestingDelegations := s.vestingDelegations.remove fun d => d.id = id }

/-! ## New accounts -/

/-- `create< account_object >` with `initialize_account_object`; `received` is
the delegation the account starts with. -/
def createAccount (s : Database) (name creator : AccountName) (received : Int) :
    Except String Database := do
  ensure (s.accounts.find? fun a => a.name = name).isNone
    "could not insert object, most likely a uniqueness constraint was violated"
  return { s with
    accounts := s.accounts.create fun _ =>
      { Account.make name with
        created := s.headBlockTime
        lastVoteTime := s.headBlockTime
        mined := false
        recoveryAccount := if s.hardfork01 ∧ creator = tempAccount then "" else creator
        receivedVestingShares := received } }

/-- The accounts an authority refers to exist. -/
def verifyAuthorityAccountsExist (s : Database) (names : List AccountName) : Except String Unit :=
  ensure (names.all fun n => (s.accounts.find? fun a => a.name = n).isSome)
    "references non-existing account"

/-- The delegation an account is created with. -/
def createDelegation (s : Database) (delegator delegatee : AccountName) (vestingShares : Int) :
    Database :=
  if 0 < vestingShares then
    { s with
      vestingDelegations := s.vestingDelegations.create fun id =>
        ⟨id, delegator, delegatee, vestingShares,
          addSeconds s.headBlockTime createAccountDelegationTime⟩ }
  else s

/-- `account_create_evaluator`; `accountAuths` are the accounts in the new
authorities. -/
def accountCreate (s : Database) (creator newAccountName : AccountName)
    (accountAuths : List AccountName) (fee : Int) : Except String Database := do
  signedBy creator
  validateName newAccountName
  ensure (0 ≤ fee) "Account creation fee cannot be negative"
  let c ← s.getAccount creator
  s.verifyAuthorityAccountsExist accountAuths
  if creator = initMinerName then
    let price ← s.props.getVestingSharePrice
    let shares ← (Asset.gbc fee).times price
    let available ← checkedSub c.vestingShares c.delegatedVestingShares
    ensure (shares.amount ≤ available) "Insufficient vest shares to create account."
    let s ← s.modifyAccount creator fun c =>
      { c with delegatedVestingShares := c.delegatedVestingShares + shares.amount }
    let s ← s.createAccount newAccountName creator shares.amount
    return s.createDelegation creator newAccountName shares.amount
  else
    ensure (fee ≤ c.balance) "Insufficient balance to create account."
    ensure (minAccountCreationFee ≤ fee) "Insufficient Fee"
    let s ← s.modifyAccount creator fun c => { c with balance := c.balance - fee }
    let s ← s.createAccount newAccountName creator 0
    if 0 < fee then s.createVesting newAccountName (.gbc fee) else .ok s

/-- `account_create_with_delegation_evaluator`. -/
def accountCreateWithDelegation (s : Database) (creator newAccountName : AccountName)
    (accountAuths : List AccountName) (fee delegation : Int) : Except String Database := do
  signedBy creator
  validateName newAccountName
  ensure (0 ≤ fee) "Account creation fee cannot be negative"
  ensure (0 ≤ delegation) "Delegation cannot be negative"
  ensure (!s.hardfork01) "Account creation with delegation is deprecated as of Hardfork 20"
  let c ← s.getAccount creator
  ensure (fee ≤ c.balance) "Insufficient balance to create account."
  let free ← checkedSub c.vestingShares c.delegatedVestingShares
  let leaving ← checkedSub c.toWithdraw c.withdrawn
  let available ← checkedSub free leaving
  ensure (delegation ≤ available) "Insufficient vesting shares to delegate to new account."
  let medianFee := s.schedule.medianProps.accountCreationFee
  let price ← s.props.getVestingSharePrice
  let target ← (Asset.gbc (medianFee * createAccountWithGbcModifier
    * createAccountDelegationRatio)).times price
  let paid ← (Asset.gbc (fee * createAccountDelegationRatio)).times price
  ensure (target.amount ≤ paid.amount + delegation) "Inssufficient Delegation"
  ensure (medianFee ≤ fee) "Insufficient Fee"
  s.verifyAuthorityAccountsExist accountAuths
  let s ← s.modifyAccount creator fun c =>
    { c with
      balance := c.balance - fee
      delegatedVestingShares := c.delegatedVestingShares + delegation }
  let s ← s.createAccount newAccountName creator delegation
  let s := s.createDelegation creator newAccountName delegation
  if 0 < fee then s.createVesting newAccountName (.gbc fee) else .ok s

/-- `create_claimed_account_evaluator`. -/
def createClaimedAccount (s : Database) (creator newAccountName : AccountName)
    (accountAuths : List AccountName) : Except String Database := do
  signedBy creator
  validateName newAccountName
  ensure s.hardfork01 "create_claimed_account_operation is not enabled until hardfork 20."
  let c ← s.getAccount creator
  ensure (0 < c.pendingClaimedAccounts) "has no claimed accounts to create"
  s.verifyAuthorityAccountsExist accountAuths
  let s ← s.modifyAccount creator fun c =>
    { c with pendingClaimedAccounts := c.pendingClaimedAccounts - 1 }
  s.createAccount newAccountName creator 0

/-! ## The null account -/

/-- The part of `clear_null_account_balance` for vesting shares: what they are
worth is left to be taken off the supply. -/
def burnVestingShares (s : Database) : Except String (Database × Int) := do
  let a ← s.getAccount nullAccount
  if 0 < a.vestingShares then
    let price ← s.props.getVestingSharePrice
    let converted ← (Asset.gbs a.vestingShares).times price
    let s ← s.modifyProps fun p =>
      { p with
        totalVestingShares := p.totalVestingShares - a.vestingShares
        totalVestingFundGbc := p.totalVestingFundGbc - converted.amount }
    let s ← s.modifyAccount nullAccount fun a => { a with vestingShares := 0 }
    return (s, converted.amount)
  else return (s, 0)

/-- An amount, if it is positive. -/
def positivePart (amount : Int) : Int := if 0 < amount then amount else 0

/-- The GBC and GBD balances of the null account are emptied; the totals are
left to be taken off the supplies. -/
def burnBalances (s : Database) : Except String (Database × Int × Int) := do
  let a ← s.getAccount nullAccount
  let s ← (if 0 < a.balance then s.adjustBalance nullAccount (.gbc (-a.balance)) else .ok s)
  let s ← (if 0 < a.savingsBalance then
    s.adjustSavingsBalance nullAccount (.gbc (-a.savingsBalance)) else .ok s)
  let s ← (if 0 < a.gbdBalance then s.adjustBalance nullAccount (.gbd (-a.gbdBalance)) else .ok s)
  let s ← (if 0 < a.savingsGbdBalance then
    s.adjustSavingsBalance nullAccount (.gbd (-a.savingsGbdBalance)) else .ok s)
  return (s, positivePart a.balance + positivePart a.savingsBalance,
    positivePart a.gbdBalance + positivePart a.savingsGbdBalance)

/-- The reward balances of the null account are emptied. -/
def burnRewards (s : Database) : Except String (Database × Int × Int) := do
  let a ← s.getAccount nullAccount
  let s ← (if 0 < a.rewardGbcBalance then
    s.adjustRewardBalance nullAccount (.gbc (-a.rewardGbcBalance)) (.gbs 0) else .ok s)
  let s ← (if 0 < a.rewardGbdBalance then
    s.adjustRewardBalance nullAccount (.gbd (-a.rewardGbdBalance)) (.gbs 0) else .ok s)
  let gbc := positivePart a.rewardGbcBalance
  let gbd := positivePart a.rewardGbdBalance
  if 0 < a.rewardVestingBalance then
    let s ← s.modifyProps fun p =>
      { p with
        pendingRewardedVestingShares := p.pendingRewardedVestingShares - a.rewardVestingBalance
        pendingRewardedVestingGbc := p.pendingRewardedVestingGbc - a.rewardVestingGbc }
    let s ← s.modifyAccount nullAccount fun a =>
      { a with rewardVestingGbc := 0, rewardVestingBalance := 0 }
    return (s, gbc + a.rewardVestingGbc, gbd)
  else return (s, gbc, gbd)

/-- `clear_null_account_balance`. -/
def clearNullAccountBalance (s : Database) : Except String Database := do
  let (s, gbc, gbd) ← s.burnBalances
  let (s, vested) ← s.burnVestingShares
  let (s, rewardGbc, rewardGbd) ← s.burnRewards
  let s ← (if 0 < gbc + vested + rewardGbc then
    s.adjustSupply (.gbc (-(gbc + vested + rewardGbc))) false else .ok s)
  if 0 < gbd + rewardGbd then s.adjustSupply (.gbd (-(gbd + rewardGbd))) false else .ok s

end Database

end Gamebank.Ledger
