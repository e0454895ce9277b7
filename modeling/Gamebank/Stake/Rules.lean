import Gamebank.Stake.Frames

/-!
# What the calls on the stake are made of

A rule for each call says what is left to be shown of it once its guards are
met: that the steps which change something lead to `P`. An invariant passes
over a call by its rule and does not look at the call itself.
-/

namespace Gamebank.Ledger

open Gamebank.Lib Gamebank.Protocol

/-- The account after a week's withdrawal, as to its power. -/
def Account.withdrawWeek (toWithdraw : Int) (a : Account) : Account :=
  let shares := a.vestingShares - toWithdraw
  let done := a.toWithdraw ≤ a.withdrawn + toWithdraw ∨ shares = 0
  { a with
    vestingShares := shares
    withdrawn := a.withdrawn + toWithdraw
    vestingWithdrawRate := if done then 0 else a.vestingWithdrawRate
    nextVestingWithdrawal :=
      if done then maximumTime
      else addSeconds a.nextVestingWithdrawal vestingWithdrawIntervalSeconds }

namespace Database

variable {s t u : Database} {name : AccountName} {a a' : Account} {P : Database → Prop}

/-! ## Guards and small steps -/

theorem signedBy_eq_ok : signedBy name = .ok () ↔ name ≠ nullAccount := by
  simp [signedBy]

theorem checkedSub_eq_ok {x y d : Int} (h : checkedSub x y = .ok d) : d = x - y := by
  unfold checkedSub at h
  rw [ensure_bind_eq_ok, pure_eq_ok] at h
  exact h.2.symm

theorem Edited.found_eq (he : Edited s t name a a') {c : Account} (hc : s.getAccount name = .ok c) :
    a = c :=
  Except.ok.inj (he.found.symm.trans hc)

theorem modifyProps_props (s : Database) (f : GlobalProperties → GlobalProperties) :
    Returns (s.modifyProps f) fun t => t = { s with props := t.props } :=
  (modifyProps_spec s f).mono fun t ht => by rw [ht.2]

theorem createAccount_spec (s : Database) (name creator : AccountName) (received : Int) :
    Returns (s.createAccount name creator received) fun t =>
      name ∉ s.accounts.rows.map Account.name ∧ ∃ a : Account,
        a.stake = { Account.make name with receivedVestingShares := received } ∧
        t = { s with accounts := ⟨s.accounts.nextId + 1, s.accounts.rows ++ [a]⟩ } := by
  unfold Database.createAccount
  refine .ensure fun hfresh => .pure ⟨?_, _, rfl, rfl⟩
  rw [Option.isNone_iff_eq_none] at hfresh
  exact find?_key_eq_none.mp hfresh

/-! ## Vesting shares created -/

/-- The price has the two symbols, in one of the two orders. -/
theorem getVestingSharePrice_symbols (p : GlobalProperties) :
    Returns p.getVestingSharePrice fun price =>
      price.base.symbol = .gbc ∧ price.quote.symbol = .gbs ∨
        price.base.symbol = .gbs ∧ price.quote.symbol = .gbc := by
  unfold GlobalProperties.getVestingSharePrice Price.make
  refine .ite (fun _ => .bind_any fun _ => .pure ?_) fun _ => .bind_any fun _ => .pure ?_
  · exact Or.inl ⟨rfl, rfl⟩
  · exact Or.inr ⟨rfl, rfl⟩

theorem times_vestingSharePrice {p : GlobalProperties} {price : Price}
    (hprice : p.getVestingSharePrice = .ok price) {liquid : Asset}
    (hliquid : liquid.symbol = .gbc) :
    Returns (liquid.times price) fun shares => shares.symbol = .gbs := by
  refine (liquid.times_symbol price).mono fun shares hshares => ?_
  rw [hshares, hliquid]
  rcases getVestingSharePrice_symbols p price hprice with ⟨hbase, hquote⟩ | ⟨hbase, hquote⟩
  · rw [if_pos hbase.symm, hquote]
  · rw [if_neg (by rw [hbase]; decide), hbase]

theorem adjustBalance_shares (s : Database) (name : AccountName) {delta : Asset}
    (h : delta.symbol = .gbs) :
    Returns (s.adjustBalance name delta) fun t =>
      ∃ a, Edited s t name a { a with vestingShares := a.vestingShares + delta.amount } := by
  unfold adjustBalance modifyBalance
  rw [h]
  exact .bind_any fun _ => .ensure fun _ => modifyAccount_spec s name _

/-- What `create_vesting` does before the votes are adjusted. -/
theorem createVesting_cases (s : Database) (name : AccountName) (liquid : Asset)
    (h : ∀ price shares, s.props.getVestingSharePrice = .ok price →
      liquid.times price = .ok shares →
      liquid.symbol = .gbc →
      ∀ t a, Edited s t name a { a with vestingShares := a.vestingShares + shares.amount } →
      ∀ u, u = { t with
          props := { s.props with
            totalVestingFundGbc := s.props.totalVestingFundGbc + liquid.amount
            totalVestingShares := s.props.totalVestingShares + shares.amount } } →
      Returns (u.adjustProxiedWitnessVotes name shares.amount) P) :
    Returns (s.createVesting name liquid) P := by
  unfold createVesting
  refine .ensure fun hsymbol => .bind_eq fun price hprice => .bind_eq fun shares hshares => ?_
  have hliquid : liquid.symbol = .gbc := by simpa using hsymbol
  have hgbs := times_vestingSharePrice hprice hliquid shares hshares
  refine .bind (adjustBalance_shares s name hgbs) fun t ⟨a, he⟩ => ?_
  refine .bind (modifyProps_spec t _) fun u hu => ?_
  have hprops : t.props = s.props := by rw [he.rest]
  refine h price shares hprice hshares hliquid t a he u ?_
  rw [hu.2, hprops]

theorem adjustBalance_gbc (s : Database) (name : AccountName) {delta : Asset}
    (h : delta.symbol = .gbc) :
    Returns (s.adjustBalance name delta) fun t =>
      ∃ a, Edited s t name a { a with balance := a.balance + delta.amount } := by
  unfold adjustBalance modifyBalance
  rw [h]
  exact .bind_any fun _ => .ensure fun _ => modifyAccount_spec s name _

/-- GBC leaves one account and enters another as vesting shares. -/
theorem transferToVesting_cases (s : Database) (sender recipient : AccountName) (amount : Asset)
    (h : ∀ t name, SameStake s t → t.props = s.props → Returns (t.createVesting name amount) P) :
    Returns (s.transferToVesting sender recipient amount) P := by
  unfold Database.transferToVesting
  refine .bind_any fun _ => .ensure fun hgbc => .ensure fun _ => .bind_any fun _ =>
    .bind_any fun toAccount => .bind_any fun _ => .ensure fun _ => ?_
  have hsymbol : amount.symbol = .gbc := by simpa using hgbc
  refine .bind (adjustBalance_gbc s sender (by rw [Asset.symbol_neg, hsymbol])) fun t ⟨a, he⟩ => ?_
  exact h t toAccount.name (he.sameStake rfl) (by rw [he.rest])

/-- What `claim_reward_balance` does before the votes are adjusted. -/
theorem claimRewardBalance_cases (s : Database) (account : AccountName) (gbc gbd vests : Int)
    (h : 0 ≤ vests → ∀ t, SameStake s t → ∀ u a moved, Edited t u account a { a with
        vestingShares := a.vestingShares + vests
        rewardVestingBalance := a.rewardVestingBalance - vests
        rewardVestingGbc := a.rewardVestingGbc - moved } →
      ∀ v : Database, v = { u with props := v.props } →
      v.props.totalVestingShares = u.props.totalVestingShares + vests →
      Returns (v.adjustProxiedWitnessVotes account vests) P) :
    Returns (s.claimRewardBalance account gbc gbd vests) P := by
  unfold Database.claimRewardBalance
  refine .bind_any fun _ => .ensure fun hnonneg => .ensure fun _ => .bind_any fun _ =>
    .ensure fun _ => .ensure fun _ => .ensure fun _ => .bind_any fun moved => ?_
  refine .bind (adjustRewardBalance_sameStake s _ _ _) fun t1 h1 => ?_
  refine .bind (adjustRewardBalance_sameStake t1 _ _ _) fun t2 h2 => ?_
  refine .bind (adjustBalance_sameStake t2 _ (by simp [Asset.gbc])) fun t3 h3 => ?_
  refine .bind (adjustBalance_sameStake t3 _ (by simp [Asset.gbd])) fun t4 h4 => ?_
  refine .bind (modifyAccount_spec t4 account _) fun t5 hedited => ?_
  obtain ⟨a, he⟩ := hedited
  refine .bind (modifyProps_spec t5 _) fun t6 hprops => ?_
  have hvests : 0 ≤ vests := by
    simp only [Bool.and_eq_true, decide_eq_true_eq] at hnonneg
    exact hnonneg.2
  exact h hvests t4 (((h1.trans h2).trans h3).trans h4) t5 a moved he t6 (by rw [hprops.2])
    (by rw [hprops.2])

/-! ## Powering down -/

/-- What `withdraw_vesting` sets. -/
theorem withdrawVesting_cases (s : Database) (account : AccountName) (shares : Int)
    (h : account ≠ nullAccount → 0 < shares → ∀ a, s.getAccount account = .ok a →
      shares ≤ a.vestingShares - a.delegatedVestingShares → ∀ rate, 0 < rate → ∀ time,
      Returns (s.modifyAccount account fun a => { a with
        vestingWithdrawRate := rate
        nextVestingWithdrawal := time
        toWithdraw := shares
        withdrawn := 0 }) P) :
    Returns (s.withdrawVesting account shares) P := by
  unfold Database.withdrawVesting
  refine .bind_eq fun _ hsigned => .ensure fun hpos => .bind_eq fun a ha => .ensure fun _ =>
    .bind_eq fun available havailable => .ensure fun hle => .ensure fun _ => ?_
  obtain rfl := checkedSub_eq_ok havailable
  have hshares : 0 < shares := by simpa using hpos
  refine h (signedBy_eq_ok.mp hsigned) hshares a ha (by simpa using hle) _ ?_ _
  split
  · decide
  next hne => exact lt_of_le_of_ne (Int.tdiv_nonneg hshares.le (by decide)) (Ne.symm hne)

/-- What survives the small steps of a withdrawal survives the withdrawal: those
of the two passes over the routes, and the one of the account itself. -/
theorem processVestingWithdrawal_cases {account : AccountName}
    (hvests : ∀ {t} name x, P t → Returns (t.modifyAccount name fun a =>
      { a with vestingShares := a.vestingShares + x }) P)
    (hgbc : ∀ {t} name x, P t → Returns (t.modifyAccount name fun a =>
      { a with balance := a.balance + x }) P)
    (hweek : ∀ {t} toWithdraw x, P t → Returns (t.modifyAccount account fun a =>
      { a.withdrawWeek toWithdraw with balance := a.balance + x }) P)
    (hprops : ∀ {t} x y, P t → Returns (t.modifyProps fun p => { p with
      totalVestingFundGbc := p.totalVestingFundGbc - x
      totalVestingShares := p.totalVestingShares - y }) P)
    (hvotes : ∀ {t} name d, P t → Returns (t.adjustProxiedWitnessVotes name d) P) (hs : P s) :
    Returns (s.processVestingWithdrawal account) P := by
  unfold Database.processVestingWithdrawal
  refine .bind_any fun _ => .ensure fun _ => .bind_any fun toWithdraw => ?_
  refine .bind (Returns.foldlM (P := fun st => P st.1) hs fun st hst r _ => ?_) fun ⟨t, _⟩ ht => ?_
  · unfold Database.depositVests
    refine .ite (fun _ => .bind_any fun deposit => .ensure fun _ => ?_) fun _ => .ok hst
    refine .ite (fun _ => .bind (hvests r.toAccount deposit hst) fun u hu => ?_) fun _ => .pure hst
    exact .bind (hvotes r.toAccount deposit hu) fun v hv => .pure hv
  refine .bind (Returns.foldlM (P := fun st => P st.1) ht fun st hst r _ => ?_) fun ⟨u, _⟩ hu => ?_
  · unfold Database.depositGbc
    refine .ite (fun _ => .ok hst) fun _ => .bind_any fun _ => .bind_any fun deposit =>
      .ensure fun _ => .bind_any fun _ => .bind_any fun converted => ?_
    refine .ite (fun _ => .bind (hgbc r.toAccount _ hst) fun v hv => ?_) fun _ => .pure hst
    exact .bind (hprops _ _ hv) fun w hw => .pure hw
  refine .ensure fun _ => .bind_any fun _ => .bind_any fun converted => ?_
  refine .bind (hweek toWithdraw converted.amount hu) fun v hv => ?_
  refine .bind (hprops _ _ hv) fun w hw => ?_
  exact .ite (fun _ => hvotes account _ hw) fun _ => .ok hw

/-! ## New accounts -/

theorem createDelegation_accounts (s : Database) (delegator delegatee : AccountName)
    (shares : Int) :
    (s.createDelegation delegator delegatee shares).accounts = s.accounts ∧
      (s.createDelegation delegator delegatee shares).props = s.props := by
  unfold Database.createDelegation
  split <;> exact ⟨rfl, rfl⟩

/-- `initminer` delegates the shares that the fee is worth, everybody else pays it. -/
theorem accountCreate_cases (s : Database) (creator newName : AccountName)
    (auths : List AccountName) (fee : Int)
    (hmined : creator = initMinerName → ∀ price shares,
      s.props.getVestingSharePrice = .ok price → (Asset.gbc fee).times price = .ok shares →
      Returns (do
        let t ← s.modifyAccount creator fun c =>
          { c with delegatedVestingShares := c.delegatedVestingShares + shares.amount }
        let u ← t.createAccount newName creator shares.amount
        return u.createDelegation creator newName shares.amount) P)
    (hpaid : creator ≠ initMinerName → Returns (do
      let t ← s.modifyAccount creator fun c => { c with balance := c.balance - fee }
      let u ← t.createAccount newName creator 0
      if 0 < fee then u.createVesting newName (.gbc fee) else .ok u) P) :
    Returns (s.accountCreate creator newName auths fee) P := by
  unfold Database.accountCreate
  refine .bind_any fun _ => .bind_any fun _ => .ensure fun _ => .bind_any fun _ =>
    .bind_any fun _ =>
    .ite (fun hminer => ?_) fun hminer => .ensure fun _ => .ensure fun _ => hpaid hminer
  exact .bind_eq fun price hprice => .bind_eq fun shares hshares => .bind_any fun _ =>
    .ensure fun _ => hmined hminer price shares hprice hshares

theorem accountCreateWithDelegation_cases (s : Database) (creator newName : AccountName)
    (auths : List AccountName) (fee delegation : Int)
    (h : creator ≠ nullAccount → 0 ≤ delegation → ∀ c, s.getAccount creator = .ok c →
      delegation ≤ c.vestingShares - c.delegatedVestingShares - (c.toWithdraw - c.withdrawn) →
      Returns (do
        let t ← s.modifyAccount creator fun c => { c with
          balance := c.balance - fee
          delegatedVestingShares := c.delegatedVestingShares + delegation }
        let u ← t.createAccount newName creator delegation
        if 0 < fee then
          (u.createDelegation creator newName delegation).createVesting newName (.gbc fee)
        else .ok (u.createDelegation creator newName delegation)) P) :
    Returns (s.accountCreateWithDelegation creator newName auths fee delegation) P := by
  unfold Database.accountCreateWithDelegation
  refine .bind_eq fun _ hsigned => .bind_any fun _ => .ensure fun _ => .ensure fun hnonneg =>
    .ensure fun _ => .bind_eq fun c hc => .ensure fun _ => .bind_eq fun free hfree =>
    .bind_eq fun leaving hleaving => .bind_eq fun available havailable => .ensure fun hle =>
    .bind_any fun _ => .bind_any fun _ => .bind_any fun _ => .ensure fun _ => .ensure fun _ =>
    .bind_any fun _ => ?_
  obtain rfl := checkedSub_eq_ok hfree
  obtain rfl := checkedSub_eq_ok hleaving
  obtain rfl := checkedSub_eq_ok havailable
  exact h (signedBy_eq_ok.mp hsigned) (by simpa using hnonneg) c hc (by simpa using hle)

theorem createClaimedAccount_cases (s : Database) (creator newName : AccountName)
    (auths : List AccountName)
    (h : Returns (do
      let t ← s.modifyAccount creator fun c =>
        { c with pendingClaimedAccounts := c.pendingClaimedAccounts - 1 }
      t.createAccount newName creator 0) P) :
    Returns (s.createClaimedAccount creator newName auths) P := by
  unfold Database.createClaimedAccount
  exact .bind_any fun _ => .bind_any fun _ => .ensure fun _ => .bind_any fun _ => .ensure fun _ =>
    .bind_any fun _ => h

/-! ## The null account -/

/-- The shares of the null account are burned. -/
theorem burnVestingShares_cases (hs : P s)
    (h : ∀ a, s.getAccount nullAccount = .ok a → ∀ x, Returns (do
      let t ← s.modifyProps fun p => { p with
        totalVestingShares := p.totalVestingShares - a.vestingShares
        totalVestingFundGbc := p.totalVestingFundGbc - x }
      t.modifyAccount nullAccount fun a => { a with vestingShares := 0 }) P) :
    Returns s.burnVestingShares fun r => P r.1 := by
  unfold Database.burnVestingShares
  refine .bind_eq fun a ha => .ite (fun _ => .bind_any fun _ => .bind_any fun converted => ?_)
    fun _ => .pure hs
  rw [← bind_assoc]
  exact .bind (h a ha converted.amount) fun u hu => .pure hu

/-- The shares of the null account apart, clearing it is about balances. -/
theorem clearNullAccountBalance_cases (hs : P s)
    (hsame : ∀ {s t}, P s → SameStake s t → P t)
    (hburn : ∀ t, P t → Returns t.burnVestingShares fun r => P r.1) :
    Returns s.clearNullAccountBalance P := by
  unfold Database.clearNullAccountBalance
  refine .bind (burnBalances_sameStake s) fun ⟨t, gbc, gbd⟩ ht => ?_
  refine .bind (hburn t (hsame hs ht)) fun ⟨u, vested⟩ hu => ?_
  refine .bind (burnRewards_sameStake u) fun ⟨v, rewardGbc, rewardGbd⟩ hv => ?_
  refine .bind (returns_sameStake_ite (.refl v) (adjustSupply_sameStake v _ _)) fun x hx => ?_
  exact (returns_sameStake_ite hx (adjustSupply_sameStake x _ _)).mono fun y hy =>
    hsame (hsame hu hv) hy

end Database

end Gamebank.Ledger
