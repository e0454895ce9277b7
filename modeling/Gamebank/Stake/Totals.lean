import Gamebank.Stake.VirtualTime

/-!
# The total of all vesting shares

`total_vesting_shares` is the sum of the vesting shares of all accounts, in
every state that is reached. Between two statements of a routine it is not:
`Accounted base d` says that the accounts have `d` shares more than are
counted, and that no account and no withdraw route of `base` has gone.

The votes of a witness are the shares of the accounts that stand behind it
(`Tallied.votes_eq`), each with its own shares and none of them twice, so they
are never more than all shares.
-/

namespace Gamebank.Ledger

open Gamebank.Lib Gamebank.Protocol

namespace Database

variable {base s t u : Database} {name : AccountName} {a a' : Account} {d : Int}

/-- The accounts have `d` more vesting shares than `total_vesting_shares` says;
those of `base` are all there, and its routes are the same. -/
structure Accounted (base : Database) (d : Int) (s : Database) : Prop where
  shares : s.accounts.total Account.vestingShares = s.props.totalVestingShares + d
  names : ∀ n ∈ base.accounts.rows.map Account.name, n ∈ s.accounts.rows.map Account.name
  routes : s.withdrawVestingRoutes = base.withdrawVestingRoutes

/-! ## Steps -/

theorem Accounted.edit (h : Accounted base d s) (he : Edited s t name a a')
    (hname : a'.name = a.name)
    {x : Int} (hshares : a'.vestingShares = a.vestingShares + x) : Accounted base (d + x) t := by
  have hprops : t.props = s.props := by rw [he.rest]
  have htotal : t.accounts.total Account.vestingShares =
      s.accounts.total Account.vestingShares - a.vestingShares + a'.vestingShares :=
    he.replaces.sumOf_eq Account.vestingShares
  have hnames : t.accounts.rows.map Account.name = s.accounts.rows.map Account.name :=
    he.replaces.map_eq hname
  have hsum := h.shares
  exact
    { shares := by
        rw [hprops, htotal, hshares]
        omega
      names := by
        rw [hnames]
        exact h.names
      routes := by
        rw [he.rest]
        exact h.routes }

theorem Accounted.modifyQuiet (h : Accounted base d s) (name : AccountName) {f : Account → Account}
    (hf : ∀ a, ((f a).name, (f a).vestingShares) = (a.name, a.vestingShares)) :
    Returns (s.modifyAccount name f) (Accounted base d) :=
  (modifyAccount_spec s name f).mono fun t ⟨a, he⟩ => by
    have hsame := Prod.mk.inj (hf a)
    have ht := h.edit he hsame.1 (x := 0) (by rw [hsame.2, add_zero])
    rwa [add_zero] at ht

/-- The accounts are the same, and `x` more shares are counted. -/
theorem Accounted.count (h : Accounted base d s) {x : Int} (haccounts : t.accounts = s.accounts)
    (hroutes : t.withdrawVestingRoutes = s.withdrawVestingRoutes)
    (htotal : t.props.totalVestingShares = s.props.totalVestingShares + x) :
    Accounted base (d - x) t where
  shares := by
    have hsum := h.shares
    rw [haccounts, htotal]
    omega
  names := by
    rw [haccounts]
    exact h.names
  routes := hroutes.trans h.routes

theorem Accounted.modifyProps (h : Accounted base d s) {f : GlobalProperties → GlobalProperties}
    {x : Int} (hf : (f s.props).totalVestingShares = s.props.totalVestingShares + x) :
    Returns (s.modifyProps f) (Accounted base (d - x)) :=
  (modifyProps_spec s f).mono fun t ⟨_, ht⟩ => by
    rw [ht]
    exact h.count rfl rfl hf

theorem Accounted.sameStake (h : Accounted base d s) (hs : SameStake s t) : Accounted base d t where
  shares := by
    have hsum : t.accounts.total Account.vestingShares = s.accounts.total Account.vestingShares :=
      sumOf_eq_of_map_eq hs.accounts fun _ => rfl
    rw [hsum, hs.totalVestingShares]
    exact h.shares
  names := by
    have hnames : t.accounts.rows.map Account.name = s.accounts.rows.map Account.name :=
      map_eq_of_map_eq hs.accounts fun _ => rfl
    rw [hnames]
    exact h.names
  routes := hs.withdrawVestingRoutes.trans h.routes

/-- Other tables do not matter. -/
theorem Accounted.same (h : Accounted base d s) (haccounts : t.accounts = s.accounts)
    (hroutes : t.withdrawVestingRoutes = s.withdrawVestingRoutes)
    (hprops : t.props.totalVestingShares = s.props.totalVestingShares) : Accounted base d t := by
  have ht := h.count (x := 0) haccounts hroutes (by rw [hprops, add_zero])
  rwa [sub_zero] at ht

/-! ## Votes carried to the witnesses -/

theorem Accounted.onlyVotes (h : Accounted base d s) (hs : OnlyVotes s t) : Accounted base d t where
  shares := by
    have hsum : t.accounts.total Account.vestingShares = s.accounts.total Account.vestingShares :=
      sumOf_eq_of_map_eq hs.accounts fun _ => rfl
    rw [hsum, hs.rest]
    exact h.shares
  names := by
    have hnames : t.accounts.rows.map Account.name = s.accounts.rows.map Account.name :=
      map_eq_of_map_eq hs.accounts fun _ => rfl
    rw [hnames]
    exact h.names
  routes := by
    rw [hs.rest]
    exact h.routes

theorem Accounted.adjustWitnessVote (h : Accounted base d s) (owner : AccountName) (x : Int) :
    Returns (s.adjustWitnessVote owner x) (Accounted base d) :=
  ((OnlyVotes.refl s).adjustWitnessVote owner x).mono fun _ ht => h.onlyVotes ht

theorem Accounted.adjustProxiedBy {remaining : Nat} (h : Accounted base d s) (name : AccountName)
    (delta : Nat → Int) :
    Returns (Database.adjustProxiedBy remaining s name delta) (Accounted base d) :=
  ((OnlyVotes.refl s).adjustProxiedBy name delta).mono fun _ ht => h.onlyVotes ht

theorem Accounted.adjustProxiedWitnessVotes (h : Accounted base d s) (name : AccountName)
    (x : Int) :
    Returns (s.adjustProxiedWitnessVotes name x) (Accounted base d) :=
  ((OnlyVotes.refl s).adjustProxiedWitnessVotes name x).mono fun _ ht => h.onlyVotes ht

theorem Accounted.clearWitnessVotes (h : Accounted base d s) (name : AccountName) :
    Returns (s.clearWitnessVotes name) (Accounted base d) := by
  have hvotes : Accounted base d
      { s with witnessVotes := s.witnessVotes.filter fun v => v.account ≠ name } :=
    h.same rfl rfl rfl
  exact hvotes.modifyQuiet name fun _ => rfl

theorem Accounted.accountWitnessProxy (h : Accounted base d s) (account proxy : AccountName) :
    Returns (s.accountWitnessProxy account proxy) (Accounted base d) := by
  unfold Database.accountWitnessProxy
  refine .bind_any fun _ => .ensure fun _ => .bind_any fun a => .ensure fun _ => .ensure fun _ => ?_
  refine .bind (h.adjustProxiedBy account _) fun t ht => .ite (fun _ => ?_) fun _ => ?_
  · refine .bind_any fun _ => .bind_any fun _ => .bind (ht.clearWitnessVotes account) fun u hu => ?_
    exact .bind (hu.modifyQuiet account fun _ => rfl) fun v hv => hv.adjustProxiedBy account _
  · exact ht.modifyQuiet account fun _ => rfl

theorem Accounted.accountWitnessVote (h : Accounted base d s) (account witness : AccountName)
    (approve : Bool) :
    Returns (s.accountWitnessVote account witness approve) (Accounted base d) := by
  unfold Database.accountWitnessVote
  refine .bind_any fun _ => .bind_any fun a => .ensure fun _ => .ensure fun _ => .bind_any fun w =>
    .ite (fun _ => .ensure fun _ => ?_) fun _ => .ensure fun _ => .ensure fun _ => ?_
  · refine .bind (h.adjustWitnessVote _ _) fun t ht => ?_
    exact .bind (ht.modifyQuiet account fun _ => rfl) fun u hu => .pure (hu.same rfl rfl rfl)
  · have hvotes :
      Accounted base d { s with witnessVotes := s.witnessVotes ++ [⟨w.owner, account⟩] } :=
      h.same rfl rfl rfl
    exact .bind (hvotes.adjustWitnessVote _ _) fun t ht => ht.modifyQuiet account fun _ => rfl

theorem Accounted.processDeclineVotingRights (h : Accounted base d s) (account : AccountName) :
    Returns (s.processDeclineVotingRights account) (Accounted base d) := by
  unfold Database.processDeclineVotingRights
  refine .bind_any fun _ => .ensure fun _ => .bind_any fun a => ?_
  refine .bind (h.adjustProxiedBy account _) fun t ht => ?_
  refine .bind (ht.clearWitnessVotes account) fun u hu => ?_
  exact .bind (hu.modifyQuiet account fun _ => rfl) fun v hv =>
    .pure (hv.same rfl rfl rfl)

/-! ## Shares created and withdrawn -/

theorem Accounted.createVesting (h : Accounted base d s) (name : AccountName) (liquid : Asset) :
    Returns (s.createVesting name liquid) (Accounted base d) := by
  refine createVesting_cases s name liquid fun _ shares _ _ _ t a he u hu => ?_
  have ht := h.edit he rfl rfl
  have hprops : t.props = s.props := by rw [he.rest]
  have hu' := ht.count (t := u) (x := shares.amount) (by rw [hu]) (by rw [hu]) (by rw [hu, hprops])
  rw [add_sub_cancel_right] at hu'
  exact hu'.adjustProxiedWitnessVotes name _

theorem Accounted.transferToVesting (h : Accounted base d s) (sender recipient : AccountName)
    (amount : Asset) : Returns (s.transferToVesting sender recipient amount) (Accounted base d) :=
  transferToVesting_cases s sender recipient amount fun _ name ht _ =>
    (h.sameStake ht).createVesting name amount

theorem Accounted.claimRewardBalance (h : Accounted base d s) (account : AccountName)
    (gbc gbd vests : Int) :
    Returns (s.claimRewardBalance account gbc gbd vests) (Accounted base d) := by
  refine claimRewardBalance_cases s account gbc gbd vests fun _ t ht u a _ he v hv htotal => ?_
  have hu := (h.sameStake ht).edit he rfl (x := vests) rfl
  have hv' := hu.count (t := v) (by rw [hv]) (by rw [hv]) htotal
  rw [add_sub_cancel_right] at hv'
  exact hv'.adjustProxiedWitnessVotes account vests

/-! ## What a route deposits -/

/-- The part of `toWithdraw` that goes along a route. -/
def depositOf (toWithdraw : Int) (r : WithdrawVestingRoute) : Int :=
  toWithdraw * r.percent / hundredPercent

theorem depositOf_nonneg {toWithdraw : Int} (h : 0 ≤ toWithdraw) {r : WithdrawVestingRoute}
    (hr : 0 ≤ r.percent) : 0 ≤ depositOf toWithdraw r :=
  Int.ediv_nonneg (mul_nonneg h hr) (by decide)

theorem depositOf_le {toWithdraw : Int} (h : 0 ≤ toWithdraw) {r : WithdrawVestingRoute}
    (hr : r.percent ≤ hundredPercent) : depositOf toWithdraw r ≤ toWithdraw := by
  have hmul : toWithdraw * r.percent ≤ toWithdraw * hundredPercent := mul_le_mul_of_nonneg_left hr h
  calc depositOf toWithdraw r ≤ toWithdraw * hundredPercent / hundredPercent :=
        Int.ediv_le_ediv (by decide) hmul
    _ = toWithdraw := Int.mul_ediv_cancel _ (by decide)

theorem routeDeposit_eq {toWithdraw : Int} (h : 0 ≤ toWithdraw)
    (hlt : toWithdraw < 9223372036854775808) {r : WithdrawVestingRoute}
    (hr : 0 ≤ r.percent ∧ r.percent ≤ hundredPercent) :
    routeDeposit toWithdraw r = .ok (depositOf toWithdraw r) := by
  have hnonneg := depositOf_nonneg h hr.1
  have hle := depositOf_le h hr.2
  have hlow : toUInt128 toWithdraw = toWithdraw := toUInt128_of_mem h (by unfold maxUInt128; omega)
  have hprod : toUInt128 (toWithdraw * r.percent) = toWithdraw * r.percent := by
    apply toUInt128_of_mem (mul_nonneg h hr.1)
    have hmul : toWithdraw * r.percent ≤ toWithdraw * hundredPercent :=
      mul_le_mul_of_nonneg_left hr.2 h
    unfold hundredPercent at hmul
    unfold maxUInt128
    omega
  unfold routeDeposit lowWord
  rw [hlow, hprod]
  change _ = Except.ok (depositOf toWithdraw r)
  unfold depositOf at hnonneg hle ⊢
  rw [ensure_bind_eq_ok, pure_eq_ok]
  refine ⟨decide_eq_true (by omega), ?_⟩
  unfold toInt64
  rw [if_pos (by omega)]

theorem routeDeposit_nonneg {toWithdraw : Int} (hlow : -9223372036854775808 ≤ toWithdraw)
    (hlt : toWithdraw < 9223372036854775808) {r : WithdrawVestingRoute}
    (hr : 0 ≤ r.percent ∧ r.percent ≤ hundredPercent) :
    Returns (routeDeposit toWithdraw r) fun deposit => 0 ≤ deposit := by
  by_cases h : 0 ≤ toWithdraw
  · rw [routeDeposit_eq h hlt hr]
    exact .ok (depositOf_nonneg h hr.1)
  · exact (routeDeposit_of_neg (not_le.mp h) hlow hr).mono fun deposit hzero => hzero.ge

theorem weeklyWithdrawal_le (a : Account) :
    Returns (weeklyWithdrawal a) fun toWithdraw => toWithdraw ≤ a.vestingShares := by
  unfold weeklyWithdrawal
  refine .bind_any fun left => .ite (fun _ => .ensure fun _ => .pure ?_) fun _ => .pure ?_
  · exact min_le_left _ _
  · exact min_le_left _ _

section

variable {toWithdraw : Int} {r : WithdrawVestingRoute} {st : Database × Int}
  (hdeposit : Returns (routeDeposit toWithdraw r) fun deposit => 0 ≤ deposit)

include hdeposit

/-- In the first pass the receiver gets the shares, and the account that
withdraws them still has them too. -/
theorem Accounted.depositVests (h : Accounted base (d + st.2) st.1) :
    Returns (Database.depositVests toWithdraw st r) fun st' =>
      Accounted base (d + st'.2) st'.1 := by
  unfold Database.depositVests
  refine .ite (fun _ => .bind hdeposit fun deposit hnonneg => .ensure fun _ => ?_) fun _ => .ok h
  refine .ite (fun hpos => ?_) fun hzero => .pure ?_
  · refine .bind (modifyAccount_spec st.1 r.toAccount _) fun t ⟨a, he⟩ => ?_
    have ht := h.edit he rfl rfl
    refine .bind (ht.adjustProxiedWitnessVotes r.toAccount deposit) fun u hu => .pure ?_
    rwa [add_assoc] at hu
  · have hnone : deposit = 0 := by omega
    rwa [hnone, add_zero]

/-- In the second pass the shares are no longer counted, and the account still
has them. -/
theorem Accounted.depositGbc (h : Accounted base (d + st.2) st.1) :
    Returns (Database.depositGbc toWithdraw st r) fun st' => Accounted base (d + st'.2) st'.1 := by
  unfold Database.depositGbc
  refine .ite (fun _ => .ok h) fun _ => .bind_any fun _ => .bind hdeposit fun deposit hnonneg =>
    .ensure fun _ => .bind_any fun _ => .bind_any fun converted => ?_
  refine .ite (fun hpos => ?_) fun hzero => .pure ?_
  · refine .bind (h.modifyQuiet r.toAccount fun _ => rfl) fun t ht => ?_
    refine .bind (ht.modifyProps (x := -deposit) (sub_eq_add_neg _ _)) fun u hu => .pure ?_
    rwa [sub_neg_eq_add, add_assoc] at hu
  · have hnone : deposit = 0 := by omega
    rwa [hnone, add_zero]

end

theorem Accounted.processVestingWithdrawal (h : Accounted base d s) (htallied : Tallied s)
    (account : AccountName) : Returns (s.processVestingWithdrawal account) (Accounted base d) := by
  unfold Database.processVestingWithdrawal
  refine .bind_eq fun a ha => .ensure fun _ => .bind_eq fun toWithdraw hweek => ?_
  have hbounded := Books.bounded htallied a (getAccount_mem ha).1
  have hlow := weeklyWithdrawal_low hbounded toWithdraw hweek
  have hle := weeklyWithdrawal_le a toWithdraw hweek
  have hdeposit : ∀ r ∈ s.routesOf account,
      Returns (routeDeposit toWithdraw r) fun deposit => 0 ≤ deposit := fun r hr =>
    routeDeposit_nonneg hlow (hle.trans_lt hbounded.belowMax)
      (Books.percents htallied r (mem_routesOf hr))
  refine .bind (Returns.foldlM (P := fun st => Accounted base (d + st.2) st.1) (by rwa [add_zero])
    fun st hst r hr => hst.depositVests (hdeposit r hr)) fun ⟨t, asVests⟩ ht => ?_
  refine .bind
    (Returns.foldlM (P := fun st => Accounted base (d + asVests + st.2) st.1) (by rwa [add_zero])
    fun st hst r hr => hst.depositGbc (hdeposit r hr)) fun ⟨u, asGbc⟩ hu => ?_
  refine .ensure fun _ => .bind_any fun price => .bind_any fun converted => ?_
  refine .bind (modifyAccount_spec u account _) fun v ⟨c, he⟩ => ?_
  have hv := hu.edit he rfl (x := -toWithdraw) (sub_eq_add_neg _ _)
  refine .bind (hv.modifyProps (x := -(toWithdraw - asGbc - asVests)) (sub_eq_add_neg _ _))
    fun w hw => ?_
  -- what was deposited as shares is owned by the receivers, the rest by nobody
  have hdone : Accounted base d w := by
    have hsum : d + asVests + asGbc + -toWithdraw - -(toWithdraw - asGbc - asVests) = d := by omega
    rwa [hsum] at hw
  exact .ite (fun _ => hdone.adjustProxiedWitnessVotes account _) fun _ => .ok hdone

theorem Accounted.burnVestingShares (h : Accounted base d s) :
    Returns s.burnVestingShares fun st => Accounted base d st.1 := by
  refine burnVestingShares_cases h fun a ha x => ?_
  refine .bind (modifyProps_spec s _) fun t ⟨_, ht⟩ => ?_
  refine (modifyAccount_spec t nullAccount _).mono fun u ⟨c, he⟩ => ?_
  have hsame : c = a := by
    have hfound := he.found
    rw [ht] at hfound
    exact Except.ok.inj (hfound.symm.trans ha)
  have ht' := h.count (t := t) (x := -a.vestingShares) (by rw [ht]) (by rw [ht])
    (by rw [ht]; exact sub_eq_add_neg _ _)
  have hu := ht'.edit he rfl (x := -c.vestingShares) (by show (0 : Int) = _; omega)
  rwa [hsame, sub_neg_eq_add, add_neg_cancel_right] at hu

/-! ## New accounts -/

theorem Accounted.createAccount (h : Accounted base d s) (newName creator : AccountName)
    (received : Int) :
    Returns (s.createAccount newName creator received) (Accounted base d) := by
  refine (createAccount_spec s newName creator received).mono fun t ⟨_, a, ha, ht⟩ => ?_
  have hzero : a.vestingShares = 0 := congrArg Account.vestingShares ha
  rw [ht]
  exact
    { shares := by
        show sumOf Account.vestingShares (s.accounts.rows ++ [a]) = s.props.totalVestingShares + d
        rw [sumOf_append, sumOf_cons, sumOf_nil, hzero, add_zero, add_zero]
        exact h.shares
      names := by
        intro n hn
        rw [List.map_append]
        exact List.mem_append_left _ (h.names n hn)
      routes := h.routes }

theorem Accounted.createDelegation (h : Accounted base d s) (delegator delegatee : AccountName)
    (shares : Int) : Accounted base d (s.createDelegation delegator delegatee shares) := by
  unfold Database.createDelegation
  split
  · exact h.same rfl rfl rfl
  · exact h

theorem Accounted.accountCreate (h : Accounted base d s) (creator newName : AccountName)
    (auths : List AccountName) (fee : Int) :
    Returns (s.accountCreate creator newName auths fee) (Accounted base d) := by
  refine accountCreate_cases s creator newName auths fee (fun _ _ shares _ _ => ?_) fun _ => ?_
  · refine .bind (h.modifyQuiet creator fun _ => rfl) fun t ht => ?_
    exact .bind (ht.createAccount newName creator _) fun u hu => .pure (hu.createDelegation _ _ _)
  · refine .bind (h.modifyQuiet creator fun _ => rfl) fun t ht => ?_
    refine .bind (ht.createAccount newName creator 0) fun u hu => ?_
    exact .ite (fun _ => hu.createVesting newName _) fun _ => .ok hu

theorem Accounted.accountCreateWithDelegation (h : Accounted base d s)
    (creator newName : AccountName)
    (auths : List AccountName) (fee delegation : Int) :
    Returns (s.accountCreateWithDelegation creator newName auths fee delegation)
      (Accounted base d) := by
  refine accountCreateWithDelegation_cases s creator newName auths fee delegation
    fun _ _ _ _ _ => ?_
  refine .bind (h.modifyQuiet creator fun _ => rfl) fun t ht => ?_
  refine .bind (ht.createAccount newName creator delegation) fun u hu => ?_
  have hv := hu.createDelegation creator newName delegation
  exact .ite (fun _ => hv.createVesting newName _) fun _ => .ok hv

theorem Accounted.createClaimedAccount (h : Accounted base d s) (creator newName : AccountName)
    (auths : List AccountName) :
    Returns (s.createClaimedAccount creator newName auths) (Accounted base d) := by
  refine createClaimedAccount_cases s creator newName auths ?_
  exact .bind (h.modifyQuiet creator fun _ => rfl) fun t ht => ht.createAccount newName creator 0

/-! ## Delegations, requests and witnesses -/

theorem Accounted.withDelegations (h : Accounted base d s) (delegations : Table VestingDelegation)
    (expirations : Table VestingDelegationExpiration) :
    Accounted base d
      { s with
        vestingDelegations := delegations
        vestingDelegationExpirations := expirations } :=
  h.same rfl rfl rfl

theorem Accounted.delegateVestingShares (h : Accounted base d s) (delegator delegatee : AccountName)
    (shares : Int) :
    Returns (s.delegateVestingShares delegator delegatee shares) (Accounted base d) := by
  unfold Database.delegateVestingShares
  refine .bind_any fun _ => .ensure fun _ => .ensure fun _ => .bind_any fun _ => .bind_any fun _ =>
    .bind_any fun _ => .bind_any fun _ => .bind_any fun _ => .bind_any fun ⟨_, _⟩ => ?_
  dsimp only
  split
  · refine .ensure fun _ => .ensure fun _ => ?_
    refine .bind (h.withDelegations _ _ |>.modifyQuiet delegator fun _ => rfl) fun t ht => ?_
    exact ht.modifyQuiet delegatee fun _ => rfl
  · refine .ite (fun _ => ?_) fun _ => ?_
    · refine .bind_any fun _ => .ensure fun _ => .ensure fun _ => ?_
      refine .bind (h.modifyQuiet delegator fun _ => rfl) fun t ht => ?_
      refine .bind (ht.modifyQuiet delegatee fun _ => rfl) fun u hu => .pure ?_
      exact hu.withDelegations _ _
    · refine .bind_any fun _ => .bind_any fun _ => ?_
      refine .bind (h.withDelegations _ _ |>.modifyQuiet delegatee fun _ => rfl)
        fun t ht => .pure ?_
      exact ht.withDelegations _ _

theorem Accounted.clearExpiredDelegation (h : Accounted base d s) (id : Nat) :
    Returns (s.clearExpiredDelegation id) (Accounted base d) := by
  unfold Database.clearExpiredDelegation
  refine .bind_any fun _ => .ensure fun _ => ?_
  exact .bind (h.modifyQuiet _ fun _ => rfl) fun t ht => .pure (ht.same rfl rfl rfl)

theorem Accounted.reclaimAccountCreationDelegation (h : Accounted base d s) (id : Nat) :
    Returns (s.reclaimAccountCreationDelegation id) (Accounted base d) := by
  unfold Database.reclaimAccountCreationDelegation
  refine .bind_any fun _ => .ensure fun _ => ?_
  exact .bind (h.modifyQuiet _ fun _ => rfl) fun t ht => .pure (ht.same rfl rfl rfl)

theorem Accounted.declineVotingRights (h : Accounted base d s) (account : AccountName)
    (decline : Bool) : Returns (s.declineVotingRights account decline) (Accounted base d) := by
  unfold Database.declineVotingRights
  refine .bind_any fun _ => .bind_any fun _ => .ite (fun _ => .ensure fun _ => .pure ?_)
    fun _ => .ensure fun _ => .pure ?_
  · exact h.same rfl rfl rfl
  · exact h.same rfl rfl rfl

theorem Accounted.withdrawVesting (h : Accounted base d s) (account : AccountName) (shares : Int) :
    Returns (s.withdrawVesting account shares) (Accounted base d) :=
  withdrawVesting_cases s account shares fun _ _ _ _ _ _ _ _ =>
    h.modifyQuiet account fun _ => rfl

theorem Accounted.witnessUpdate (h : Accounted base d s) (owner : AccountName) (key : Option Nat)
    (fee : Int) (size rate : Nat) :
    Returns (s.witnessUpdate owner key fee size rate) (Accounted base d) := by
  unfold Database.witnessUpdate
  refine .bind_any fun _ => .ensure fun _ => .ensure fun _ => .ensure fun _ => .bind_any fun _ => ?_
  split
  · exact .pure (h.same rfl rfl rfl)
  · exact .pure (h.same rfl rfl rfl)

theorem Accounted.witnessSetProperties (h : Accounted base d s) (owner : AccountName)
    (key : Option Nat) (newKey : Option (Option Nat)) (fee : Option Int)
    (size rate limit : Option Nat) :
    Returns (s.witnessSetProperties owner key newKey fee size rate limit) (Accounted base d) := by
  unfold Database.witnessSetProperties
  exact .ensure fun _ => .bind_any fun _ => .ensure fun _ => .pure (h.same rfl rfl rfl)

theorem Accounted.recordMissedBlock (h : Accounted base d s) (owner : AccountName) :
    Returns (s.recordMissedBlock owner) (Accounted base d) := by
  unfold Database.recordMissedBlock
  exact .bind_any fun _ => .pure (h.same rfl rfl rfl)

theorem Accounted.sameWitnesses (h : Accounted base d s) (hs : SameWitnesses s t) :
    Accounted base d t :=
  h.same (by rw [hs.rest]) (by rw [hs.rest]) hs.totalVestingShares

/-! ## Routes -/

/-- What the routes of `name` add up to, in hundredths of a percent. -/
def routed (routes : Table WithdrawVestingRoute) (name : AccountName) : Int :=
  routes.total fun r => if r.fromAccount = name then r.percent else 0

/-- A route leads to an account, and no account gives away more than it has. -/
structure Routed (s : Database) : Prop where
  receiver : ∀ r ∈ s.withdrawVestingRoutes.rows, r.toAccount ∈ s.accounts.rows.map Account.name
  percents : ∀ name, routed s.withdrawVestingRoutes name ≤ hundredPercent

/-- A route that has been changed: the others are what they were, and the
account gives away at most `percent` more. -/
structure Rerouted (routes routes' : Table WithdrawVestingRoute) (name receiver : AccountName)
    (percent : Int) : Prop where
  others : ∀ n, n ≠ name → routed routes' n = routed routes n
  more : routed routes' name ≤ routed routes name + percent
  mem : ∀ r ∈ routes'.rows, r ∈ routes.rows ∨ r.toAccount = receiver

section

variable {routes : Table WithdrawVestingRoute} {receiver : AccountName} {percent : Int}
  {autoVest : Bool}

theorem rerouted_create :
    Rerouted routes (routes.create fun _ => ⟨name, receiver, percent, autoVest⟩) name receiver
      percent where
  others := by
    intro n hn
    unfold routed
    rw [Table.total_create, if_neg (Ne.symm hn), add_zero]
  more := by
    unfold routed
    rw [Table.total_create, if_pos rfl]
  mem := by
    intro r hr
    rcases List.mem_append.mp hr with hr | hr
    · exact Or.inl hr
    · rw [List.mem_singleton] at hr
      exact Or.inr (by rw [hr])

variable {r : WithdrawVestingRoute} (hfind : routes.find? (isRoute name receiver) = some r)
  (hr : 0 ≤ r.percent) (hpercent : 0 ≤ percent)

theorem isRoute_of_find? (hfind : routes.find? (isRoute name receiver) = some r) :
    r.fromAccount = name ∧ r.toAccount = receiver := by
  simpa [isRoute] using List.find?_some hfind

include hfind hr

include hpercent in
theorem rerouted_remove :
    Rerouted routes (routes.remove (isRoute name receiver)) name receiver percent := by
  obtain ⟨hfrom, -⟩ := isRoute_of_find? hfind
  exact
    { others := by
        intro n hn
        unfold routed
        rw [Table.total_remove hfind, if_neg (hfrom ▸ Ne.symm hn), sub_zero]
      more := by
        unfold routed
        rw [Table.total_remove hfind, if_pos hfrom]
        omega
      mem := fun r hr => Or.inl (List.mem_of_mem_eraseP hr) }

theorem rerouted_modify :
    Rerouted routes
      (routes.modify (isRoute name receiver) fun _ => ⟨name, receiver, percent, autoVest⟩) name
      receiver percent := by
  obtain ⟨hfrom, -⟩ := isRoute_of_find? hfind
  exact
    { others := by
        intro n hn
        unfold routed
        rw [Table.total_modify hfind, if_neg (hfrom ▸ Ne.symm hn), if_neg (Ne.symm hn), sub_zero,
          add_zero]
      more := by
        unfold routed
        rw [Table.total_modify hfind, if_pos hfrom, if_pos rfl]
        dsimp only
        omega
      mem := by
        intro r' hr'
        rcases (replaces_modifyFirst hfind _).symm.mem_of_mem hr' with rfl | hold
        · exact Or.inr rfl
        · exact Or.inl hold }

end

/-- The tables are there as if the routes had always been these. -/
theorem Accounted.withRoutes (h : Accounted s d s) (routes : Table WithdrawVestingRoute) :
    Accounted { s with withdrawVestingRoutes := routes } d
      { s with withdrawVestingRoutes := routes } :=
  ⟨h.shares, h.names, rfl⟩

theorem Rerouted.modifyAccount {routes : Table WithdrawVestingRoute} {receiver : AccountName}
    {percent : Int} (hchange : Rerouted s.withdrawVestingRoutes routes name receiver percent)
    (h : Accounted s 0 s) {f : Account → Account}
    (hf : ∀ a, ((f a).name, (f a).vestingShares) = (a.name, a.vestingShares)) :
    Returns ({ s with withdrawVestingRoutes := routes }.modifyAccount name f) fun t => ∃ routes,
      Rerouted s.withdrawVestingRoutes routes name receiver percent ∧
        Accounted { s with withdrawVestingRoutes := routes } 0 t :=
  ((h.withRoutes routes).modifyQuiet name hf).mono fun _ ht => ⟨routes, hchange, ht⟩

theorem changeRoute_spec (h : Accounted s 0 s) (hpercents : ∀ r ∈ s.withdrawVestingRoutes.rows,
    0 ≤ r.percent) (a : Account) (receiver : AccountName) {percent : Int} (hpercent : 0 ≤ percent)
    (autoVest : Bool) :
    Returns (s.changeRoute a receiver percent autoVest) fun t => ∃ routes,
      Rerouted s.withdrawVestingRoutes routes a.name receiver percent ∧
        Accounted { s with withdrawVestingRoutes := routes } 0 t := by
  unfold Database.changeRoute
  split
  · exact .ensure fun _ => .ensure fun _ => rerouted_create.modifyAccount h fun _ => rfl
  next r hfind =>
    have hr := hpercents r (List.mem_of_find?_eq_some hfind)
    refine .ite (fun _ => ?_) fun _ => .ok ⟨_, rerouted_modify hfind hr, h.withRoutes _⟩
    exact (rerouted_remove hfind hr hpercent).modifyAccount h fun _ => rfl

theorem sumOf_routesOf (g : WithdrawVestingRoute → Int) (s : Database) (name : AccountName) :
    sumOf g (s.routesOf name) =
      s.withdrawVestingRoutes.total fun r => if r.fromAccount = name then g r else 0 := by
  unfold routesOf
  rw [sumOf_perm (List.perm_insertionSort _ _), sumOf_filter]
  simp only [decide_eq_true_eq]
  rfl

/-- The sum is taken in 16 bits, but one route cannot bring it so far. -/
theorem Routed.setWithdrawVestingRoute (h : Routed s) (haccounted : Accounted s 0 s)
    (hpercents : ∀ r ∈ s.withdrawVestingRoutes.rows, 0 ≤ r.percent)
    (fromAccount toAccount : AccountName)
    (percent : Int) (autoVest : Bool) :
    Returns (s.setWithdrawVestingRoute fromAccount toAccount percent autoVest) fun t =>
      Tallied t → Accounted t 0 t ∧ Routed t := by
  unfold Database.setWithdrawVestingRoute
  refine .bind_any fun _ => .ensure fun hpercent => .bind_eq fun a ha => .bind_eq fun c hc => ?_
  rw [decide_eq_true_eq] at hpercent
  obtain ⟨-, hname⟩ := getAccount_mem ha
  refine .bind (changeRoute_spec haccounted hpercents a toAccount hpercent.1 autoVest)
    fun t ⟨routes, hchange, ht⟩ => .ensure fun hsum => .pure fun htallied => ?_
  have hroutes : t.withdrawVestingRoutes = routes := ht.routes
  rw [decide_eq_true_eq, sumOf_routesOf] at hsum
  change routed t.withdrawVestingRoutes fromAccount % 65536 ≤ hundredPercent at hsum
  refine ⟨⟨ht.shares, fun n hn => hn, rfl⟩, fun r hr => ?_, fun n => ?_⟩
  · apply ht.names
    rw [hroutes] at hr
    rcases hchange.mem r hr with hold | hnew
    · exact h.receiver r hold
    · rw [hnew, ← (getAccount_mem hc).2]
      exact List.mem_map_of_mem (getAccount_mem hc).1
  · rw [hroutes]
    by_cases hn : n = a.name
    · have hmore := hchange.more
      have hold := h.percents a.name
      have hnonneg : 0 ≤ routed t.withdrawVestingRoutes a.name := by
        apply sumOf_nonneg
        intro r hr
        split
        · exact (Books.percents htallied r hr).1
        · exact le_rfl
      rw [hroutes] at hnonneg hsum
      rw [hname] at hmore hold hnonneg hn
      rw [hn]
      unfold hundredPercent at hsum hold hpercent ⊢
      omega
    · rw [hchange.others n hn]
      exact h.percents n

/-! ## Runs -/

/-- **What one call does to the total**: nothing, and it takes no account away. -/
theorem Accounted.perform (h : Accounted base 0 s) (htallied : Tallied s) (c : Call)
    (hc : ∀ sender recipient percent autoVest,
      c ≠ .setWithdrawVestingRoute sender recipient percent autoVest) :
    Returns (s.perform c) (Accounted base 0) := by
  cases c with
  | createVesting name liquid => exact h.createVesting name liquid
  | transferToVesting sender recipient amount => exact h.transferToVesting sender recipient amount
  | claimRewardBalance account gbc gbd vests => exact h.claimRewardBalance account gbc gbd vests
  | withdrawVesting account shares => exact h.withdrawVesting account shares
  | setWithdrawVestingRoute sender recipient percent autoVest => exact absurd rfl (hc _ _ _ _)
  | processVestingWithdrawal account => exact h.processVestingWithdrawal htallied account
  | accountWitnessProxy account proxy => exact h.accountWitnessProxy account proxy
  | accountWitnessVote account witness approve => exact h.accountWitnessVote account witness approve
  | declineVotingRights account decline => exact h.declineVotingRights account decline
  | processDeclineVotingRights account => exact h.processDeclineVotingRights account
  | delegateVestingShares delegator delegatee shares =>
      exact h.delegateVestingShares delegator delegatee shares
  | clearExpiredDelegation id => exact h.clearExpiredDelegation id
  | reclaimAccountCreationDelegation id => exact h.reclaimAccountCreationDelegation id
  | accountCreate creator name auths fee => exact h.accountCreate creator name auths fee
  | accountCreateWithDelegation creator name auths fee delegation =>
      exact h.accountCreateWithDelegation creator name auths fee delegation
  | createClaimedAccount creator name auths => exact h.createClaimedAccount creator name auths
  | clearNullAccountBalance =>
      exact clearNullAccountBalance_cases h (fun h hs => h.sameStake hs) fun t ht =>
        ht.burnVestingShares
  | witnessUpdate owner key fee size rate => exact h.witnessUpdate owner key fee size rate
  | witnessSetProperties owner key newKey fee size rate limit =>
      exact h.witnessSetProperties owner key newKey fee size rate limit
  | recordMissedBlock owner => exact h.recordMissedBlock owner
  | updateWitnessSchedule =>
      exact (updateWitnessSchedule_same s).mono fun t ht => h.sameWitnesses ht
  | other => exact .ok h

theorem Routed.accounted (h : Routed s) (ht : Accounted s 0 t) : Accounted t 0 t ∧ Routed t := by
  refine ⟨⟨ht.shares, fun n hn => hn, rfl⟩, fun r hr => ?_, fun n => ?_⟩
  · rw [ht.routes] at hr
    exact ht.names _ (h.receiver r hr)
  · rw [ht.routes]
    exact h.percents n

theorem accounted_genesis (supply : Int) :
    Accounted (genesis supply) 0 (genesis supply) ∧ Routed (genesis supply) := by
  refine ⟨⟨rfl, fun n hn => hn, rfl⟩, fun r hr => ?_, fun n => ?_⟩
  · cases hr
  · show (0 : Int) ≤ hundredPercent
    decide

/-- **The shares of all accounts are counted**, and the routes lead somewhere. -/
theorem Reachable.accounted {C : Database → Call → Prop} (h : Reachable C s) :
    Accounted s 0 s ∧ Routed s := by
  refine Reachable.invariant (I := fun s => Accounted s 0 s ∧ Routed s) accounted_genesis
    (fun s t c hs ih _ ht => ?_) (fun s t ih hst => ih.2.accounted (ih.1.sameStake hst)) h
  by_cases hc : ∀ sender recipient percent autoVest,
      c ≠ .setWithdrawVestingRoute sender recipient percent autoVest
  · exact ih.2.accounted (ih.1.perform hs.tallied c hc t ht)
  · obtain ⟨sender, recipient, percent, autoVest, rfl⟩ :
        ∃ sender recipient percent autoVest,
          c = .setWithdrawVestingRoute sender recipient percent autoVest := by
      by_contra hnone
      exact hc fun sender recipient percent autoVest heq =>
        hnone ⟨sender, recipient, percent, autoVest, heq⟩
    have hpercents := fun r hr => (Books.percents hs.tallied r hr).1
    exact ih.2.setWithdrawVestingRoute ih.1 hpercents sender recipient percent autoVest t ht
      (hs.tallied.perform _ t ht)

/-! ## Who stands behind a witness -/

/-- The shares of `name` are voted for `witness`: by itself, or by the account
at the end of its chain of proxies. -/
def supports (s : Database) (name witness : AccountName) : Prop :=
  ∃ p ∈ s.accounts.rows.map Account.name, ⟨witness, p⟩ ∈ s.witnessVotes ∧
    ∃ k ∈ List.range 5, ancestor (proxyOf s.accounts.rows) k name = some p

instance (s : Database) (name witness : AccountName) : Decidable (s.supports name witness) :=
  inferInstanceAs (Decidable (∃ p ∈ s.accounts.rows.map Account.name, _))

/-- The shares voted for `witness`. -/
def supportOf (s : Database) (witness : AccountName) : Int :=
  s.accounts.total fun a => if s.supports a.name witness then a.vestingShares else 0

/-- The accounts, their proxies and their votes are the same. -/
structure SameVoters (s t : Database) : Prop where
  names : t.accounts.rows.map Account.name = s.accounts.rows.map Account.name
  proxies : proxyOf t.accounts.rows = proxyOf s.accounts.rows
  votes : t.witnessVotes = s.witnessVotes

theorem SameVoters.refl (s : Database) : SameVoters s s := ⟨rfl, rfl, rfl⟩

theorem SameVoters.trans (h : SameVoters s t) (h' : SameVoters t u) : SameVoters s u :=
  ⟨h'.names.trans h.names, h'.proxies.trans h.proxies, h'.votes.trans h.votes⟩

theorem SameVoters.of_edited (he : Edited s t name a a') (hname : a'.name = a.name)
    (hproxy : a'.proxy = a.proxy) (hnames : (s.accounts.rows.map Account.name).Nodup) :
    SameVoters s t :=
  ⟨he.replaces.map_eq hname, proxyOf_replaces he.replaces hname hproxy hnames, by rw [he.rest]⟩

theorem SameVoters.of_onlyVotes (h : OnlyVotes s t) : SameVoters s t :=
  ⟨map_eq_of_map_eq h.accounts fun _ => rfl,
    proxyOf_eq_of_map_eq (f := Account.withoutVotes) (fun _ => rfl) h.accounts, by rw [h.rest]⟩

theorem SameVoters.supports_iff (h : SameVoters s t) (name witness : AccountName) :
    t.supports name witness ↔ s.supports name witness := by
  unfold supports
  rw [h.names, h.proxies, h.votes]

/-- What is voted for a witness after an account has got `d` more shares. -/
theorem supportOf_edit (he : Edited s t name a { a with vestingShares := a.vestingShares + d })
    (hnames : (s.accounts.rows.map Account.name).Nodup) (hvotes : OnlyVotes t u)
    (witness : AccountName) :
    u.supportOf witness = s.supportOf witness + if s.supports name witness then d else 0 := by
  have ht := SameVoters.of_edited he rfl rfl hnames
  have hu := ht.trans (.of_onlyVotes hvotes)
  have hsum : u.supportOf witness =
      sumOf (fun a => if s.supports a.name witness then a.vestingShares else 0)
        u.accounts.rows := by
    apply sumOf_congr
    intro c _
    simp only [hu.supports_iff]
  have hedit := he.replaces.sumOf_eq
    fun a => if s.supports a.name witness then a.vestingShares else 0
  rw [hsum, sumOf_eq_of_map_eq hvotes.accounts fun _ => rfl, hedit]
  show s.supportOf witness - _ + _ = _
  dsimp only
  rw [he.name_eq]
  split
  · omega
  · omega

/-- **The votes of a witness** are the shares of the accounts that stand behind
it. -/
theorem Tallied.votes_eq (h : Tallied s) {w : Witness} (hw : w ∈ s.witnesses.rows) :
    w.votes = s.supportOf w.owner := by
  have hweight : ∀ a ∈ s.accounts.rows, ballot s.witnessVotes w.owner a.name * a.witnessVoteWeight =
      if ⟨w.owner, a.name⟩ ∈ s.witnessVotes then ∑ k ∈ Finset.range 5, s.page.level k a.name
      else 0 := by
    intro a ha
    have hsum : a.witnessVoteWeight = ∑ k ∈ Finset.range 5, s.page.level k a.name := by
      rw [Books.weight_eq h ha fun _ _ => rfl]
      simp only [Finset.sum_range_succ, Finset.sum_range_zero, zero_add]
      ring
    unfold ballot
    rw [hsum]
    split
    · rw [one_mul]
    · rw [zero_mul]
  have hroot : ∀ p ∈ s.accounts.rows.map Account.name, ⟨w.owner, p⟩ ∈ s.witnessVotes →
      s.page.up p = none := fun p _ hp => Books.voterRoot h _ hp
  have hroots := @sumOf_level_roots _ s.page.up _ _ Prod.fst Prod.snd s.stakes _ _ _ hroot
    (Books.names h) 5
  calc w.votes = sumOf (fun a => ballot s.witnessVotes w.owner a.name * a.witnessVoteWeight)
        s.accounts.rows := (Books.votes h w hw).trans (add_zero _)
    _ = sumOf (fun p => if ⟨w.owner, p⟩ ∈ s.witnessVotes then
          ∑ k ∈ Finset.range 5, s.page.level k p else 0) (s.accounts.rows.map Account.name) := by
        rw [sumOf_map]
        exact sumOf_congr hweight
    _ = s.supportOf w.owner := by
        refine hroots.trans ?_
        rw [Database.stakes, sumOf_map]
        rfl

section

variable (hshares : s.accounts.All fun a => 0 ≤ a.vestingShares)

include hshares

/-- Part of the shares are at most all shares. -/
theorem sumOf_shares_le (p : Account → Prop) [DecidablePred p] :
    sumOf (fun a => if p a then a.vestingShares else 0) s.accounts.rows ≤
      s.accounts.total Account.vestingShares := by
  apply sumOf_le_sumOf
  intro a ha
  split
  · exact le_rfl
  · exact hshares a ha

theorem shares_le_total (ha : a ∈ s.accounts.rows) :
    a.vestingShares ≤ s.accounts.total Account.vestingShares :=
  le_sumOf_of_mem ha hshares

theorem supportOf_le_total (witness : AccountName) :
    s.supportOf witness ≤ s.accounts.total Account.vestingShares :=
  sumOf_shares_le hshares _

theorem Tallied.proxied_le_total (h : Tallied s) (ha : a ∈ s.accounts.rows) (i : Fin 4) :
    a.proxiedVsfVotes.get i ≤ s.accounts.total Account.vestingShares := by
  rw [Books.proxied h a ha i, page_level]
  exact (add_zero _).le.trans (sumOf_shares_le hshares _)

/-- What an account has counts at the accounts above it. -/
theorem Tallied.shares_le_proxied (h : Tallied s) (ha : a ∈ s.accounts.rows) {p : Account}
    (hp : p ∈ s.accounts.rows) {i : Fin 4}
    (habove : ancestor (proxyOf s.accounts.rows) (i.val + 1) a.name = some p.name) :
    a.vestingShares ≤ p.proxiedVsfVotes.get i := by
  rw [Books.proxied h p hp i, page_level]
  show _ ≤ s.sharesBelow (i.val + 1) p.name + 0
  rw [add_zero]
  have hle :=
    le_sumOf_of_mem (g := fun a => if ancestor (proxyOf s.accounts.rows) (i.val + 1) a.name
    = some p.name then a.vestingShares else 0) ha fun c hc => by
      split
      · exact hshares c hc
      · exact le_rfl
  rwa [if_pos habove] at hle

theorem shares_le_supportOf (ha : a ∈ s.accounts.rows) {witness : AccountName}
    (hsupports : s.supports a.name witness) : a.vestingShares ≤ s.supportOf witness := by
  have hle :=
    le_sumOf_of_mem (g := fun a => if s.supports a.name witness then a.vestingShares else 0)
    ha fun c hc => by
      split
      · exact hshares c hc
      · exact le_rfl
  rwa [if_pos hsupports] at hle

end

end Database

end Gamebank.Ledger
