import Gamebank.Stake.Delegations

/-!
# What can happen to the power of an account

An account gains shares, delegates some, gets them back, and withdraws some
week by week. `Kept P` says that none of this breaks `P`; then no call breaks
it for any account (`Kept.perform`), as long as the GBC a call turns into
shares is worth fewer than `2 ^ 63` of them.
-/

namespace Gamebank.Ledger

open Gamebank.Lib Gamebank.Protocol

/-- What is promised of the shares of an account. -/
def Account.pledges (a : Account) : Account := { a.power with vestingShares := 0 }

/-- `c` is `a` with more shares. -/
def Account.GrownTo (a c : Account) : Prop :=
  c.pledges = a.pledges ∧ a.vestingShares ≤ c.vestingShares

theorem Account.GrownTo.congr {a c c' : Account} (hpower : c'.power = c.power) (h : a.GrownTo c) :
    a.GrownTo c' := by
  have hpledges := congrArg (fun b : Account => { b with vestingShares := 0 }) hpower
  have hshares := congrArg Account.vestingShares hpower
  exact ⟨hpledges.trans h.1, h.2.trans hshares.ge⟩

theorem Account.GrownTo.gain {a c : Account} {x : Int} (hx : 0 ≤ x) (h : a.GrownTo c) :
    a.GrownTo { c with vestingShares := c.vestingShares + x } :=
  ⟨h.1, h.2.trans (le_add_of_nonneg_right hx)⟩

namespace Database

variable {s t u : Database} {name : AccountName} {a a' : Account}
  {lend back : Account → Int → Prop} {P : Account → Prop}

/-- `P` survives what can happen to the power of an account. `lend` says what
`initminer` may delegate to an account it creates, `back` what comes back. -/
structure Kept (lend back : Account → Int → Prop) (P : Account → Prop) : Prop where
  congr : ∀ {a a' : Account}, a'.power = a.power → P a → P a'
  create : ∀ name amount, P { Account.make name with receivedVestingShares := amount }
  gain : ∀ {a : Account} {x : Int}, 0 ≤ x → P a →
    P { a with vestingShares := a.vestingShares + x }
  receive : ∀ {a : Account} (x : Int), P a → P { a with receivedVestingShares := x }
  delegate : ∀ {a : Account} {x : Int}, a.name ≠ nullAccount → 0 ≤ x →
    x ≤ a.vestingShares - a.delegatedVestingShares - (a.toWithdraw - a.withdrawn) → P a →
    P { a with delegatedVestingShares := a.delegatedVestingShares + x }
  lend : ∀ {a : Account} {x : Int}, a.name ≠ nullAccount → lend a x → P a →
    P { a with delegatedVestingShares := a.delegatedVestingShares + x }
  back : ∀ {a : Account} {x : Int}, back a x → P a →
    P { a with delegatedVestingShares := a.delegatedVestingShares - x }
  withdraw : ∀ {a : Account} {rate shares : Int} (next : Nat), a.name ≠ nullAccount → 0 < rate →
    0 < shares → shares ≤ a.vestingShares - a.delegatedVestingShares → P a →
    P { a with
      vestingWithdrawRate := rate, nextVestingWithdrawal := next, toWithdraw := shares
      withdrawn := 0 }
  week : ∀ {a c : Account} {toWithdraw : Int}, weeklyWithdrawal a = .ok toWithdraw →
    a.GrownTo c → P a → P c → P (c.withdrawWeek toWithdraw)
  burn : ∀ {a : Account}, a.name = nullAccount → P a → P { a with vestingShares := 0 }

/-! ## Steps -/

theorem Edited.all (he : Edited s t name a a') (h : s.accounts.All P) (ha : P a') :
    t.accounts.All P := by
  intro c hc
  rcases he.replaces.symm.mem_of_mem hc with rfl | hc
  · exact ha
  · exact h c hc

theorem SamePower.all (hs : SamePower s t) (h : s.accounts.All P)
    (hP : ∀ {a a' : Account}, a'.power = a.power → P a → P a') : t.accounts.All P :=
  forall_of_map_eq hs.accounts (fun _ => ⟨hP rfl, hP rfl⟩) h

/-! ## Shares that come -/

section

variable (hP : Kept lend back P)

include hP

theorem Kept.adjustProxiedWitnessVotes (h : s.accounts.All P) (name : AccountName) (d : Int) :
    Returns (s.adjustProxiedWitnessVotes name d) fun t => t.accounts.All P :=
  ((SamePower.refl s).adjustProxiedWitnessVotes name d).mono fun _ ht => ht.all h hP.congr

theorem Kept.createVesting (h : s.accounts.All P) (name : AccountName) (liquid : Asset)
    (hfits : s.props.sharesFor liquid.amount < 9223372036854775808) :
    Returns (s.createVesting name liquid) fun t => t.accounts.All P := by
  refine createVesting_cases s name liquid fun price shares hprice htimes hgbc t a he u hu => ?_
  have hnonneg : 0 ≤ shares.amount := by
    rw [GlobalProperties.times_of_fits hprice (Asset.eq_gbc hgbc ▸ htimes) hfits]
    exact s.props.sharesFor_nonneg _
  have ht := he.all h (hP.gain hnonneg (h a he.mem))
  have hu' : u.accounts = t.accounts := by rw [hu]
  exact hP.adjustProxiedWitnessVotes (hu' ▸ ht) name _

theorem Kept.transferToVesting (h : s.accounts.All P) (sender recipient : AccountName)
    (amount : Asset) (hfits : s.props.sharesFor amount.amount < 9223372036854775808) :
    Returns (s.transferToVesting sender recipient amount) fun t => t.accounts.All P := by
  refine transferToVesting_cases s sender recipient amount fun t name ht hprops => ?_
  exact hP.createVesting ((SamePower.of_sameStake ht).all h hP.congr) name amount (hprops ▸ hfits)

theorem Kept.claimRewardBalance (h : s.accounts.All P) (account : AccountName)
    (gbc gbd vests : Int) :
    Returns (s.claimRewardBalance account gbc gbd vests) fun t => t.accounts.All P := by
  refine claimRewardBalance_cases s account gbc gbd vests fun hvests t ht u a _ he v hv _ => ?_
  have ht' := (SamePower.of_sameStake ht).all h hP.congr
  have hu := he.all ht' (hP.congr (by rfl) (hP.gain hvests (ht' a he.mem)))
  have hv' : v.accounts = u.accounts := by rw [hv]
  exact hP.adjustProxiedWitnessVotes (hv' ▸ hu) account vests

/-! ## Powering down -/

theorem Kept.withdrawVesting (h : s.accounts.All P) (account : AccountName) (shares : Int) :
    Returns (s.withdrawVesting account shares) fun t => t.accounts.All P := by
  refine withdrawVesting_cases s account shares fun hnull hshares a ha hle rate hrate time => ?_
  refine (modifyAccount_spec s account _).mono fun t ⟨c, he⟩ => he.all h ?_
  obtain rfl := he.found_eq ha
  exact hP.withdraw time (he.name_eq ▸ hnull) hrate hshares hle (h c he.mem)

end

/-- What a route deposits as shares is a gain. -/
theorem all_of_depositVests {toWithdraw : Int} {st : Database × Int} (h : st.1.accounts.All P)
    (hcongr : ∀ {a a' : Account}, a'.power = a.power → P a → P a')
    (hgain : ∀ {a : Account} {x : Int}, 0 ≤ x → P a →
      P { a with vestingShares := a.vestingShares + x }) (r : WithdrawVestingRoute) :
    Returns (Database.depositVests toWithdraw st r) fun st' => st'.1.accounts.All P := by
  unfold Database.depositVests
  refine .ite (fun _ => .bind_any fun deposit => .ensure fun _ => ?_) fun _ => .ok h
  refine .ite (fun hpos => ?_) fun _ => .pure h
  refine .bind (modifyAccount_spec st.1 r.toAccount _) fun t ⟨a, he⟩ => ?_
  have ht := he.all h (hgain hpos.le (h a he.mem))
  refine .bind ((SamePower.refl t).adjustProxiedWitnessVotes r.toAccount deposit) fun u hu => ?_
  exact .pure (hu.all ht hcongr)

/-- What a route deposits as GBC is no power. -/
theorem depositGbc_samePower {toWithdraw : Int} {st : Database × Int} (hs : SamePower s st.1)
    (r : WithdrawVestingRoute) :
    Returns (Database.depositGbc toWithdraw st r) fun st' => SamePower s st'.1 := by
  unfold Database.depositGbc
  refine .ite (fun _ => .ok hs) fun _ => .bind_any fun _ => .bind_any fun deposit =>
    .ensure fun _ =>
    .bind_any fun _ => .bind_any fun converted => .ite (fun _ => ?_) fun _ => .pure hs
  refine .bind (hs.modifyAccount r.toAccount fun _ => rfl) fun t ht => ?_
  exact .bind (ht.modifyProps _) fun u hu => .pure hu

section

variable (hP : Kept lend back P)

include hP

theorem Kept.processVestingWithdrawal (h : s.accounts.All P)
    (hnames : (s.accounts.rows.map Account.name).Nodup) (account : AccountName) :
    Returns (s.processVestingWithdrawal account) fun t => t.accounts.All P := by
  unfold Database.processVestingWithdrawal
  refine .bind_eq fun a ha => .ensure fun _ => .bind_eq fun toWithdraw hweek => ?_
  obtain ⟨hmem, hname⟩ := getAccount_mem ha
  -- the account itself may be at the end of a route, so its shares may grow
  have hstart : s.accounts.All fun c => P c ∧ (c.name = account → a.GrownTo c) := by
    refine fun c hc => ⟨h c hc, fun heq => ?_⟩
    have hsame : c = a := List.inj_on_of_nodup_map hnames hc hmem (heq.trans hname.symm)
    exact hsame ▸ ⟨rfl, le_rfl⟩
  have hcongr : ∀ {c c' : Account}, c'.power = c.power → P c ∧ (c.name = account → a.GrownTo c) →
      P c' ∧ (c'.name = account → a.GrownTo c') := by
    intro c c' hpower hc
    have hname := congrArg Account.name hpower
    exact ⟨hP.congr hpower hc.1, fun heq => (hc.2 (hname.symm.trans heq)).congr hpower⟩
  refine .bind (Returns.foldlM
    (P := fun st => st.1.accounts.All fun c => P c ∧ (c.name = account → a.GrownTo c))
    hstart fun st hst r _ => all_of_depositVests hst hcongr
      (fun hx hc => ⟨hP.gain hx hc.1, fun heq => (hc.2 heq).gain hx⟩) r) fun ⟨t, asVests⟩ ht => ?_
  refine .bind (Returns.foldlM (P := fun st => SamePower t st.1) (SamePower.refl t)
    fun st hst r _ => depositGbc_samePower hst r) fun ⟨u, asGbc⟩ htu => ?_
  have hu := htu.all ht hcongr
  refine .ensure fun _ => .bind_any fun price => .bind_any fun converted => ?_
  refine .bind (modifyAccount_spec u account _) fun v ⟨c, he⟩ => ?_
  have hv : v.accounts.All P := by
    obtain ⟨hc, hgrown⟩ := hu c he.mem
    have hafter := hP.week hweek (hgrown he.name_eq) (h a hmem) hc
    exact he.all (fun c hc => (hu c hc).1) (hP.congr (a := c.withdrawWeek toWithdraw) rfl hafter)
  refine .bind (modifyProps_props v _) fun w hw => ?_
  have hw' : w.accounts.All P := by
    rw [hw]
    exact hv
  exact .ite (fun _ => hP.adjustProxiedWitnessVotes hw' account _) fun _ => .ok hw'

theorem Kept.clearNullAccountBalance (h : s.accounts.All P) :
    Returns s.clearNullAccountBalance fun t => t.accounts.All P := by
  refine clearNullAccountBalance_cases (P := fun t => t.accounts.All P) h
    (fun ht hsame => (SamePower.of_sameStake hsame).all ht hP.congr) fun t ht => ?_
  refine burnVestingShares_cases (P := fun t => t.accounts.All P) ht fun a _ x => ?_
  refine .bind (modifyProps_props t _) fun u hu => ?_
  have hu' : u.accounts.All P := by
    rw [hu]
    exact ht
  refine (modifyAccount_spec u nullAccount _).mono fun v ⟨c, he⟩ => ?_
  exact he.all hu' (hP.burn he.name_eq (hu' c he.mem))

/-! ## Delegating -/

theorem Kept.receive_modifyAccount (h : s.accounts.All P) (name : AccountName) (f : Int → Int) :
    Returns (s.modifyAccount name fun a =>
      { a with receivedVestingShares := f a.receivedVestingShares }) fun t => t.accounts.All P :=
  (modifyAccount_spec s name _).mono fun _ ⟨a, he⟩ => he.all h (hP.receive _ (h a he.mem))

theorem Kept.delegateVestingShares (h : s.accounts.All P) (delegator delegatee : AccountName)
    (shares : Int) :
    Returns (s.delegateVestingShares delegator delegatee shares) fun t => t.accounts.All P := by
  unfold Database.delegateVestingShares
  refine .bind_eq fun _ hsigned => .ensure fun _ => .ensure fun hnonneg => .bind_eq fun a ha =>
    .bind_any fun _ => .bind_eq fun free hfree => .bind_eq fun leaving hleaving =>
    .bind_eq fun available havailable => .bind_any fun ⟨_, _⟩ => ?_
  obtain rfl := checkedSub_eq_ok hfree
  obtain rfl := checkedSub_eq_ok hleaving
  obtain rfl := checkedSub_eq_ok havailable
  obtain ⟨hmem, hname⟩ := getAccount_mem ha
  have hnull : a.name ≠ nullAccount := hname ▸ signedBy_eq_ok.mp hsigned
  dsimp only
  split
  · refine .ensure fun hle => .ensure fun _ => ?_
    refine .bind (modifyAccount_spec _ delegator _) fun t ⟨c, he⟩ => ?_
    obtain rfl := he.found_eq ha
    have ht := he.all h (hP.delegate hnull (by simpa using hnonneg) (by simpa using hle) (h c hmem))
    exact hP.receive_modifyAccount ht delegatee fun n => n + shares
  next d hfind =>
    refine .ite (fun hmore => ?_) fun _ => ?_
    · refine .bind_eq fun delta hdelta => .ensure fun _ => .ensure fun hle => ?_
      obtain rfl := checkedSub_eq_ok hdelta
      refine .bind (modifyAccount_spec s delegator _) fun t ⟨c, he⟩ => ?_
      obtain rfl := he.found_eq ha
      have ht := he.all h (hP.delegate hnull (sub_nonneg.mpr hmore) (by simpa using hle) (h c hmem))
      refine .bind (hP.receive_modifyAccount ht delegatee fun n => n + (shares - d.vestingShares))
        fun u hu => .pure hu
    · refine .bind_any fun delta => .bind_any fun _ => ?_
      refine .bind (hP.receive_modifyAccount ?_ delegatee fun n => n - delta) fun u hu => .pure hu
      exact h

theorem Kept.clearExpiredDelegation (h : s.accounts.All P)
    (hback : ∀ e ∈ s.vestingDelegationExpirations.rows, ∀ a ∈ s.accounts.rows,
      a.name = e.delegator → back a e.vestingShares) (id : Nat) :
    Returns (s.clearExpiredDelegation id) fun t => t.accounts.All P := by
  unfold Database.clearExpiredDelegation
  refine .bind_eq fun e hfind => .ensure fun _ => ?_
  refine .bind (modifyAccount_spec s e.delegator _) fun t ⟨a, he⟩ => .pure ?_
  have hmem := List.mem_of_find?_eq_some (require_eq_ok.mp hfind)
  exact he.all h (hP.back (hback e hmem a he.mem he.name_eq) (h a he.mem))

theorem Kept.reclaimAccountCreationDelegation (h : s.accounts.All P) (id : Nat) :
    Returns (s.reclaimAccountCreationDelegation id) fun t => t.accounts.All P := by
  unfold Database.reclaimAccountCreationDelegation
  refine .bind_any fun d => .ensure fun _ => ?_
  refine .bind (hP.receive_modifyAccount h d.delegatee fun n => n - d.vestingShares) fun t ht => ?_
  exact .pure ht

/-! ## New accounts -/

theorem Kept.createAccount (h : s.accounts.All P) (newName creator : AccountName) (amount : Int) :
    Returns (s.createAccount newName creator amount) fun t =>
      t.accounts.All P ∧ t.props = s.props := by
  refine (createAccount_spec s newName creator amount).mono fun t ⟨_, a, ha, ht⟩ => ?_
  refine ⟨fun c hc => ?_, by rw [ht]⟩
  rw [ht] at hc
  rcases List.mem_append.mp hc with hc | hc
  · exact h c hc
  · rw [List.mem_singleton] at hc
    have hpower := congrArg Account.power ha
    exact hP.congr (hc ▸ hpower) (hP.create newName amount)

/-- An account modified in other fields. -/
theorem Kept.modifyOther (h : s.accounts.All P) (name : AccountName) {f : Account → Account}
    (hf : ∀ a, (f a).power = a.power) :
    Returns (s.modifyAccount name f) fun t => t.accounts.All P ∧ t.props = s.props :=
  (modifyAccount_spec s name f).mono fun _ ⟨a, he⟩ =>
    ⟨he.all h (hP.congr (hf a) (h a he.mem)), by rw [he.rest]⟩

theorem Kept.accountCreate (h : s.accounts.All P) (creator newName : AccountName)
    (auths : List AccountName) (fee : Int)
    (hlend : creator = initMinerName → ∀ a ∈ s.accounts.rows, a.name = initMinerName →
      lend a (toInt64 (s.props.sharesFor fee)))
    (hfits : creator ≠ initMinerName → s.props.sharesFor fee < 9223372036854775808) :
    Returns (s.accountCreate creator newName auths fee) fun t => t.accounts.All P := by
  refine accountCreate_cases s creator newName auths fee
    (fun hminer price shares hprice htimes => ?_)
    fun hminer => ?_
  · have hshares := GlobalProperties.times_sharesFor hprice fee shares htimes
    refine .bind (modifyAccount_spec s creator _) fun t ⟨c, he⟩ => ?_
    have hname : c.name = initMinerName := he.name_eq.trans hminer
    have hnull : c.name ≠ nullAccount := by
      rw [hname]
      decide
    have hc := hlend hminer c he.mem hname
    have ht := he.all h (hP.lend hnull (hshares ▸ hc) (h c he.mem))
    refine .bind (hP.createAccount ht newName creator shares.amount) fun u hu => .pure ?_
    rw [(createDelegation_accounts u _ _ _).1]
    exact hu.1
  · refine .bind (hP.modifyOther h creator fun _ => rfl) fun t ⟨ht, hprops⟩ => ?_
    refine .bind (hP.createAccount ht newName creator 0) fun u ⟨hu, hprops'⟩ => ?_
    refine .ite (fun _ => hP.createVesting hu newName _ ?_) fun _ => .ok hu
    rw [hprops', hprops]
    exact hfits hminer

theorem Kept.accountCreateWithDelegation (h : s.accounts.All P) (creator newName : AccountName)
    (auths : List AccountName) (fee delegation : Int)
    (hfits : s.props.sharesFor fee < 9223372036854775808) :
    Returns (s.accountCreateWithDelegation creator newName auths fee delegation) fun t =>
      t.accounts.All P := by
  refine accountCreateWithDelegation_cases s creator newName auths fee delegation
    fun hnull hnonneg a ha hle => ?_
  refine .bind (modifyAccount_spec s creator _) fun t ⟨c, he⟩ => ?_
  obtain rfl := he.found_eq ha
  have hc := hP.delegate (he.name_eq ▸ hnull) hnonneg hle (h c he.mem)
  have ht := he.all h (hP.congr (by rfl) hc)
  refine .bind (hP.createAccount ht newName creator delegation) fun u ⟨hu, hprops⟩ => ?_
  obtain ⟨haccounts, hprops'⟩ := createDelegation_accounts u creator newName delegation
  have hv : (u.createDelegation creator newName delegation).accounts.All P := haccounts ▸ hu
  refine .ite (fun _ => hP.createVesting hv newName _ ?_) fun _ => .ok hv
  rw [hprops', hprops, he.rest]
  exact hfits

theorem Kept.createClaimedAccount (h : s.accounts.All P) (creator newName : AccountName)
    (auths : List AccountName) :
    Returns (s.createClaimedAccount creator newName auths) fun t => t.accounts.All P := by
  refine createClaimedAccount_cases s creator newName auths ?_
  refine .bind (hP.modifyOther h creator fun _ => rfl) fun t ⟨ht, _⟩ => ?_
  exact (hP.createAccount ht newName creator 0).mono fun u hu => hu.1

end

/-! ## Calls -/

/-- The GBC that a call turns into vesting shares. -/
def convertedAmount : Call → Option Int
  | .createVesting _ liquid => some liquid.amount
  | .transferToVesting _ _ amount => some amount.amount
  | .accountCreate creator _ _ fee => if creator = initMinerName then none else some fee
  | .accountCreateWithDelegation _ _ _ fee _ => some fee
  | _ => none

/-- It is worth fewer than `2 ^ 63` shares. -/
def sharesFit (s : Database) (c : Call) : Prop :=
  ∀ amount ∈ convertedAmount c, s.props.sharesFor amount < 9223372036854775808

instance (s : Database) (c : Call) : Decidable (sharesFit s c) :=
  inferInstanceAs (Decidable (∀ amount ∈ convertedAmount c, _))

/-- **What one call does to the power of the accounts**: nothing that would
break `P`. -/
theorem Kept.perform (hP : Kept lend back P) (h : s.accounts.All P)
    (hnames : (s.accounts.rows.map Account.name).Nodup) (c : Call) (hfits : sharesFit s c)
    (hlend : ∀ fee ∈ lentFee c, ∀ a ∈ s.accounts.rows, a.name = initMinerName →
      lend a (toInt64 (s.props.sharesFor fee)))
    (hback : ∀ e ∈ s.vestingDelegationExpirations.rows, ∀ a ∈ s.accounts.rows,
      a.name = e.delegator → back a e.vestingShares) :
    Returns (s.perform c) fun t => t.accounts.All P := by
  have same : ∀ {x}, Returns x (SamePower s) → Returns x fun t => t.accounts.All P :=
    fun hx => hx.mono fun _ ht => ht.all h hP.congr
  cases c with
  | createVesting name liquid => exact hP.createVesting h name liquid (hfits _ rfl)
  | transferToVesting sender recipient amount =>
      exact hP.transferToVesting h sender recipient amount (hfits _ rfl)
  | claimRewardBalance account gbc gbd vests => exact hP.claimRewardBalance h account gbc gbd vests
  | withdrawVesting account shares => exact hP.withdrawVesting h account shares
  | setWithdrawVestingRoute sender recipient percent autoVest =>
      exact same (setWithdrawVestingRoute_samePower s sender recipient percent autoVest)
  | processVestingWithdrawal account => exact hP.processVestingWithdrawal h hnames account
  | accountWitnessProxy account proxy => exact same (accountWitnessProxy_samePower s account proxy)
  | accountWitnessVote account witness approve =>
      exact same (accountWitnessVote_samePower s account witness approve)
  | declineVotingRights account decline =>
      exact same (declineVotingRights_samePower s account decline)
  | processDeclineVotingRights account =>
      exact same (processDeclineVotingRights_samePower s account)
  | delegateVestingShares delegator delegatee shares =>
      exact hP.delegateVestingShares h delegator delegatee shares
  | clearExpiredDelegation id => exact hP.clearExpiredDelegation h hback id
  | reclaimAccountCreationDelegation id => exact hP.reclaimAccountCreationDelegation h id
  | accountCreate creator name auths fee =>
      exact hP.accountCreate h creator name auths fee (fun hminer => hlend fee (if_pos hminer))
        fun hminer => hfits fee (if_neg hminer)
  | accountCreateWithDelegation creator name auths fee delegation =>
      exact hP.accountCreateWithDelegation h creator name auths fee delegation (hfits _ rfl)
  | createClaimedAccount creator name auths => exact hP.createClaimedAccount h creator name auths
  | clearNullAccountBalance => exact hP.clearNullAccountBalance h
  | witnessUpdate owner key fee size rate =>
      exact same (witnessUpdate_samePower s owner key fee size rate)
  | witnessSetProperties owner key newKey fee size rate limit =>
      exact same (witnessSetProperties_samePower s owner key newKey fee size rate limit)
  | recordMissedBlock owner => exact same (recordMissedBlock_samePower s owner)
  | updateWitnessSchedule =>
      exact same ((updateWitnessSchedule_same s).mono fun _ ht => .of_sameWitnesses ht)
  | other => exact .ok h

end Database

end Gamebank.Ledger
