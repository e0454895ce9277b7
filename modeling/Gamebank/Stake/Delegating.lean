import Gamebank.Stake.Instalments

/-!
# Who changes the delegations

Most calls leave the table of delegations alone (`SameDelegations`). An account
may be created with a delegation, `delegate_vesting_shares` creates a
delegation, changes its shares or ends it, and the delegations of `initminer`
are called back: `perform_delegates` says what the table is after each call.
-/

namespace Gamebank.Ledger

open Gamebank.Lib Gamebank.Protocol

namespace Database

variable {s t u : Database} {name : AccountName} {a a' : Account}

/-! ## Calls that leave the delegations alone -/

def SameDelegations (s t : Database) : Prop := t.vestingDelegations = s.vestingDelegations

namespace SameDelegations

theorem refl (s : Database) : SameDelegations s s := rfl

theorem trans (h : SameDelegations s t) (h' : SameDelegations t u) : SameDelegations s u :=
  Eq.trans h' h

theorem of_samePower (h : SamePower s t) : SameDelegations s t := h.delegations

theorem of_sameStake (h : SameStake s t) : SameDelegations s t := h.vestingDelegations

theorem of_edited (he : Edited s t name a a') : SameDelegations s t := by
  unfold SameDelegations
  rw [he.rest]

theorem of_props {props : GlobalProperties} (h : t = { s with props := props }) :
    SameDelegations s t := by
  rw [h]
  exact refl s

theorem modifyAccount (h : SameDelegations s t) (name : AccountName) (f : Account → Account) :
    Returns (t.modifyAccount name f) (SameDelegations s) :=
  (modifyAccount_spec t name f).mono fun _ ⟨_, he⟩ => h.trans (.of_edited he)

theorem modifyProps (h : SameDelegations s t) (f : GlobalProperties → GlobalProperties) :
    Returns (t.modifyProps f) (SameDelegations s) := by
  refine (modifyProps_spec t f).mono fun u hu => ?_
  rw [hu.2]
  exact h

theorem adjustProxiedWitnessVotes (h : SameDelegations s t) (name : AccountName) (d : Int) :
    Returns (t.adjustProxiedWitnessVotes name d) (SameDelegations s) :=
  ((SamePower.refl t).adjustProxiedWitnessVotes name d).mono fun _ hu => h.trans (.of_samePower hu)

theorem createVesting (h : SameDelegations s t) (name : AccountName) (liquid : Asset) :
    Returns (t.createVesting name liquid) (SameDelegations s) := by
  refine createVesting_cases t name liquid fun _ shares _ _ _ u a he v hv => ?_
  have hu := h.trans (.of_edited he)
  exact (hu.trans (.of_props hv)).adjustProxiedWitnessVotes name _

theorem createAccount (h : SameDelegations s t) (newName creator : AccountName) (received : Int) :
    Returns (t.createAccount newName creator received) (SameDelegations s) := by
  refine (createAccount_spec t newName creator received).mono fun u ⟨_, a, _, hu⟩ => ?_
  rw [hu]
  exact h

end SameDelegations

theorem transferToVesting_sameDelegations (s : Database) (sender recipient : AccountName)
    (amount : Asset) :
    Returns (s.transferToVesting sender recipient amount) (SameDelegations s) :=
  transferToVesting_cases s sender recipient amount fun _ name ht _ =>
    (SameDelegations.of_sameStake ht).createVesting name amount

theorem claimRewardBalance_sameDelegations (s : Database) (name : AccountName)
    (gbc gbd vests : Int) :
    Returns (s.claimRewardBalance name gbc gbd vests) (SameDelegations s) := by
  refine claimRewardBalance_cases s name gbc gbd vests fun _ t ht u a _ he v hv _ => ?_
  have hu := (SameDelegations.of_sameStake ht).trans (.of_edited he)
  exact (hu.trans (.of_props hv)).adjustProxiedWitnessVotes name _

theorem withdrawVesting_sameDelegations (s : Database) (name : AccountName) (shares : Int) :
    Returns (s.withdrawVesting name shares) (SameDelegations s) :=
  withdrawVesting_cases s name shares fun _ _ _ _ _ _ _ _ =>
    (SameDelegations.refl s).modifyAccount name _

theorem processVestingWithdrawal_sameDelegations (s : Database) (account : AccountName) :
    Returns (s.processVestingWithdrawal account) (SameDelegations s) := by
  refine processVestingWithdrawal_cases ?_ ?_ ?_ ?_ ?_ (.refl s)
  · exact fun name x ht => ht.modifyAccount name _
  · exact fun name x ht => ht.modifyAccount name _
  · exact fun w x ht => ht.modifyAccount account _
  · exact fun x y ht => ht.modifyProps _
  · exact fun name d ht => ht.adjustProxiedWitnessVotes name d

theorem clearExpiredDelegation_sameDelegations (s : Database) (id : Nat) :
    Returns (s.clearExpiredDelegation id) (SameDelegations s) := by
  unfold Database.clearExpiredDelegation
  refine .bind_any fun e => .ensure fun _ => ?_
  exact .bind ((SameDelegations.refl s).modifyAccount e.delegator _) fun t ht => .pure ht

theorem createClaimedAccount_sameDelegations (s : Database) (creator newName : AccountName)
    (auths : List AccountName) :
    Returns (s.createClaimedAccount creator newName auths) (SameDelegations s) := by
  refine createClaimedAccount_cases s creator newName auths ?_
  refine .bind ((SameDelegations.refl s).modifyAccount creator _) fun t ht => ?_
  exact ht.createAccount newName creator 0

theorem clearNullAccountBalance_sameDelegations (s : Database) :
    Returns s.clearNullAccountBalance (SameDelegations s) := by
  refine clearNullAccountBalance_cases (.refl s)
    (fun h ht => SameDelegations.trans h (.of_sameStake ht)) fun t ht => ?_
  refine burnVestingShares_cases ht fun a _ x => ?_
  exact .bind (SameDelegations.modifyProps ht _) fun u hu => hu.modifyAccount nullAccount _

/-! ## Calls that change the delegations -/

/-- The delegations after a call. -/
inductive Delegates (s : Database) : Call → Table VestingDelegation → Prop
  | same (c : Call) : Delegates s c s.vestingDelegations
  | accountCreate (newName : AccountName) (auths : List AccountName) (fee shares : Int)
      (time : Nat) :
      Delegates s (.accountCreate initMinerName newName auths fee)
        (s.vestingDelegations.create fun id => ⟨id, initMinerName, newName, shares, time⟩)
  | accountCreateWithDelegation (creator newName : AccountName) (auths : List AccountName)
      (fee shares : Int) (time : Nat) :
      Delegates s (.accountCreateWithDelegation creator newName auths fee shares)
        (s.vestingDelegations.create fun id => ⟨id, creator, newName, shares, time⟩)
  | new {delegator delegatee : AccountName} (shares : Int)
      (h : s.vestingDelegations.find? (isDelegation delegator delegatee) = none) :
      Delegates s (.delegateVestingShares delegator delegatee shares)
        (s.vestingDelegations.create fun id => ⟨id, delegator, delegatee, shares, s.headBlockTime⟩)
  | changed {delegator delegatee : AccountName} (shares : Int) {d : VestingDelegation}
      (h : s.vestingDelegations.find? (isDelegation delegator delegatee) = some d) :
      Delegates s (.delegateVestingShares delegator delegatee shares)
        (s.vestingDelegations.modify (isDelegation delegator delegatee) fun d =>
          { d with vestingShares := shares })
  | ended (delegator delegatee : AccountName) (shares : Int) :
      Delegates s (.delegateVestingShares delegator delegatee shares)
        (s.vestingDelegations.remove (isDelegation delegator delegatee))
  | reclaimed (id : Nat) :
      Delegates s (.reclaimAccountCreationDelegation id) (s.vestingDelegations.remove fun d =>
        d.id = id)

theorem SameDelegations.delegates {x : Except String Database} (h : Returns x (SameDelegations s))
    (c : Call) : Returns x fun t => Delegates s c t.vestingDelegations :=
  h.mono fun t ht => by
    rw [show t.vestingDelegations = s.vestingDelegations from ht]
    exact .same c

theorem SamePower.delegates {x : Except String Database} (h : Returns x (SamePower s)) (c : Call) :
    Returns x fun t => Delegates s c t.vestingDelegations :=
  SameDelegations.delegates (h.mono fun _ ht => ht.delegations) c

theorem delegateVestingShares_delegates (s : Database) (delegator delegatee : AccountName)
    (shares : Int) :
    Returns (s.delegateVestingShares delegator delegatee shares) fun t =>
      Delegates s (.delegateVestingShares delegator delegatee shares) t.vestingDelegations := by
  unfold Database.delegateVestingShares
  refine .bind_any fun _ => .ensure fun _ => .ensure fun _ => .bind_any fun _ => .bind_any fun _ =>
    .bind_any fun _ => .bind_any fun _ => .bind_any fun _ => .bind_any fun ⟨_, _⟩ => ?_
  dsimp only
  split
  next hnone =>
    refine .ensure fun _ => .ensure fun _ => .bind (SameDelegations.modifyAccount rfl delegator _)
      fun t ht => (ht.modifyAccount delegatee _).mono fun u hu => ?_
    rw [show u.vestingDelegations = _ from hu]
    exact .new shares hnone
  next d hfind =>
    refine .ite (fun _ => .bind_any fun _ => .ensure fun _ => .ensure fun _ => ?_) fun _ =>
      .bind_any fun _ => .bind_any fun _ => ?_
    · refine .bind ((SameDelegations.refl s).modifyAccount delegator _) fun t ht => ?_
      refine .bind (ht.modifyAccount delegatee _) fun u hu => .pure ?_
      rw [show u.vestingDelegations = _ from hu]
      exact .changed shares hfind
    · refine .bind (SameDelegations.modifyAccount rfl delegatee _) fun t ht => .pure ?_
      rw [show t.vestingDelegations = _ from ht]
      dsimp only
      split
      · exact .changed shares hfind
      · exact .ended delegator delegatee shares

/-- The delegation of a new account. -/
theorem createDelegation_delegations (s : Database) (delegator delegatee : AccountName)
    (shares : Int) :
    SameDelegations s (s.createDelegation delegator delegatee shares) ∨
      (s.createDelegation delegator delegatee shares).vestingDelegations =
        s.vestingDelegations.create fun id =>
          ⟨id, delegator, delegatee, shares,
            addSeconds s.headBlockTime createAccountDelegationTime⟩ := by
  unfold Database.createDelegation
  split
  · exact Or.inr rfl
  · exact Or.inl rfl

theorem accountCreate_delegates (s : Database) (creator newName : AccountName)
    (auths : List AccountName) (fee : Int) :
    Returns (s.accountCreate creator newName auths fee) fun t =>
      Delegates s (.accountCreate creator newName auths fee) t.vestingDelegations := by
  have hs := SameDelegations.refl s
  refine accountCreate_cases s creator newName auths fee (fun hminer _ shares _ _ => ?_) fun _ => ?_
  · subst hminer
    refine .bind (hs.modifyAccount initMinerName _) fun t ht => ?_
    refine .bind (ht.createAccount newName initMinerName _) fun u hu => .pure ?_
    rcases createDelegation_delegations u initMinerName newName shares.amount with h | h
    · rw [show _ = _ from h, show u.vestingDelegations = _ from hu]
      exact .same _
    · rw [h, show u.vestingDelegations = _ from hu]
      exact .accountCreate newName auths fee shares.amount _
  · refine SameDelegations.delegates (.bind (hs.modifyAccount creator _) fun t ht => ?_) _
    refine .bind (ht.createAccount newName creator 0) fun u hu => ?_
    exact .ite (fun _ => hu.createVesting newName _) fun _ => .ok hu

theorem accountCreateWithDelegation_delegates (s : Database) (creator newName : AccountName)
    (auths : List AccountName) (fee delegation : Int) :
    Returns (s.accountCreateWithDelegation creator newName auths fee delegation) fun t =>
      Delegates s (.accountCreateWithDelegation creator newName auths fee delegation)
        t.vestingDelegations := by
  have hs := SameDelegations.refl s
  refine accountCreateWithDelegation_cases s creator newName auths fee delegation
    fun _ _ _ _ _ => ?_
  refine .bind (hs.modifyAccount creator _) fun t ht => ?_
  refine .bind (ht.createAccount newName creator delegation) fun u hu => ?_
  have hv : Returns (if 0 < fee then
      (u.createDelegation creator newName delegation).createVesting newName (.gbc fee)
      else .ok (u.createDelegation creator newName delegation))
      (SameDelegations (u.createDelegation creator newName delegation)) :=
    .ite (fun _ => (SameDelegations.refl _).createVesting newName _) fun _ => .ok (.refl _)
  refine hv.mono fun w hw => ?_
  rw [show w.vestingDelegations = _ from hw]
  rcases createDelegation_delegations u creator newName delegation with h | h
  · rw [show _ = _ from h, show u.vestingDelegations = _ from hu]
    exact .same _
  · rw [h, show u.vestingDelegations = _ from hu]
    exact .accountCreateWithDelegation creator newName auths fee delegation _

/-- `t` is `s` without the delegation `d`, which is on its way back. -/
structure Reclaimed (s : Database) (d : VestingDelegation) (t : Database) : Prop where
  delegations : t.vestingDelegations = s.vestingDelegations.remove fun c => c.id = d.id
  expirations : t.vestingDelegationExpirations = s.vestingDelegationExpirations.create fun id =>
    ⟨id, d.delegator, d.vestingShares,
      max (addSeconds s.headBlockTime s.props.delegationReturnPeriod) d.minDelegationTime⟩
  now : t.headBlockTime = s.headBlockTime

/-- The guard of `reclaim_account_creation_delegations`. -/
def due (s : Database) (d : VestingDelegation) : Bool :=
  d.delegator = initMinerName ∧ d.minDelegationTime < s.headBlockTime

theorem reclaimAccountCreationDelegation_spec (s : Database) (id : Nat) :
    Returns (s.reclaimAccountCreationDelegation id) fun t =>
      ∃ d, s.vestingDelegations.find? (fun d => d.id = id) = some d ∧ s.due d = true ∧
        Reclaimed s d t := by
  unfold Database.reclaimAccountCreationDelegation
  refine .bind_eq fun d hfind => .ensure fun hdue => ?_
  have hfind := require_eq_ok.mp hfind
  have hid : d.id = id := by simpa using List.find?_some hfind
  refine .bind (modifyAccount_spec s d.delegatee _) fun t ⟨a, he⟩ => .pure ⟨d, hfind, hdue, ?_⟩
  have hrest := he.rest
  constructor
  · rw [hrest, hid]
  · rw [hrest]
    rfl
  · rw [hrest]
    rfl

/-- What a call does to the delegations. -/
theorem perform_delegates (s : Database) (c : Call) :
    Returns (s.perform c) fun t => Delegates s c t.vestingDelegations := by
  have hs := SameDelegations.refl s
  cases c with
  | createVesting name liquid => exact SameDelegations.delegates (hs.createVesting name liquid) _
  | transferToVesting sender recipient amount =>
      exact SameDelegations.delegates
        (transferToVesting_sameDelegations s sender recipient amount) _
  | claimRewardBalance name gbc gbd vests =>
      exact SameDelegations.delegates (claimRewardBalance_sameDelegations s name gbc gbd vests) _
  | withdrawVesting name shares =>
      exact SameDelegations.delegates (withdrawVesting_sameDelegations s name shares) _
  | setWithdrawVestingRoute source target percent autoVest =>
      exact SamePower.delegates
        (setWithdrawVestingRoute_samePower s source target percent autoVest) _
  | processVestingWithdrawal name =>
      exact SameDelegations.delegates (processVestingWithdrawal_sameDelegations s name) _
  | accountWitnessProxy account proxy =>
      exact SamePower.delegates (accountWitnessProxy_samePower s account proxy) _
  | accountWitnessVote account witness approve =>
      exact SamePower.delegates (accountWitnessVote_samePower s account witness approve) _
  | declineVotingRights account decline =>
      exact SamePower.delegates (declineVotingRights_samePower s account decline) _
  | processDeclineVotingRights account =>
      exact SamePower.delegates (processDeclineVotingRights_samePower s account) _
  | delegateVestingShares delegator delegatee shares =>
      exact delegateVestingShares_delegates s delegator delegatee shares
  | clearExpiredDelegation id =>
      exact SameDelegations.delegates (clearExpiredDelegation_sameDelegations s id) _
  | reclaimAccountCreationDelegation id =>
      refine (reclaimAccountCreationDelegation_spec s id).mono fun t ⟨d, hfind, _, ht⟩ => ?_
      obtain rfl : d.id = id := by simpa using List.find?_some hfind
      rw [ht.delegations]
      exact .reclaimed d.id
  | accountCreate creator newName auths fee =>
      exact accountCreate_delegates s creator newName auths fee
  | accountCreateWithDelegation creator newName auths fee delegation =>
      exact accountCreateWithDelegation_delegates s creator newName auths fee delegation
  | createClaimedAccount creator newName auths =>
      exact SameDelegations.delegates
        (createClaimedAccount_sameDelegations s creator newName auths) _
  | clearNullAccountBalance =>
      exact SameDelegations.delegates (clearNullAccountBalance_sameDelegations s) _
  | witnessUpdate owner key fee size rate =>
      exact SamePower.delegates (witnessUpdate_samePower s owner key fee size rate) _
  | witnessSetProperties owner key newKey fee size rate limit =>
      exact SamePower.delegates
        (witnessSetProperties_samePower s owner key newKey fee size rate limit) _
  | recordMissedBlock owner => exact SamePower.delegates (recordMissedBlock_samePower s owner) _
  | updateWitnessSchedule =>
      exact SamePower.delegates ((updateWitnessSchedule_same s).mono fun _ h =>
        .of_sameWitnesses h) _
  | other => exact .ok (.same _)

theorem Step.delegates {c : Call} (h : Step s c t) : Delegates s c t.vestingDelegations := by
  cases h with
  | call h => exact perform_delegates s c t h
  | other h =>
      rw [h.vestingDelegations]
      exact .same _

end Database

end Gamebank.Ledger
