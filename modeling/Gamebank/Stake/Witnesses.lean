import Gamebank.Stake.Accounts

/-!
# What can happen to a witness between two rounds

Between two calls of `update_witness_schedule` the schedule stays as it is, no
witness goes away, and what happens to the votes and the virtual time of a
witness is that its votes change, by `Witness.moveVotes`. `Paced now Q` says
that this does not break `Q` at the virtual time `now`; then no other call
breaks it for any witness (`Paced.perform`).
-/

namespace Gamebank.Ledger

open Gamebank.Lib Gamebank.Protocol

/-- Who a witness is, its votes and its place in virtual time. -/
def Witness.clock (w : Witness) : Witness :=
  { Witness.make w.id w.owner with
    votes := w.votes
    virtualLastUpdate := w.virtualLastUpdate
    virtualPosition := w.virtualPosition
    virtualScheduledTime := w.virtualScheduledTime }

namespace Database

variable {r s t u : Database} {now : Int} {Q : Witness → Prop}

/-- `Q` survives a change of votes at the virtual time `now`. -/
structure Paced (now : Int) (Q : Witness → Prop) : Prop where
  congr : ∀ {w w' : Witness}, w'.clock = w.clock → Q w → Q w'
  create : ∀ id owner, Q (Witness.make id owner)
  move : ∀ {w : Witness} {d : Int}, fitsInt64 (w.votes + d) = true → w.votes + d ≠ -1 → Q w →
    Q (w.moveVotes now d)

/-- The ids of the witnesses count up. -/
def Numbered (s : Database) : Prop :=
  s.witnesses.rows.map Witness.id = List.range s.witnesses.nextId

/-- `s` is a state on the way from `r` to the end of a call. -/
structure Between (r : Database) (Q : Witness → Prop) (s : Database) : Prop where
  schedule : s.schedule.standing = r.schedule.standing
  owners : r.witnesses.rows.map Witness.owner ⊆ s.witnesses.rows.map Witness.owner
  numbered : Numbered r → Numbered s
  witnesses : s.witnesses.All Q

theorem Between.start (h : s.witnesses.All Q) : Between s Q s := ⟨rfl, List.Subset.refl _, id, h⟩

/-! ## Steps -/

theorem Between.same (h : Between r Q s) (hwitnesses : t.witnesses = s.witnesses)
    (hschedule : t.schedule = s.schedule) : Between r Q t where
  schedule := hschedule ▸ h.schedule
  owners := hwitnesses ▸ h.owners
  numbered := by
    unfold Numbered
    rw [hwitnesses]
    exact h.numbered
  witnesses := hwitnesses ▸ h.witnesses

theorem Between.modifyAccount (h : Between r Q s) (name : AccountName) (f : Account → Account) :
    Returns (s.modifyAccount name f) (Between r Q) :=
  (modifyAccount_spec s name f).mono fun _ ⟨_, he⟩ => h.same (by rw [he.rest]) (by rw [he.rest])

theorem Between.modifyProps (h : Between r Q s) (f : GlobalProperties → GlobalProperties) :
    Returns (s.modifyProps f) (Between r Q) :=
  (modifyProps_spec s f).mono fun _ ht => h.same (by rw [ht.2]) (by rw [ht.2])

theorem Between.withVotes (h : Between r Q s) (votes : List WitnessVote) :
    Between r Q { s with witnessVotes := votes } :=
  h.same rfl rfl

theorem Between.clearWitnessVotes (h : Between r Q s) (name : AccountName) :
    Returns (s.clearWitnessVotes name) (Between r Q) :=
  (h.withVotes _).modifyAccount name _

theorem Between.createAccount (h : Between r Q s) (newName creator : AccountName) (amount : Int) :
    Returns (s.createAccount newName creator amount) (Between r Q) :=
  (createAccount_spec s newName creator amount).mono fun _ ⟨_, _, _, ht⟩ =>
    h.same (by rw [ht]) (by rw [ht])

theorem Between.createDelegation (h : Between r Q s) (delegator delegatee : AccountName)
    (shares : Int) : Between r Q (s.createDelegation delegator delegatee shares) := by
  unfold Database.createDelegation
  split
  · exact h.same rfl rfl
  · exact h

/-! ## What is not about witnesses -/

theorem Between.withdrawVesting (h : Between r Q s) (account : AccountName) (shares : Int) :
    Returns (s.withdrawVesting account shares) (Between r Q) :=
  withdrawVesting_cases s account shares fun _ _ _ _ _ _ _ _ => h.modifyAccount account _

theorem Between.withRoutes (h : Between r Q s) (routes : Table WithdrawVestingRoute) :
    Between r Q { s with withdrawVestingRoutes := routes } :=
  h.same rfl rfl

theorem Between.setWithdrawVestingRoute (h : Between r Q s) (fromAccount toAccount : AccountName)
    (percent : Int) (autoVest : Bool) :
    Returns (s.setWithdrawVestingRoute fromAccount toAccount percent autoVest) (Between r Q) := by
  unfold Database.setWithdrawVestingRoute
  refine .bind_any fun _ => .ensure fun _ => .bind_any fun a => .bind_any fun _ =>
    .bind (?_ : Returns _ (Between r Q)) fun t ht => .ensure fun _ => .pure ht
  unfold changeRoute
  split
  · exact .ensure fun _ => .ensure fun _ => (h.withRoutes _).modifyAccount a.name _
  · exact .ite (fun _ => (h.withRoutes _).modifyAccount a.name _) fun _ => .ok (h.withRoutes _)

theorem Between.declineVotingRights (h : Between r Q s) (account : AccountName) (decline : Bool) :
    Returns (s.declineVotingRights account decline) (Between r Q) := by
  unfold Database.declineVotingRights
  exact .bind_any fun _ => .bind_any fun _ =>
    .ite (fun _ => .ensure fun _ => .pure (h.same rfl rfl))
    fun _ => .ensure fun _ => .pure (h.same rfl rfl)

theorem Between.withTables (h : Between r Q s) (delegations : Table VestingDelegation)
    (expirations : Table VestingDelegationExpiration) :
    Between r Q
      { s with vestingDelegations := delegations, vestingDelegationExpirations := expirations } :=
  h.same rfl rfl

theorem Between.delegateVestingShares (h : Between r Q s) (delegator delegatee : AccountName)
    (shares : Int) :
    Returns (s.delegateVestingShares delegator delegatee shares) (Between r Q) := by
  unfold Database.delegateVestingShares
  refine .bind_any fun _ => .ensure fun _ => .ensure fun _ => .bind_any fun _ => .bind_any fun _ =>
    .bind_any fun _ => .bind_any fun _ => .bind_any fun _ => .bind_any fun ⟨_, _⟩ => ?_
  dsimp only
  split
  · refine .ensure fun _ => .ensure fun _ => ?_
    refine .bind ((h.withTables _ s.vestingDelegationExpirations).modifyAccount delegator _)
      fun t ht => ?_
    exact ht.modifyAccount delegatee _
  · refine .ite (fun _ => ?_) fun _ => ?_
    · refine .bind_any fun _ => .ensure fun _ => .ensure fun _ => ?_
      refine .bind (h.modifyAccount delegator _) fun t ht => ?_
      exact .bind (ht.modifyAccount delegatee _) fun u hu => .pure (hu.same rfl rfl)
    · refine .bind_any fun _ => .bind_any fun _ => ?_
      refine .bind ((h.withTables s.vestingDelegations _).modifyAccount delegatee _) fun t ht => ?_
      exact .pure (ht.same rfl rfl)

theorem Between.clearExpiredDelegation (h : Between r Q s) (id : Nat) :
    Returns (s.clearExpiredDelegation id) (Between r Q) := by
  unfold Database.clearExpiredDelegation
  refine .bind_any fun e => .ensure fun _ => ?_
  exact .bind (h.modifyAccount e.delegator _) fun t ht => .pure (ht.same rfl rfl)

theorem Between.reclaimAccountCreationDelegation (h : Between r Q s) (id : Nat) :
    Returns (s.reclaimAccountCreationDelegation id) (Between r Q) := by
  unfold Database.reclaimAccountCreationDelegation
  refine .bind_any fun d => .ensure fun _ => ?_
  exact .bind (h.modifyAccount d.delegatee _) fun t ht => .pure (ht.same rfl rfl)

theorem Between.createClaimedAccount (h : Between r Q s) (creator newName : AccountName)
    (auths : List AccountName) :
    Returns (s.createClaimedAccount creator newName auths) (Between r Q) := by
  refine createClaimedAccount_cases s creator newName auths ?_
  exact .bind (h.modifyAccount creator _) fun t ht => ht.createAccount newName creator 0

/-! ## Votes -/

theorem EditedWitness.all {owner : AccountName} {w w' : Witness} (he : EditedWitness s t owner w w')
    (h : s.witnesses.All Q) (hw : Q w') : t.witnesses.All Q := by
  intro c hc
  rcases he.replaces.symm.mem_of_mem hc with rfl | hc
  · exact hw
  · exact h c hc

section

variable (hQ : Paced r.schedule.currentVirtualTime Q)

include hQ

theorem Between.sameStake (h : Between r Q s) (hs : SameStake s t) : Between r Q t where
  schedule := hs.schedule.trans h.schedule
  owners := by
    rw [map_eq_of_map_eq hs.witnesses fun _ => rfl]
    exact h.owners
  numbered := by
    unfold Numbered
    rw [hs.nextWitness, map_eq_of_map_eq hs.witnesses fun _ => rfl]
    exact h.numbered
  witnesses := by
    have hclock : t.witnesses.rows.map Witness.clock = s.witnesses.rows.map Witness.clock :=
      map_eq_of_map_eq hs.witnesses fun _ => rfl
    exact forall_of_map_eq hclock (fun _ => ⟨hQ.congr rfl, hQ.congr rfl⟩) h.witnesses

theorem Between.adjustWitnessVote (h : Between r Q s) (owner : AccountName) (d : Int) :
    Returns (s.adjustWitnessVote owner d) (Between r Q) := by
  refine (adjustWitnessVote_spec s owner d).mono fun t ⟨w, he, hfits, _, hne⟩ => ?_
  have hnow := congrArg WitnessSchedule.currentVirtualTime h.schedule
  have hw : w ∈ s.witnesses.rows := he.replaces.mem_old
  have howners : t.witnesses.rows.map Witness.owner = s.witnesses.rows.map Witness.owner :=
    he.replaces.map_eq rfl
  have hids : t.witnesses.rows.map Witness.id = s.witnesses.rows.map Witness.id :=
    he.replaces.map_eq rfl
  have hnext : t.witnesses.nextId = s.witnesses.nextId := by rw [he.rest]
  refine ⟨by rw [he.rest]; exact h.schedule, by rw [howners]; exact h.owners, ?_, ?_⟩
  · unfold Numbered
    rw [hids, hnext]
    exact h.numbered
  refine he.all h.witnesses ?_
  rw [show s.schedule.currentVirtualTime = r.schedule.currentVirtualTime from hnow]
  exact hQ.move hfits hne (h.witnesses w hw)

theorem Between.adjustWitnessVotes (h : Between r Q s) (name : AccountName) (d : Int) :
    Returns (s.adjustWitnessVotes name d) (Between r Q) :=
  .foldlM h fun _ hu v _ => hu.adjustWitnessVote hQ v.witness d

theorem Between.adjustProxiedBy {remaining : Nat} (h : Between r Q s) (name : AccountName)
    (delta : Nat → Int) :
    Returns (Database.adjustProxiedBy remaining s name delta) (Between r Q) := by
  induction remaining generalizing s name with
  | zero =>
      unfold Database.adjustProxiedBy
      exact .bind_any fun a => .ite (fun _ => .pure h) fun _ => h.adjustWitnessVotes hQ name _
  | succ remaining ih =>
      unfold Database.adjustProxiedBy
      refine .bind_any fun a => .ite (fun _ => ?_) fun _ => h.adjustWitnessVotes hQ name _
      exact .bind (h.modifyAccount a.proxy _) fun u hu => ih hu a.proxy

theorem Between.adjustProxiedWitnessVotes (h : Between r Q s) (name : AccountName) (d : Int) :
    Returns (s.adjustProxiedWitnessVotes name d) (Between r Q) := by
  unfold Database.adjustProxiedWitnessVotes
  rw [adjustProxied_eq maxProxyRecursionDepth s name d le_rfl]
  exact h.adjustProxiedBy hQ name _

/-! ## Voting -/

theorem Between.accountWitnessProxy (h : Between r Q s) (account proxy : AccountName) :
    Returns (s.accountWitnessProxy account proxy) (Between r Q) := by
  unfold Database.accountWitnessProxy
  refine .bind_any fun _ => .ensure fun _ => .bind_any fun a => .ensure fun _ => .ensure fun _ => ?_
  refine .bind (h.adjustProxiedBy hQ account _) fun t ht => .ite (fun _ => ?_) fun _ => ?_
  · refine .bind_any fun _ => .bind_any fun _ => ?_
    refine .bind (ht.clearWitnessVotes account) fun u hu => ?_
    exact .bind (hu.modifyAccount account _) fun v hv => hv.adjustProxiedBy hQ account _
  · exact ht.modifyAccount account _

theorem Between.accountWitnessVote (h : Between r Q s) (account witness : AccountName)
    (approve : Bool) : Returns (s.accountWitnessVote account witness approve) (Between r Q) := by
  unfold Database.accountWitnessVote
  refine .bind_any fun _ => .bind_any fun a => .ensure fun _ => .ensure fun _ => .bind_any fun w =>
    .ite (fun _ => .ensure fun _ => ?_) fun _ => .ensure fun _ => .ensure fun _ => ?_
  · refine .bind (h.adjustWitnessVote hQ w.owner _) fun t ht => ?_
    exact .bind (ht.modifyAccount account _) fun u hu => .pure (hu.same rfl rfl)
  · refine .bind ((h.withVotes _).adjustWitnessVote hQ w.owner _) fun t ht => ?_
    exact ht.modifyAccount account _

theorem Between.processDeclineVotingRights (h : Between r Q s) (account : AccountName) :
    Returns (s.processDeclineVotingRights account) (Between r Q) := by
  unfold Database.processDeclineVotingRights
  refine .bind_any fun _ => .ensure fun _ => .bind_any fun a => ?_
  refine .bind (h.adjustProxiedBy hQ account _) fun t ht => ?_
  refine .bind (ht.clearWitnessVotes account) fun u hu => ?_
  exact .bind (hu.modifyAccount account _) fun v hv => .pure (hv.same rfl rfl)

/-! ## Vesting shares -/

theorem Between.createVesting (h : Between r Q s) (name : AccountName) (liquid : Asset) :
    Returns (s.createVesting name liquid) (Between r Q) := by
  refine createVesting_cases s name liquid fun _ _ _ _ _ t a he u hu => ?_
  refine Between.adjustProxiedWitnessVotes hQ (h.same ?_ ?_) name _
  · rw [hu, he.rest]
  · rw [hu, he.rest]

theorem Between.transferToVesting (h : Between r Q s) (sender recipient : AccountName)
    (amount : Asset) : Returns (s.transferToVesting sender recipient amount) (Between r Q) :=
  transferToVesting_cases s sender recipient amount fun _ name ht _ =>
    (h.sameStake hQ ht).createVesting hQ name amount

theorem Between.claimRewardBalance (h : Between r Q s) (account : AccountName)
    (gbc gbd vests : Int) : Returns (s.claimRewardBalance account gbc gbd vests) (Between r Q) := by
  refine claimRewardBalance_cases s account gbc gbd vests fun _ t ht u a _ he v hv _ => ?_
  refine Between.adjustProxiedWitnessVotes hQ ((h.sameStake hQ ht).same ?_ ?_) account vests
  · rw [hv, he.rest]
  · rw [hv, he.rest]

theorem Between.processVestingWithdrawal (h : Between r Q s) (account : AccountName) :
    Returns (s.processVestingWithdrawal account) (Between r Q) := by
  refine processVestingWithdrawal_cases ?_ ?_ ?_ ?_ ?_ h
  · exact fun name x ht => ht.modifyAccount name _
  · exact fun name x ht => ht.modifyAccount name _
  · exact fun w x ht => ht.modifyAccount account _
  · exact fun x y ht => ht.modifyProps _
  · exact fun name d ht => ht.adjustProxiedWitnessVotes hQ name d

theorem Between.accountCreate (h : Between r Q s) (creator newName : AccountName)
    (auths : List AccountName) (fee : Int) :
    Returns (s.accountCreate creator newName auths fee) (Between r Q) := by
  refine accountCreate_cases s creator newName auths fee (fun _ _ shares _ _ => ?_) fun _ => ?_
  · refine .bind (h.modifyAccount creator _) fun t ht => ?_
    refine .bind (ht.createAccount newName creator shares.amount) fun u hu => .pure ?_
    exact hu.createDelegation creator newName shares.amount
  · refine .bind (h.modifyAccount creator _) fun t ht => ?_
    refine .bind (ht.createAccount newName creator 0) fun u hu => ?_
    exact .ite (fun _ => hu.createVesting hQ newName _) fun _ => .ok hu

theorem Between.accountCreateWithDelegation (h : Between r Q s) (creator newName : AccountName)
    (auths : List AccountName) (fee delegation : Int) :
    Returns (s.accountCreateWithDelegation creator newName auths fee delegation) (Between r Q) := by
  refine accountCreateWithDelegation_cases s creator newName auths fee delegation
    fun _ _ _ _ _ => ?_
  refine .bind (h.modifyAccount creator _) fun t ht => ?_
  refine .bind (ht.createAccount newName creator delegation) fun u hu => ?_
  have hv := hu.createDelegation creator newName delegation
  exact .ite (fun _ => hv.createVesting hQ newName _) fun _ => .ok hv

theorem Between.clearNullAccountBalance (h : Between r Q s) :
    Returns s.clearNullAccountBalance (Between r Q) := by
  refine clearNullAccountBalance_cases h (fun h ht => h.sameStake hQ ht) fun t ht => ?_
  refine burnVestingShares_cases ht fun a _ x => ?_
  exact .bind (Between.modifyProps ht _) fun u hu => hu.modifyAccount nullAccount _

/-! ## Keys -/

/-- A witness modified in other fields. -/
theorem Between.modifyWitness (h : Between r Q s) {owner : AccountName} {w : Witness}
    (hw : s.getWitness owner = .ok w) {f : Witness → Witness} (hf : (f w).clock = w.clock) :
    Between r Q (s.modifyWitness owner f) := by
  have he := editedWitness_modifyWitness hw f
  have howner := congrArg Witness.owner hf
  have howners := he.replaces.map_eq (g := Witness.owner) howner
  have hid := congrArg Witness.id hf
  have hids := he.replaces.map_eq (g := Witness.id) hid
  refine ⟨h.schedule, by rw [howners]; exact h.owners, ?_, he.all h.witnesses ?_⟩
  · unfold Numbered
    rw [hids]
    exact h.numbered
  exact hQ.congr hf (h.witnesses w he.replaces.mem_old)

theorem Between.witnessUpdate (h : Between r Q s) (owner : AccountName) (key : Option Nat)
    (fee : Int) (size rate : Nat) :
    Returns (s.witnessUpdate owner key fee size rate) (Between r Q) := by
  unfold Database.witnessUpdate
  refine .bind_any fun _ => .ensure fun _ => .ensure fun _ => .ensure fun _ => .bind_any fun _ => ?_
  split
  next w hw => exact .pure (h.modifyWitness hQ (require_eq_ok.mpr hw) rfl)
  next =>
    refine .pure ⟨h.schedule, ?_, fun hr => ?_, h.witnesses.create _ ?_⟩
    · show _ ⊆ (s.witnesses.rows ++ [_]).map Witness.owner
      rw [List.map_append]
      exact List.subset_append_of_subset_left _ h.owners
    · show (s.witnesses.rows ++ [_]).map Witness.id = List.range (s.witnesses.nextId + 1)
      rw [List.map_append, List.range_succ, ← h.numbered hr]
      rfl
    · exact hQ.congr (w := Witness.make s.witnesses.nextId owner) rfl (hQ.create _ owner)

theorem Between.witnessSetProperties (h : Between r Q s) (owner : AccountName) (key : Option Nat)
    (newKey : Option (Option Nat)) (fee : Option Int) (size rate limit : Option Nat) :
    Returns (s.witnessSetProperties owner key newKey fee size rate limit) (Between r Q) := by
  unfold Database.witnessSetProperties
  exact .ensure fun _ => .bind_eq fun w hw => .ensure fun _ => .pure (h.modifyWitness hQ hw rfl)

theorem Between.recordMissedBlock (h : Between r Q s) (owner : AccountName) :
    Returns (s.recordMissedBlock owner) (Between r Q) := by
  unfold Database.recordMissedBlock
  exact .bind_eq fun w hw => .pure (h.modifyWitness hQ hw rfl)

/-- **What a call between two rounds does to the witnesses.** -/
theorem Paced.perform (h : Between r Q s) {c : Call} (hc : c ≠ .updateWitnessSchedule) :
    Returns (s.perform c) (Between r Q) := by
  cases c with
  | createVesting name liquid => exact h.createVesting hQ name liquid
  | transferToVesting sender recipient amount =>
      exact h.transferToVesting hQ sender recipient amount
  | claimRewardBalance account gbc gbd vests => exact h.claimRewardBalance hQ account gbc gbd vests
  | withdrawVesting account shares => exact h.withdrawVesting account shares
  | setWithdrawVestingRoute sender recipient percent autoVest =>
      exact h.setWithdrawVestingRoute sender recipient percent autoVest
  | processVestingWithdrawal account => exact h.processVestingWithdrawal hQ account
  | accountWitnessProxy account proxy => exact h.accountWitnessProxy hQ account proxy
  | accountWitnessVote account witness approve =>
      exact h.accountWitnessVote hQ account witness approve
  | declineVotingRights account decline => exact h.declineVotingRights account decline
  | processDeclineVotingRights account => exact h.processDeclineVotingRights hQ account
  | delegateVestingShares delegator delegatee shares =>
      exact h.delegateVestingShares delegator delegatee shares
  | clearExpiredDelegation id => exact h.clearExpiredDelegation id
  | reclaimAccountCreationDelegation id => exact h.reclaimAccountCreationDelegation id
  | accountCreate creator name auths fee => exact h.accountCreate hQ creator name auths fee
  | accountCreateWithDelegation creator name auths fee delegation =>
      exact h.accountCreateWithDelegation hQ creator name auths fee delegation
  | createClaimedAccount creator name auths => exact h.createClaimedAccount creator name auths
  | clearNullAccountBalance => exact h.clearNullAccountBalance hQ
  | witnessUpdate owner key fee size rate => exact h.witnessUpdate hQ owner key fee size rate
  | witnessSetProperties owner key newKey fee size rate limit =>
      exact h.witnessSetProperties hQ owner key newKey fee size rate limit
  | recordMissedBlock owner => exact h.recordMissedBlock hQ owner
  | updateWitnessSchedule => exact absurd rfl hc
  | other => exact .ok h

end

end Database

end Gamebank.Ledger
