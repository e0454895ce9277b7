import Gamebank.Conservation.Entries
import Gamebank.Ledger.Comments
import Gamebank.Ledger.NonfungibleFunds
import Gamebank.Ledger.Rewards

/-!
# Evaluators and the books

What goes from one account to another enters nothing. The evaluators here,
and the routines of a block, move amounts between accounts, or between
accounts and the vesting fund, or leave alone what anybody holds.
-/

namespace Gamebank.Conservation

open Gamebank.Lib Gamebank.Protocol Gamebank.Ledger
open Gamebank.Ledger.Database (OnlyVotes modifyAccount_spec modifyProps_spec)

variable {s t u : Database} {name : AccountName}

/-! ## Transfers -/

theorem transfer_keeps (s : Database) (o : TransferOperation) :
    Returns (s.transfer o) (Keeps s) := by
  unfold Database.transfer
  refine .bind_any fun _ => .bind_any fun _ => .bind_any fun _ => .ensure fun _ => ?_
  have hmoved := entering.bind (adjustBalance_enters s o.sender (-o.amount)) fun t =>
    adjustBalance_enters t o.recipient o.amount
  refine returns_of_eq hmoved ?_
  rw [assetEntry_neg, neg_add_cancel]

/-- An account pays a fee. -/
theorem payFee_enters (s : Database) (name : AccountName) (fee : Int) {f : Account → Account}
    (hf : ∀ c, accountHolds (f c) = accountHolds { c with balance := c.balance - fee }) :
    Returns (s.modifyAccount name f) fun t => Enters s t (-entry .gbc fee) := by
  refine modifyAccount_enters s name fun c => (hf c).trans ?_
  funext b
  cases b <;> simp [accountHolds, entry_apply]
  omega

theorem claimAccount_keeps (s : Database) (creator : AccountName) (fee : Int) :
    Returns (s.claimAccount creator fee) (Keeps s) := by
  unfold Database.claimAccount
  refine .bind_any fun _ => .bind_any fun _ => .ensure fun _ => .ensure fun _ =>
    .bind_any fun _ => .ensure fun _ => .ensure fun _ => ?_
  refine .bind (adjustBalance_enters s nullAccount (.gbc fee)) fun t ht => ?_
  refine Returns.mono (payFee_enters t creator fee fun _ => rfl) fun u hu => ?_
  exact (ht.trans hu).of_eq (add_neg_cancel _)

theorem vestInitialSupply_keeps (s : Database) (initSupply : Int) :
    Returns (s.vestInitialSupply initSupply) (Keeps s) := by
  unfold Database.vestInitialSupply
  refine .bind (adjustBalance_enters s initMinerName _) fun t ht => ?_
  refine (createVesting_enters t initMinerName _).mono fun u hu => (ht.trans hu).of_eq ?_
  rw [assetEntry_neg, neg_add_cancel]

theorem nonfungibleFundBuy_keeps (s : Database) (buyer : AccountName) (fundId : Nat) :
    Returns (s.nonfungibleFundBuy buyer fundId) (Keeps s) := by
  unfold Database.nonfungibleFundBuy
  refine .ensure fun _ => .bind_any fun _ => .bind_any fun _ => .bind_any fun onSale =>
    .bind_any fun _ => .ensure fun _ => ?_
  have hmoved := entering.bind (adjustBalance_enters s buyer (-onSale.sellingPrice)) fun t =>
    (adjustBalance_enters t onSale.seller onSale.sellingPrice).bind fun u hu =>
      Returns.pure (hu.trans (.of_same (t := (u.removeOnSale fundId).setFundOwner fundId buyer)
        rfl rfl rfl))
  refine returns_of_eq hmoved ?_
  rw [assetEntry_neg, add_zero, neg_add_cancel]

/-! ## Power up, power down and rewards -/

theorem transferToVesting_keeps (s : Database) (sender recipient : AccountName) (amount : Asset) :
    Returns (s.transferToVesting sender recipient amount) (Keeps s) := by
  unfold Database.transferToVesting
  refine .bind_any fun _ => .ensure fun _ => .ensure fun _ => .bind_any fun _ =>
    .bind_any fun toAccount => .bind_any fun _ => .ensure fun _ => ?_
  have hmoved := entering.bind (adjustBalance_enters s sender (-amount)) fun t =>
    createVesting_enters t toAccount.name amount
  refine returns_of_eq hmoved ?_
  rw [assetEntry_neg, neg_add_cancel]

theorem claimRewardBalance_keeps (s : Database) (account : AccountName) (gbc gbd vests : Int) :
    Returns (s.claimRewardBalance account gbc gbd vests) (Keeps s) := by
  unfold Database.claimRewardBalance
  refine .bind_any fun _ => .ensure fun _ => .ensure fun _ => .bind_any fun _ =>
    .ensure fun _ => .ensure fun _ => .ensure fun _ => .bind_any fun moved => ?_
  have hshares : ∀ a : Account, accountHolds { a with
      vestingShares := a.vestingShares + vests
      rewardVestingBalance := a.rewardVestingBalance - vests
      rewardVestingGbc := a.rewardVestingGbc - moved } =
        accountHolds a + (entry .shares vests - entry .rewardShares vests - entry .gbc moved -
          entry .rewardGbc moved) := by
    intro a
    funext b
    cases b <;> simp [accountHolds, entry_apply]
    · omega
    · omega
    · omega
  have hfund : ∀ p : GlobalProperties, supplies { p with
      totalVestingShares := p.totalVestingShares + vests
      totalVestingFundGbc := p.totalVestingFundGbc + moved
      pendingRewardedVestingShares := p.pendingRewardedVestingShares - vests
      pendingRewardedVestingGbc := p.pendingRewardedVestingGbc - moved } =
        supplies p - -(entry .shares vests - entry .rewardShares vests - entry .gbc moved -
          entry .rewardGbc moved) := by
    intro p
    funext b
    cases b <;> simp [supplies, entry_apply]
    omega
  refine .bind (adjustRewardBalance_enters s account _ _) fun t1 h1 => ?_
  refine .bind (adjustRewardBalance_enters t1 account _ _) fun t2 h2 => ?_
  refine .bind (adjustBalance_enters t2 account _) fun t3 h3 => ?_
  refine .bind (adjustBalance_enters t3 account _) fun t4 h4 => ?_
  refine .bind (modifyAccount_enters t4 account hshares) fun t5 h5 => ?_
  refine .bind (modifyProps_enters t5 (hfund t5.props)) fun t6 h6 => ?_
  refine (adjustProxiedWitnessVotes_enters t6 account vests).mono fun t7 h7 => ?_
  refine ((((((h1.trans h2).trans h3).trans h4).trans h5).trans h6).trans h7).of_eq ?_
  simp only [rewardEntry, assetEntry_neg, assetEntry_gbc, assetEntry_gbd, Asset.gbs, entry_zero,
    if_true]
  abel

theorem withdrawVesting_keeps (s : Database) (account : AccountName) (shares : Int) :
    Returns (s.withdrawVesting account shares) (Keeps s) :=
  Database.withdrawVesting_cases s account shares fun _ _ _ _ _ _ _ _ =>
    modifyAccount_enters s account fun _ => (add_zero _).symm

/-! ## Votes -/

theorem modifyAccount_keeps (s : Database) (name : AccountName) {f : Account → Account}
    (h : ∀ a, accountHolds (f a) = accountHolds a) : Returns (s.modifyAccount name f) (Keeps s) :=
  modifyAccount_enters s name fun a => (h a).trans (add_zero _).symm

theorem adjustProxiedBy_keeps (s : Database) (name : AccountName) (delta : Nat → Int)
    (remaining : Nat) : Returns (Database.adjustProxiedBy remaining s name delta) (Keeps s) :=
  ((OnlyVotes.refl s).adjustProxiedBy name delta).mono fun _ ht => OnlyVotes.enters ht

theorem adjustWitnessVote_keeps (s : Database) (owner : AccountName) (d : Int) :
    Returns (s.adjustWitnessVote owner d) (Keeps s) :=
  ((OnlyVotes.refl s).adjustWitnessVote owner d).mono fun _ ht => OnlyVotes.enters ht

theorem witnessVotes_keeps (s : Database) (votes : List WitnessVote) :
    Keeps s { s with witnessVotes := votes } :=
  .of_same rfl rfl rfl

theorem clearWitnessVotes_keeps (s : Database) (name : AccountName) :
    Returns (s.clearWitnessVotes name) (Keeps s) := by
  unfold Database.clearWitnessVotes
  exact Returns.mono (modifyAccount_keeps _ name fun _ => rfl) fun t ht =>
    (witnessVotes_keeps s _).trans ht

theorem accountWitnessProxy_keeps (s : Database) (account proxy : AccountName) :
    Returns (s.accountWitnessProxy account proxy) (Keeps s) := by
  unfold Database.accountWitnessProxy
  refine .bind_any fun _ => .ensure fun _ => .bind_any fun a => .ensure fun _ => .ensure fun _ => ?_
  refine .bind (adjustProxiedBy_keeps s account _ _) fun t ht => .ite (fun _ => ?_) fun _ => ?_
  · refine .bind_any fun _ => .bind_any fun _ => .bind (clearWitnessVotes_keeps t account)
      fun u hu => ?_
    refine .bind (modifyAccount_keeps u account fun _ => rfl) fun v hv => ?_
    refine (adjustProxiedBy_keeps v account _ _).mono fun w hw => ?_
    exact ((ht.trans hu).trans hv).trans hw
  · exact Returns.mono (modifyAccount_keeps t account fun _ => rfl) fun u hu => ht.trans hu

theorem accountWitnessVote_keeps (s : Database) (account witness : AccountName) (approve : Bool) :
    Returns (s.accountWitnessVote account witness approve) (Keeps s) := by
  unfold Database.accountWitnessVote
  refine .bind_any fun _ => .bind_any fun a => .ensure fun _ => .ensure fun _ => .bind_any fun w =>
    .ite (fun _ => .ensure fun _ => ?_) fun _ => .ensure fun _ => .ensure fun _ => ?_
  · refine .bind (adjustWitnessVote_keeps s _ _) fun t ht => ?_
    refine .bind (modifyAccount_keeps t account fun _ => rfl) fun u hu => .pure ?_
    exact (ht.trans hu).trans (witnessVotes_keeps u _)
  · refine .bind (adjustWitnessVote_keeps _ _ _) fun t ht => ?_
    refine Returns.mono (modifyAccount_keeps t account fun _ => rfl) fun u hu => ?_
    exact ((witnessVotes_keeps s _).trans ht).trans hu

theorem declineVotingRights_keeps (s : Database) (account : AccountName) (decline : Bool) :
    Returns (s.declineVotingRights account decline) (Keeps s) := by
  unfold Database.declineVotingRights
  exact .bind_any fun _ => .bind_any fun _ =>
    .ite (fun _ => .ensure fun _ => .pure (.of_same rfl rfl rfl))
      fun _ => .ensure fun _ => .pure (.of_same rfl rfl rfl)

theorem processDeclineVotingRights_keeps (s : Database) (account : AccountName) :
    Returns (s.processDeclineVotingRights account) (Keeps s) := by
  unfold Database.processDeclineVotingRights
  refine .bind_any fun _ => .ensure fun _ => .bind_any fun a => ?_
  refine .bind (adjustProxiedBy_keeps s account _ _) fun t ht => ?_
  refine .bind (clearWitnessVotes_keeps t account) fun u hu => ?_
  refine .bind (modifyAccount_keeps u account fun _ => rfl) fun v hv => .pure ?_
  exact ((ht.trans hu).trans hv).trans (.of_same rfl rfl rfl)

/-! ## Delegations -/

theorem delegateVestingShares_keeps (s : Database) (delegator delegatee : AccountName)
    (shares : Int) : Returns (s.delegateVestingShares delegator delegatee shares) (Keeps s) := by
  unfold Database.delegateVestingShares
  refine .bind_any fun _ => .ensure fun _ => .ensure fun _ => .bind_any fun _ => .bind_any fun _ =>
    .bind_any fun _ => .bind_any fun _ => .bind_any fun _ => .bind_any fun ⟨_, _⟩ => ?_
  dsimp only
  split
  · refine .ensure fun _ => .ensure fun _ => ?_
    refine .bind (modifyAccount_keeps _ delegator fun _ => rfl) fun t ht => ?_
    refine Returns.mono (modifyAccount_keeps t delegatee fun _ => rfl) fun u hu => ?_
    have hs : Keeps s t := ht.after_same rfl rfl rfl
    exact hs.trans hu
  · refine .ite (fun _ => ?_) fun _ => ?_
    · refine .bind_any fun _ => .ensure fun _ => .ensure fun _ => ?_
      refine .bind (modifyAccount_keeps s delegator fun _ => rfl) fun t ht => ?_
      refine .bind (modifyAccount_keeps t delegatee fun _ => rfl) fun u hu => .pure ?_
      exact (ht.trans hu).trans (.of_same rfl rfl rfl)
    · refine .bind_any fun _ => .bind_any fun _ => ?_
      refine .bind (modifyAccount_keeps _ delegatee fun _ => rfl) fun t ht => .pure ?_
      have hs : Keeps s t := ht.after_same rfl rfl rfl
      exact hs.trans (.of_same rfl rfl rfl)

theorem clearExpiredDelegation_keeps (s : Database) (id : Nat) :
    Returns (s.clearExpiredDelegation id) (Keeps s) := by
  unfold Database.clearExpiredDelegation
  refine .bind_any fun e => .ensure fun _ => ?_
  refine .bind (modifyAccount_keeps s e.delegator fun _ => rfl) fun t ht => .pure ?_
  exact ht.trans (.of_same rfl rfl rfl)

theorem reclaimAccountCreationDelegation_keeps (s : Database) (id : Nat) :
    Returns (s.reclaimAccountCreationDelegation id) (Keeps s) := by
  unfold Database.reclaimAccountCreationDelegation
  refine .bind_any fun d => .ensure fun _ => ?_
  refine .bind (modifyAccount_keeps s d.delegatee fun _ => rfl) fun t ht => .pure ?_
  exact ht.trans (.of_same rfl rfl rfl)

/-! ## New accounts -/

/-- A new account has nothing. -/
theorem createAccount_keeps (s : Database) (name creator : AccountName) (received : Int) :
    Returns (s.createAccount name creator received) (Keeps s) := by
  unfold Database.createAccount
  refine .ensure fun _ => .pure ⟨?_, fun hs => ⟨fun a ha => ?_, hs.orders⟩, rfl⟩
  · have hsum := s.accounts.sum_create (fun _ =>
      { Account.make name with
        created := s.headBlockTime
        lastVoteTime := s.headBlockTime
        mined := false
        recoveryAccount := if s.hardfork01 ∧ creator = tempAccount then "" else creator
        receivedVestingShares := received }) accountHolds
    have hnone : accountHolds
      { Account.make name with
        created := s.headBlockTime
        lastVoteTime := s.headBlockTime
        mined := false
        recoveryAccount := if s.hardfork01 ∧ creator = tempAccount then "" else creator
        receivedVestingShares := received } = 0 := by
      funext b
      cases b <;> rfl
    rw [hnone, add_zero] at hsum
    rw [excess, hsum, add_zero]
    rfl
  · rcases List.mem_append.mp ha with ha | ha
    · exact hs.accounts a ha
    · rw [List.mem_singleton.mp ha]
      exact ⟨rfl, rfl, rfl⟩

theorem createDelegation_keeps (s : Database) (delegator delegatee : AccountName) (shares : Int) :
    Keeps s (s.createDelegation delegator delegatee shares) := by
  unfold Database.createDelegation
  split
  · exact .of_same rfl rfl rfl
  · exact .refl s

/-- The fee of a new account becomes vesting shares of it. -/
theorem vestFee_enters (s : Database) (name : AccountName) {fee : Int} (hfee : 0 ≤ fee) :
    Returns (if 0 < fee then s.createVesting name (.gbc fee) else .ok s) fun t =>
      Enters s t (entry .gbc fee) := by
  refine .ite (fun _ => createVesting_enters s name (.gbc fee)) fun hzero => .ok ?_
  rw [le_antisymm (not_lt.mp hzero) hfee, entry_zero]
  exact .refl s

theorem accountCreate_keeps (s : Database) (creator newName : AccountName)
    (auths : List AccountName) (fee : Int) :
    Returns (s.accountCreate creator newName auths fee) (Keeps s) := by
  unfold Database.accountCreate
  refine .bind_any fun _ => .bind_any fun _ => .ensure fun hfee => .bind_any fun _ =>
    .bind_any fun _ => .ite (fun _ => ?_) fun _ => .ensure fun _ => .ensure fun _ => ?_
  · -- shares are delegated instead of a fee
    refine .bind_any fun _ => .bind_any fun shares => .bind_any fun _ => .ensure fun _ => ?_
    refine .bind (modifyAccount_keeps s creator fun _ => rfl) fun t ht => ?_
    refine .bind (createAccount_keeps t newName creator _) fun u hu => .pure ?_
    exact (ht.trans hu).trans (createDelegation_keeps u creator newName _)
  · refine .bind (payFee_enters s creator fee fun _ => rfl) fun t ht => ?_
    refine .bind (createAccount_keeps t newName creator 0) fun u hu => ?_
    refine (vestFee_enters u newName (of_decide_eq_true hfee)).mono fun v hv => ?_
    refine ((ht.trans hu).trans hv).of_eq ?_
    rw [add_zero, neg_add_cancel]

theorem accountCreateWithDelegation_keeps (s : Database) (creator newName : AccountName)
    (auths : List AccountName) (fee delegation : Int) :
    Returns (s.accountCreateWithDelegation creator newName auths fee delegation) (Keeps s) := by
  unfold Database.accountCreateWithDelegation
  refine .bind_any fun _ => .bind_any fun _ => .ensure fun hfee => .ensure fun _ => .ensure fun _ =>
    .bind_any fun _ => .ensure fun _ => .bind_any fun _ => .bind_any fun _ => .bind_any fun _ =>
    .ensure fun _ => .bind_any fun _ => .bind_any fun _ => .bind_any fun _ => .ensure fun _ =>
    .ensure fun _ => .bind_any fun _ => ?_
  refine .bind (payFee_enters s creator fee fun _ => rfl) fun t ht => ?_
  refine .bind (createAccount_keeps t newName creator delegation) fun u hu => ?_
  have hdelegated := createDelegation_keeps u creator newName delegation
  refine (vestFee_enters _ newName (of_decide_eq_true hfee)).mono fun v hv => ?_
  refine (((ht.trans hu).trans hdelegated).trans hv).of_eq ?_
  rw [add_zero, add_zero, neg_add_cancel]

theorem createClaimedAccount_keeps (s : Database) (creator newName : AccountName)
    (auths : List AccountName) :
    Returns (s.createClaimedAccount creator newName auths) (Keeps s) := by
  refine Database.createClaimedAccount_cases s creator newName auths ?_
  refine .bind (modifyAccount_keeps s creator fun _ => rfl) fun t ht => ?_
  exact (createAccount_keeps t newName creator 0).mono fun u hu => ht.trans hu

/-! ## Witnesses -/

theorem modifyWitness_keeps (s : Database) (owner : AccountName) (f : Witness → Witness) :
    Keeps s (s.modifyWitness owner f) :=
  .of_same rfl rfl rfl

theorem modifyWitnesses_keeps (s : Database) (chosen : List Witness) (f : Witness → Witness) :
    Keeps s (s.modifyWitnesses chosen f) := by
  induction chosen generalizing s with
  | nil => exact .refl s
  | cons w rest ih => exact (modifyWitness_keeps s w.owner f).trans (ih _)

theorem witnessUpdate_keeps (s : Database) (owner : AccountName) (key : Option Nat) (fee : Int)
    (size rate : Nat) : Returns (s.witnessUpdate owner key fee size rate) (Keeps s) := by
  unfold Database.witnessUpdate
  refine .bind_any fun _ => .ensure fun _ => .ensure fun _ => .ensure fun _ => .bind_any fun _ => ?_
  split <;> exact .pure (.of_same rfl rfl rfl)

theorem witnessSetProperties_keeps (s : Database) (owner : AccountName) (key : Option Nat)
    (newKey : Option (Option Nat)) (fee : Option Int) (size rate limit : Option Nat) :
    Returns (s.witnessSetProperties owner key newKey fee size rate limit) (Keeps s) := by
  unfold Database.witnessSetProperties
  exact .ensure fun _ => .bind_any fun _ => .ensure fun _ => .pure (.of_same rfl rfl rfl)

theorem recordMissedBlock_keeps (s : Database) (owner : AccountName) :
    Returns (s.recordMissedBlock owner) (Keeps s) := by
  unfold Database.recordMissedBlock
  exact .bind_any fun _ => .pure (.of_same rfl rfl rfl)

theorem setProps_keeps (s : Database) {p : GlobalProperties} (h : supplies p = supplies s.props) :
    Keeps s { s with props := p } :=
  .of_props (h.trans (sub_zero _).symm)

theorem markSelection_keeps (s : Database) (c : Database.Selection) :
    Keeps s (s.markSelection c) := by
  unfold Database.markSelection
  refine Keeps.trans ?_ (modifyWitnesses_keeps _ c.running _)
  refine Keeps.trans ?_ (setProps_keeps _ rfl)
  refine Keeps.trans ?_ (modifyWitnesses_keeps _ c.queued _)
  exact (modifyWitnesses_keeps s c.voted _).trans (modifyWitnesses_keeps _ c.miners _)

theorem updateProcessed_keeps (now : Int) (processed : List Witness) (s : Database) :
    Returns (Database.updateProcessed now processed s) fun r => Keeps s r.1 := by
  induction processed generalizing s with
  | nil => exact .ok (.refl s)
  | cons w rest ih =>
      unfold Database.updateProcessed
      refine .bind_any fun lap => .ite (fun _ => .pure (.refl s)) fun _ => ?_
      exact (ih _).mono fun r hr => (modifyWitness_keeps s w.owner _).trans hr

theorem advanceVirtualTime_keeps (s : Database) (processed : List Witness) :
    Returns (s.advanceVirtualTime processed) fun r => Keeps s r.1 := by
  unfold Database.advanceVirtualTime
  refine .bind (updateProcessed_keeps _ processed s) fun ⟨t, overflow⟩ ht =>
    .ite (fun _ => ?_) fun _ => .pure ht
  unfold Database.resetVirtualScheduleTime
  refine .bind (?_ : Returns _ (Keeps t)) fun u hu => .pure (ht.trans hu)
  exact .ensure fun _ => .pure (.of_same rfl rfl rfl)

theorem updateWitnessSchedule_keeps (s : Database) :
    Returns s.updateWitnessSchedule (Keeps s) := by
  unfold Database.updateWitnessSchedule
  refine .ite (fun _ => ?_) fun _ => .ok (.refl s)
  unfold Database.updateWitnessSchedule4
  refine .bind (advanceVirtualTime_keeps _ _) fun ⟨t, now⟩ ht => .ensure fun _ => ?_
  refine .bind_any fun scheduled => ?_
  unfold Database.updateMedianWitnessProps
  refine .bind_any fun _ => .bind_any fun _ => .bind_any fun _ => .bind_any fun _ =>
    .bind_any fun _ => .pure ?_
  exact ((markSelection_keeps s _).trans ht).trans (.of_same rfl rfl rfl)

/-! ## Comments and votes on them -/

theorem createComment_keeps (s : Database) (auth : Account) (parent : Option Comment)
    (o : CommentOperation) : Returns (s.createComment auth parent o) (Keeps s) := by
  unfold Database.createComment
  cases parent with
  | none =>
      refine .bind_any fun _ => ?_
      refine .bind (modifyAccount_keeps s o.author fun _ => rfl) fun t ht => ?_
      exact .bind_any fun _ => .bind_any fun _ => .pure (ht.trans (.of_same rfl rfl rfl))
  | some p =>
      refine .bind_any fun _ => .ensure fun _ => .bind_any fun _ => ?_
      refine .bind (modifyAccount_keeps s o.author fun _ => rfl) fun t ht => ?_
      refine .bind_any fun _ => .bind_any fun _ => .bind_any fun _ => .pure ?_
      exact ht.trans (.of_same rfl rfl rfl)

theorem comment_keeps (tools : TextTools) (s : Database) (o : CommentOperation) :
    Returns (s.comment tools o) (Keeps s) := by
  unfold Database.comment
  refine .ensure fun _ => .bind_any fun auth => .bind_any fun parent => ?_
  split
  next => exact createComment_keeps s auth parent o
  next c _ =>
    unfold Database.editComment
    cases parent <;> exact .ensure fun _ => .ensure fun _ => .bind_any fun _ =>
      .pure (.of_same rfl rfl rfl)

theorem deleteComment_keeps (s : Database) (o : DeleteCommentOperation) :
    Returns (s.deleteComment o) (Keeps s) := by
  unfold Database.deleteComment
  refine .bind_any fun c => .ensure fun _ => .ensure fun _ => .ensure fun _ =>
    .ite (fun _ => ?_) fun _ => ?_
  · exact .bind_any fun _ => .bind_any fun _ => .pure (.of_same rfl rfl rfl)
  · exact .bind_any fun _ => .pure (.of_same rfl rfl rfl)

theorem commentOptions_keeps (s : Database) (o : CommentOptionsOperation) :
    Returns (s.commentOptions o) (Keeps s) := by
  unfold Database.commentOptions
  refine .bind_any fun c => .ensure fun _ => .ensure fun _ => .ensure fun _ => .ensure fun _ =>
    .ensure fun _ => ?_
  refine .foldlM (.of_same rfl rfl rfl) fun t ht beneficiaries _ => ?_
  unfold Database.addBeneficiaries
  exact .bind_any fun _ => .ensure fun _ => .ensure fun _ => .ensure fun _ =>
    .pure (ht.trans (.of_same rfl rfl rfl))

theorem modifyComment_keeps (s : Database) (id : Nat) (f : Comment → Comment) :
    Returns (s.modifyComment id f) (Keeps s) := by
  unfold Database.modifyComment
  exact .bind_any fun _ => .ensure fun _ => .pure (.of_same rfl rfl rfl)

theorem castVote_keeps (s : Database) (c : Comment) (o : VoteOperation) (power : VotePower) :
    Returns (s.castVote c o power) (Keeps s) := by
  unfold Database.castVote
  refine .ensure fun _ => .ensure fun _ => ?_
  refine .bind (modifyAccount_keeps s o.voter fun _ => rfl) fun t ht => .ensure fun _ => ?_
  refine .bind (modifyComment_keeps t c.id _) fun u hu => ?_
  refine .bind (modifyComment_keeps u c.rootComment _) fun v hv => .bind_any fun weight => ?_
  refine (modifyComment_keeps _ c.id _).mono fun w hw => ?_
  have hcast : Keeps v w := hw.after_same rfl rfl rfl
  exact ((ht.trans hu).trans hv).trans hcast

theorem changeVote_keeps (s : Database) (c : Comment) (v : CommentVote) (o : VoteOperation)
    (power : VotePower) : Returns (s.changeVote c v o power) (Keeps s) := by
  unfold Database.changeVote
  refine .ensure fun _ => .ensure fun _ => .ensure fun _ => ?_
  refine .bind (modifyAccount_keeps s o.voter fun _ => rfl) fun t ht => ?_
  refine .bind (modifyComment_keeps t c.id _) fun u hu => ?_
  refine .bind (modifyComment_keeps u c.rootComment _) fun w hw => ?_
  refine .bind (modifyComment_keeps w c.id _) fun x hx => .pure ?_
  exact (((ht.trans hu).trans hw).trans hx).trans (.of_same rfl rfl rfl)

theorem vote_keeps (s : Database) (o : VoteOperation) : Returns (s.vote o) (Keeps s) := by
  unfold Database.vote
  refine .bind_any fun c => .bind_any fun voter => .ensure fun _ => .ensure fun _ =>
    .ite (fun _ => .pure (.refl s)) fun _ => .bind_any fun power => ?_
  split
  next => exact castVote_keeps s c o power
  next v _ => exact .ensure fun _ => changeVote_keeps s c v o power

/-! ## Nonfungible funds -/

theorem nonfungibleFundCreate_keeps (s : Database) (creator owner : AccountName)
    (metaData : String) : Returns (s.nonfungibleFundCreate creator owner metaData) (Keeps s) := by
  unfold Database.nonfungibleFundCreate
  exact .ensure fun _ => .ensure fun _ => .bind_any fun _ => .bind_any fun _ => .bind_any fun _ =>
    .bind_any fun _ => .pure (.of_same rfl rfl rfl)

theorem nonfungibleFundTransfer_keeps (s : Database) (sender recipient : AccountName)
    (fundId : Nat) : Returns (s.nonfungibleFundTransfer sender recipient fundId) (Keeps s) := by
  unfold Database.nonfungibleFundTransfer
  exact .ensure fun _ => .ensure fun _ => .bind_any fun _ => .bind_any fun _ => .bind_any fun _ =>
    .bind_any fun _ => .bind_any fun _ => .ensure fun _ => .ensure fun _ =>
    .pure (.of_same rfl rfl rfl)

theorem nonfungibleFundPutUpForSale_keeps (s : Database) (seller : AccountName) (fundId : Nat)
    (sellingPrice : Asset) (expiration : Nat) :
    Returns (s.nonfungibleFundPutUpForSale seller fundId sellingPrice expiration) (Keeps s) := by
  unfold Database.nonfungibleFundPutUpForSale
  exact .ensure fun _ => .ensure fun _ => .ensure fun _ => .bind_any fun _ => .ensure fun _ =>
    .bind_any fun _ => .bind_any fun _ => .ensure fun _ => .ensure fun _ =>
    .pure (.of_same rfl rfl rfl)

theorem nonfungibleFundWithdrawFromSale_keeps (s : Database) (seller : AccountName)
    (fundId : Nat) : Returns (s.nonfungibleFundWithdrawFromSale seller fundId) (Keeps s) := by
  unfold Database.nonfungibleFundWithdrawFromSale
  exact .ensure fun _ => .bind_any fun _ => .bind_any fun _ => .bind_any fun _ => .ensure fun _ =>
    .bind_any fun _ => .pure (.of_same rfl rfl rfl)

theorem clearExpiredNonfungibleFundsOnSale_keeps (s : Database) :
    Returns s.clearExpiredNonfungibleFundsOnSale (Keeps s) := by
  unfold Database.clearExpiredNonfungibleFundsOnSale
  refine entering.drain (fun t o _ => .ok ?_) s
  exact .of_same rfl rfl rfl

end Gamebank.Conservation
