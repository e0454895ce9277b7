import Gamebank.Stake.TallyRuns

/-!
# What leaves the power of the accounts alone

Votes that are carried up the proxies and to the witnesses change proxied
votes and witnesses, and nothing else (`OnlyVotes`).

The power of an account is its vesting shares, what of them is delegated or
received, and what is being withdrawn. Voting moves none of it: `SamePower`
says that the power of every account, the delegations and the delegations on
their way back are left alone.
-/

namespace Gamebank.Ledger

open Gamebank.Lib Gamebank.Protocol

/-- The part of an account that is its power. -/
def Account.power (a : Account) : Account :=
  { Account.make a.name with
    vestingShares := a.vestingShares
    delegatedVestingShares := a.delegatedVestingShares
    receivedVestingShares := a.receivedVestingShares
    vestingWithdrawRate := a.vestingWithdrawRate
    nextVestingWithdrawal := a.nextVestingWithdrawal
    withdrawn := a.withdrawn
    toWithdraw := a.toWithdraw }

/-- An account but for the votes that are proxied to it. -/
def Account.withoutVotes (a : Account) : Account :=
    { a with proxiedVsfVotes := Vector.replicate 4 0 }

namespace Database

variable {s t u : Database} {name : AccountName} {a a' : Account}

/-! ## Votes carried to the witnesses -/

/-- `t` is `s` but for proxied votes and witnesses. -/
structure OnlyVotes (s t : Database) : Prop where
  accounts : t.accounts.rows.map Account.withoutVotes = s.accounts.rows.map Account.withoutVotes
  fits : ∀ a ∈ t.accounts.rows, a ∈ s.accounts.rows ∨ a.fits = true
  rest : t = { s with
    accounts := { s.accounts with rows := t.accounts.rows }, witnesses := t.witnesses }

namespace OnlyVotes

theorem refl (s : Database) : OnlyVotes s s := ⟨rfl, fun _ ha => Or.inl ha, rfl⟩

theorem trans (h : OnlyVotes s t) (h' : OnlyVotes t u) : OnlyVotes s u where
  accounts := h'.accounts.trans h.accounts
  fits := fun a ha => (h'.fits a ha).elim (h.fits a) Or.inr
  rest := by
    rw [h'.rest, h.rest]

theorem adjustWitnessVote (h : OnlyVotes s t) (owner : AccountName) (d : Int) :
    Returns (t.adjustWitnessVote owner d) (OnlyVotes s) := by
  refine (adjustWitnessVote_spec t owner d).mono fun u ⟨_, he, _⟩ => h.trans ?_
  have haccounts : u.accounts = t.accounts := by rw [he.rest]
  exact ⟨by rw [haccounts], fun a ha => Or.inl (haccounts ▸ ha), by rw [he.rest]⟩

theorem adjustProxiedBy {remaining : Nat} (h : OnlyVotes s t) (name : AccountName)
    (delta : Nat → Int) :
    Returns (Database.adjustProxiedBy remaining t name delta) (OnlyVotes s) := by
  have hroot :
    ∀ {t}, OnlyVotes s t → ∀ name d, Returns (t.adjustWitnessVotes name d) (OnlyVotes s) :=
    fun h name d => .foldlM h fun _ hu v _ => hu.adjustWitnessVote v.witness d
  induction remaining generalizing t name with
  | zero =>
      unfold Database.adjustProxiedBy
      exact .bind_any fun a => .ite (fun _ => .pure h) fun _ => hroot h name _
  | succ remaining ih =>
      unfold Database.adjustProxiedBy
      refine .bind_any fun a => .ite (fun _ => ?_) fun _ => hroot h name _
      refine .bind (modifyAccount_spec t a.proxy _) fun u hu => ih (h.trans ?_) a.proxy
      obtain ⟨p, he⟩ := hu
      refine ⟨he.replaces.map_eq rfl, fun c hc => ?_, by rw [he.rest]⟩
      rcases he.replaces.symm.mem_of_mem hc with rfl | hc
      · exact Or.inr he.fits
      · exact Or.inl hc

theorem adjustProxiedWitnessVotes (h : OnlyVotes s t) (name : AccountName) (d : Int) :
    Returns (t.adjustProxiedWitnessVotes name d) (OnlyVotes s) := by
  unfold Database.adjustProxiedWitnessVotes
  rw [adjustProxied_eq maxProxyRecursionDepth t name d le_rfl]
  exact h.adjustProxiedBy name _

end OnlyVotes

/-! ## The power of the accounts -/

structure SamePower (s t : Database) : Prop where
  accounts : t.accounts.rows.map Account.power = s.accounts.rows.map Account.power
  delegations : t.vestingDelegations = s.vestingDelegations
  expirations : t.vestingDelegationExpirations = s.vestingDelegationExpirations

namespace SamePower

theorem refl (s : Database) : SamePower s s := ⟨rfl, rfl, rfl⟩

theorem trans (h : SamePower s t) (h' : SamePower t u) : SamePower s u :=
  ⟨h'.accounts.trans h.accounts, h'.delegations.trans h.delegations,
    h'.expirations.trans h.expirations⟩

theorem of_sameStake (h : SameStake s t) : SamePower s t :=
  ⟨map_eq_of_map_eq h.accounts fun _ => rfl, h.vestingDelegations, h.vestingDelegationExpirations⟩

theorem of_sameWitnesses (h : SameWitnesses s t) : SamePower s t := by
  rw [h.rest]
  exact ⟨rfl, rfl, rfl⟩

theorem of_onlyVotes (h : OnlyVotes s t) : SamePower s t :=
  ⟨map_eq_of_map_eq h.accounts fun _ => rfl, by rw [h.rest], by rw [h.rest]⟩

theorem modifyAccount (h : SamePower s t) (name : AccountName) {f : Account → Account}
    (hf : ∀ a, (f a).power = a.power) : Returns (t.modifyAccount name f) (SamePower s) := by
  refine (modifyAccount_spec t name f).mono fun u ⟨a, he⟩ => h.trans ?_
  have hrest := he.rest
  exact ⟨he.replaces.map_eq (hf a), by rw [hrest], by rw [hrest]⟩

theorem modifyProps (h : SamePower s t) (f : GlobalProperties → GlobalProperties) :
    Returns (t.modifyProps f) (SamePower s) :=
  (modifyProps_spec t f).mono fun u hu => by
    rw [hu.2]
    exact ⟨h.accounts, h.delegations, h.expirations⟩

theorem adjustWitnessVote (h : SamePower s t) (owner : AccountName) (d : Int) :
    Returns (t.adjustWitnessVote owner d) (SamePower s) :=
  ((OnlyVotes.refl t).adjustWitnessVote owner d).mono fun _ hu => h.trans (.of_onlyVotes hu)

theorem adjustProxiedBy {remaining : Nat} (h : SamePower s t) (name : AccountName)
    (delta : Nat → Int) : Returns (Database.adjustProxiedBy remaining t name delta) (SamePower s) :=
  ((OnlyVotes.refl t).adjustProxiedBy name delta).mono fun _ hu => h.trans (.of_onlyVotes hu)

theorem adjustProxiedWitnessVotes (h : SamePower s t) (name : AccountName) (d : Int) :
    Returns (t.adjustProxiedWitnessVotes name d) (SamePower s) :=
  ((OnlyVotes.refl t).adjustProxiedWitnessVotes name d).mono fun _ hu => h.trans (.of_onlyVotes hu)

/-! ## Operations that only vote -/

theorem withVotes (h : SamePower s t) (votes : List WitnessVote) :
    SamePower s { t with witnessVotes := votes } :=
  ⟨h.accounts, h.delegations, h.expirations⟩

theorem clearWitnessVotes (h : SamePower s t) (name : AccountName) :
    Returns (t.clearWitnessVotes name) (SamePower s) := by
  exact (h.withVotes _).modifyAccount name fun _ => rfl

end SamePower

theorem accountWitnessProxy_samePower (s : Database) (account proxy : AccountName) :
    Returns (s.accountWitnessProxy account proxy) (SamePower s) := by
  unfold accountWitnessProxy
  refine .bind_any fun _ => .ensure fun _ => .bind_any fun a => .ensure fun _ => .ensure fun _ => ?_
  refine .bind (SamePower.adjustProxiedBy (.refl s) account _) fun t ht =>
    .ite (fun _ => ?_) fun _ => ?_
  · refine .bind_any fun _ => .bind_any fun _ => .bind (ht.clearWitnessVotes account) fun u hu => ?_
    refine .bind (hu.modifyAccount account fun _ => rfl) fun v hv => ?_
    exact hv.adjustProxiedBy account _
  · exact ht.modifyAccount account fun _ => rfl

theorem accountWitnessVote_samePower (s : Database) (account witness : AccountName)
    (approve : Bool) :
    Returns (s.accountWitnessVote account witness approve) (SamePower s) := by
  unfold accountWitnessVote
  refine .bind_any fun _ => .bind_any fun a => .ensure fun _ => .ensure fun _ => .bind_any fun w =>
    .ite (fun _ => .ensure fun _ => ?_) fun _ => .ensure fun _ => .ensure fun _ => ?_
  · refine .bind (SamePower.adjustWitnessVote (.refl s) _ _) fun t ht => ?_
    exact .bind (ht.modifyAccount account fun _ => rfl) fun u hu => .pure (hu.withVotes _)
  · refine .bind (SamePower.adjustWitnessVote ((SamePower.refl s).withVotes _) _ _) fun t ht => ?_
    exact ht.modifyAccount account fun _ => rfl

theorem declineVotingRights_samePower (s : Database) (account : AccountName) (decline : Bool) :
    Returns (s.declineVotingRights account decline) (SamePower s) := by
  unfold declineVotingRights
  exact .bind_any fun _ => .bind_any fun _ => .ite (fun _ => .ensure fun _ => .pure ⟨rfl, rfl, rfl⟩)
    fun _ => .ensure fun _ => .pure ⟨rfl, rfl, rfl⟩

theorem processDeclineVotingRights_samePower (s : Database) (account : AccountName) :
    Returns (s.processDeclineVotingRights account) (SamePower s) := by
  unfold processDeclineVotingRights
  refine .bind_any fun _ => .ensure fun _ => .bind_any fun a => ?_
  refine .bind (SamePower.adjustProxiedBy (.refl s) account _) fun t ht => ?_
  refine .bind (ht.clearWitnessVotes account) fun u hu => ?_
  refine .bind (hu.modifyAccount account fun _ => rfl) fun v hv => .pure ?_
  exact ⟨hv.accounts, hv.delegations, hv.expirations⟩

theorem samePower_routes (s : Database) (routes : Table WithdrawVestingRoute) :
    SamePower s { s with withdrawVestingRoutes := routes } := ⟨rfl, rfl, rfl⟩

theorem setWithdrawVestingRoute_samePower (s : Database) (fromAccount toAccount : AccountName)
    (percent : Int) (autoVest : Bool) :
    Returns (s.setWithdrawVestingRoute fromAccount toAccount percent autoVest) (SamePower s) := by
  unfold setWithdrawVestingRoute
  refine .bind_any fun _ => .ensure fun _ => .bind_any fun a => .bind_any fun _ =>
    .bind (?_ : Returns _ (SamePower s)) fun t ht => .ensure fun _ => .pure ht
  unfold changeRoute
  split
  · refine .ensure fun _ => .ensure fun _ => ?_
    exact (samePower_routes s _).modifyAccount a.name fun _ => rfl
  · refine .ite (fun _ => ?_) fun _ => .ok (samePower_routes s _)
    exact (samePower_routes s _).modifyAccount a.name fun _ => rfl

/-! ## Operations on witnesses -/

theorem witnessUpdate_samePower (s : Database) (owner : AccountName) (key : Option Nat) (fee : Int)
    (size rate : Nat) : Returns (s.witnessUpdate owner key fee size rate) (SamePower s) := by
  unfold witnessUpdate
  refine .bind_any fun _ => .ensure fun _ => .ensure fun _ => .ensure fun _ => .bind_any fun _ => ?_
  split <;> exact .pure ⟨rfl, rfl, rfl⟩

theorem witnessSetProperties_samePower (s : Database) (owner : AccountName) (key : Option Nat)
    (newKey : Option (Option Nat)) (fee : Option Int) (size rate limit : Option Nat) :
    Returns (s.witnessSetProperties owner key newKey fee size rate limit) (SamePower s) := by
  unfold witnessSetProperties
  exact .ensure fun _ => .bind_any fun _ => .ensure fun _ => .pure ⟨rfl, rfl, rfl⟩

theorem recordMissedBlock_samePower (s : Database) (owner : AccountName) :
    Returns (s.recordMissedBlock owner) (SamePower s) := by
  unfold recordMissedBlock
  exact .bind_any fun _ => .pure ⟨rfl, rfl, rfl⟩

end Database

end Gamebank.Ledger
