import Gamebank.Ledger.Calls

/-!
# What the functions of the ledger leave alone

An account that is modified stands where it stood (`modifyAccount_spec`).
Balances, reward balances, savings and supplies are no business of the stake:
the functions that change them leave everything alone that `SameStake` lists,
so an invariant of the stake passes over them in one step.
-/

namespace Gamebank.Ledger

open Gamebank.Lib Gamebank.Protocol

namespace Database

variable {s t : Database} {name : AccountName}

/-! ## Objects found and modified -/

theorem getAccount_eq_ok {a : Account} :
    s.getAccount name = .ok a ↔ s.accounts.find? (fun a => a.name = name) = some a :=
  require_eq_ok

theorem getAccount_mem {a : Account} (h : s.getAccount name = .ok a) :
    a ∈ s.accounts.rows ∧ a.name = name := by
  have hfind := getAccount_eq_ok.mp h
  exact ⟨List.mem_of_find?_eq_some hfind, by simpa using List.find?_some hfind⟩

theorem getAccount_completes (h : name ∈ s.accounts.rows.map Account.name) :
    Completes (s.getAccount name) fun a => s.getAccount name = .ok a := by
  cases hfind : s.accounts.find? fun a => a.name = name with
  | none => exact absurd h (find?_key_eq_none.mp hfind)
  | some a =>
      have ha : s.getAccount name = .ok a := require_eq_ok.mpr hfind
      exact .of_eq ha ha

/-- `t` is `s` with `a'` in the place of the account `a`. -/
structure Edited (s t : Database) (name : AccountName) (a a' : Account) : Prop where
  found : s.getAccount name = .ok a
  fits : a'.fits = true
  replaces : Replaces a a' s.accounts.rows t.accounts.rows
  rest : t = { s with accounts := { s.accounts with rows := t.accounts.rows } }

theorem modifyAccount_spec (s : Database) (name : AccountName) (f : Account → Account) :
    Returns (s.modifyAccount name f) fun t => ∃ a, Edited s t name a (f a) := by
  unfold modifyAccount
  refine .bind_eq fun a ha => .ensure fun hfits => .pure ⟨a, ha, hfits, ?_, rfl⟩
  exact replaces_modifyFirst (getAccount_eq_ok.mp ha) f

theorem Edited.mem {a a' : Account} (h : Edited s t name a a') : a ∈ s.accounts.rows :=
  (getAccount_mem h.found).1

theorem Edited.name_eq {a a' : Account} (h : Edited s t name a a') : a.name = name :=
  (getAccount_mem h.found).2

theorem modifyProps_spec (s : Database) (f : GlobalProperties → GlobalProperties) :
    Returns (s.modifyProps f) fun t => (f s.props).fits = true ∧
      t = { s with props := f s.props } := by
  unfold modifyProps
  exact .ensure fun hfits => .pure ⟨hfits, rfl⟩

/-! ## The stake is left alone -/

namespace SameStake

theorem refl (s : Database) : SameStake s s := ⟨rfl, rfl, rfl, rfl, rfl, rfl, rfl, rfl, rfl, rfl⟩

theorem trans {u : Database} (h : SameStake s t) (h' : SameStake t u) : SameStake s u where
  accounts := h'.accounts.trans h.accounts
  witnesses := h'.witnesses.trans h.witnesses
  nextWitness := h'.nextWitness.trans h.nextWitness
  witnessVotes := h'.witnessVotes.trans h.witnessVotes
  schedule := h'.schedule.trans h.schedule
  totalVestingShares := h'.totalVestingShares.trans h.totalVestingShares
  withdrawVestingRoutes := h'.withdrawVestingRoutes.trans h.withdrawVestingRoutes
  vestingDelegations := h'.vestingDelegations.trans h.vestingDelegations
  vestingDelegationExpirations :=
    h'.vestingDelegationExpirations.trans h.vestingDelegationExpirations
  declineVotingRightsRequests :=
    h'.declineVotingRightsRequests.trans h.declineVotingRightsRequests

end SameStake

theorem Edited.sameStake {a a' : Account} (h : Edited s t name a a') (hstake : a'.stake = a.stake) :
    SameStake s t := by
  rw [h.rest]
  exact ⟨h.replaces.map_eq hstake, rfl, rfl, rfl, rfl, rfl, rfl, rfl, rfl, rfl⟩

theorem modifyAccount_sameStake (s : Database) (name : AccountName) {f : Account → Account}
    (hf : ∀ a, (f a).stake = a.stake) : Returns (s.modifyAccount name f) (SameStake s) :=
  (modifyAccount_spec s name f).mono fun _ ⟨a, h⟩ => h.sameStake (hf a)

theorem modifyProps_sameStake (s : Database) {f : GlobalProperties → GlobalProperties}
    (hf : (f s.props).totalVestingShares = s.props.totalVestingShares) :
    Returns (s.modifyProps f) (SameStake s) := by
  refine (modifyProps_spec s f).mono fun t ht => ?_
  rw [ht.2]
  exact ⟨rfl, rfl, rfl, rfl, rfl, hf, rfl, rfl, rfl, rfl⟩

theorem payInterest_sameStake (s : Database) (i : Accrual) :
    Returns (s.payInterest i) (SameStake s) := by
  unfold payInterest
  refine .ite (fun _ => .bind_any fun _ => .ensure fun _ => ?_) fun _ => .ok (.refl s)
  exact modifyProps_sameStake s rfl

theorem modifyBalance_sameStake (s : Database) (name : AccountName) {delta : Asset}
    (h : delta.symbol ≠ .gbs) (checkBalance : Bool) :
    Returns (s.modifyBalance name delta checkBalance) (SameStake s) := by
  unfold modifyBalance
  refine .bind_any fun a => ?_
  cases hsymbol : delta.symbol with
  | gbc => exact .ensure fun _ => modifyAccount_sameStake s name fun _ => rfl
  | gbd =>
      refine .bind_any fun i => .bind (payInterest_sameStake s i) fun t ht => .ensure fun _ => ?_
      exact Returns.mono (modifyAccount_sameStake t name fun _ => rfl) fun _ h => ht.trans h
  | gbs => exact absurd hsymbol h

theorem adjustBalance_sameStake (s : Database) (name : AccountName) {delta : Asset}
    (h : delta.symbol ≠ .gbs) : Returns (s.adjustBalance name delta) (SameStake s) :=
  modifyBalance_sameStake s name h _

theorem modifyRewardBalance_sameStake (s : Database) (name : AccountName)
    (valueDelta shareDelta : Asset) (checkBalance : Bool) :
    Returns (s.modifyRewardBalance name valueDelta shareDelta checkBalance) (SameStake s) := by
  unfold modifyRewardBalance
  refine .bind_any fun a => ?_
  cases valueDelta.symbol with
  | gbc =>
      refine .ite (fun _ => .ensure fun _ => ?_) fun _ => .ensure fun _ => ?_
      · exact modifyAccount_sameStake s name fun _ => rfl
      · exact modifyAccount_sameStake s name fun _ => rfl
  | gbd => exact .ensure fun _ => .ensure fun _ => modifyAccount_sameStake s name fun _ => rfl
  | gbs => exact .error

theorem adjustRewardBalance_sameStake (s : Database) (name : AccountName)
    (valueDelta shareDelta : Asset) :
    Returns (s.adjustRewardBalance name valueDelta shareDelta) (SameStake s) := by
  unfold adjustRewardBalance
  exact .ensure fun _ => modifyRewardBalance_sameStake s name _ _ _

theorem adjustSavingsBalance_sameStake (s : Database) (name : AccountName) (delta : Asset) :
    Returns (s.adjustSavingsBalance name delta) (SameStake s) := by
  unfold adjustSavingsBalance
  refine .bind_any fun a => ?_
  cases delta.symbol with
  | gbc => exact .ensure fun _ => modifyAccount_sameStake s name fun _ => rfl
  | gbd =>
      refine .bind_any fun i => .bind (payInterest_sameStake s i) fun t ht => .ensure fun _ => ?_
      exact Returns.mono (modifyAccount_sameStake t name fun _ => rfl) fun _ h => ht.trans h
  | gbs => exact .error

theorem adjustSupply_sameStake (s : Database) (delta : Asset) (adjustVesting : Bool) :
    Returns (s.adjustSupply delta adjustVesting) (SameStake s) := by
  unfold adjustSupply
  cases delta.symbol with
  | gbc => exact .ensure fun _ => modifyProps_sameStake s rfl
  | gbd =>
      refine .bind_any fun c => .ensure fun _ => .ensure fun _ => ?_
      exact modifyProps_sameStake s rfl
  | gbs => exact .error

/-- A step that is taken under a condition. -/
theorem returns_sameStake_ite {c : Prop} [Decidable c] {x : Except String Database}
    (h : SameStake s t) (hx : Returns x (SameStake t)) :
    Returns (if c then x else .ok t) (SameStake s) :=
  .ite (fun _ => hx.mono fun _ hu => h.trans hu) fun _ => .ok h

theorem burnBalances_sameStake (s : Database) :
    Returns s.burnBalances fun r => SameStake s r.1 := by
  unfold burnBalances
  refine .bind_any fun a => ?_
  refine .bind (returns_sameStake_ite (.refl s) (adjustBalance_sameStake s _ ?_)) fun t ht => ?_
  · simp [Asset.gbc]
  refine .bind (returns_sameStake_ite ht (adjustSavingsBalance_sameStake t _ _)) fun t ht => ?_
  refine .bind (returns_sameStake_ite ht (adjustBalance_sameStake t _ ?_)) fun t ht => ?_
  · simp [Asset.gbd]
  refine .bind (returns_sameStake_ite ht (adjustSavingsBalance_sameStake t _ _)) fun t ht => ?_
  exact .pure ht

theorem burnRewards_sameStake (s : Database) :
    Returns s.burnRewards fun r => SameStake s r.1 := by
  unfold burnRewards
  refine .bind_any fun a => ?_
  refine .bind (returns_sameStake_ite (.refl s) (adjustRewardBalance_sameStake s _ _ _))
    fun t ht => ?_
  refine .bind (returns_sameStake_ite ht (adjustRewardBalance_sameStake t _ _ _)) fun t ht => ?_
  refine .ite (fun _ => ?_) fun _ => .pure ht
  refine .bind (modifyProps_sameStake t rfl) fun u hu => ?_
  refine .bind (modifyAccount_sameStake u _ fun _ => rfl) fun v hv => ?_
  exact .pure ((ht.trans hu).trans hv)

/-! ## A new round of witnesses -/

/-- Who a witness is and what is voted for it. -/
def identity (w : Witness) : Nat × AccountName × Int × Option Nat :=
  (w.id, w.owner, w.votes, w.signingKey)

/-- A new round leaves alone who the witnesses are, and everything that is not
about witnesses. -/
structure SameWitnesses (s t : Database) : Prop where
  rest : t = { s with
    props := t.props, hardforks := t.hardforks, schedule := t.schedule, witnesses := t.witnesses }
  witnesses : t.witnesses.rows.map identity = s.witnesses.rows.map identity
  nextId : t.witnesses.nextId = s.witnesses.nextId
  totalVestingShares : t.props.totalVestingShares = s.props.totalVestingShares

namespace SameWitnesses

theorem refl (s : Database) : SameWitnesses s s := ⟨rfl, rfl, rfl, rfl⟩

theorem trans {u : Database} (h : SameWitnesses s t) (h' : SameWitnesses t u) :
    SameWitnesses s u where
  rest := by rw [h'.rest, h.rest]
  witnesses := h'.witnesses.trans h.witnesses
  nextId := h'.nextId.trans h.nextId
  totalVestingShares := h'.totalVestingShares.trans h.totalVestingShares

end SameWitnesses

theorem SameWitnesses.modifyWitness (hs : SameWitnesses s t) (owner : AccountName)
    {f : Witness → Witness} (h : ∀ w, identity (f w) = identity w) :
    SameWitnesses s (t.modifyWitness owner f) :=
  hs.trans ⟨rfl, map_modifyFirst h _, rfl, rfl⟩

theorem SameWitnesses.modifyWitnesses (hs : SameWitnesses s t) (chosen : List Witness)
    {f : Witness → Witness} (h : ∀ w, identity (f w) = identity w) :
    SameWitnesses s (t.modifyWitnesses chosen f) := by
  induction chosen generalizing t with
  | nil => exact hs
  | cons w rest ih => exact ih (hs.modifyWitness w.owner h)

theorem markSelection_same (s : Database) (c : Selection) :
    SameWitnesses s (s.markSelection c) := by
  unfold markSelection
  refine SameWitnesses.modifyWitnesses ?_ c.running fun _ => rfl
  refine SameWitnesses.trans ?_ ⟨rfl, rfl, rfl, rfl⟩
  refine SameWitnesses.modifyWitnesses ?_ c.queued fun _ => rfl
  refine SameWitnesses.modifyWitnesses ?_ c.miners fun _ => rfl
  exact SameWitnesses.modifyWitnesses (.refl s) c.voted fun _ => rfl

theorem updateProcessed_same (now : Int) (processed : List Witness) (hs : SameWitnesses s t) :
    Returns (updateProcessed now processed t) fun r => SameWitnesses s r.1 := by
  induction processed generalizing t with
  | nil => exact .ok hs
  | cons w rest ih =>
      unfold updateProcessed
      refine .bind_any fun lap => .ite (fun _ => .pure hs) fun _ => ?_
      exact ih (hs.modifyWitness w.owner fun _ => rfl)

theorem resetVirtualScheduleTime_same (s : Database) :
    Returns s.resetVirtualScheduleTime (SameWitnesses s) := by
  unfold resetVirtualScheduleTime
  refine .ensure fun _ => .pure ⟨rfl, ?_, rfl, rfl⟩
  rw [List.map_map]
  rfl

theorem advanceVirtualTime_same (s : Database) (processed : List Witness) :
    Returns (s.advanceVirtualTime processed) fun r => SameWitnesses s r.1 := by
  unfold advanceVirtualTime
  refine .bind (updateProcessed_same _ processed (.refl s)) fun ⟨t, overflow⟩ ht =>
    .ite (fun _ => ?_)
    fun _ => .pure ht
  exact .bind (resetVirtualScheduleTime_same t) fun u hu => .pure (ht.trans hu)

theorem updateMedianWitnessProps_same (s : Database) :
    Returns s.updateMedianWitnessProps (SameWitnesses s) := by
  unfold updateMedianWitnessProps
  exact .bind_any fun _ => .bind_any fun _ => .bind_any fun _ => .bind_any fun _ =>
    .bind_any fun _ => .pure ⟨rfl, rfl, rfl, rfl⟩

theorem updateWitnessSchedule4_same (s : Database) :
    Returns s.updateWitnessSchedule4 (SameWitnesses s) := by
  unfold updateWitnessSchedule4
  refine .bind (advanceVirtualTime_same _ _) fun ⟨t, now⟩ ht => .ensure fun _ => ?_
  refine .bind_any fun scheduled => (updateMedianWitnessProps_same _).mono fun u hu => ?_
  refine SameWitnesses.trans ?_ hu
  exact ((markSelection_same s _).trans ht).trans ⟨rfl, rfl, rfl, rfl⟩

theorem updateWitnessSchedule_same (s : Database) :
    Returns s.updateWitnessSchedule (SameWitnesses s) := by
  unfold updateWitnessSchedule
  exact .ite (fun _ => updateWitnessSchedule4_same s) fun _ => .ok (.refl s)

end Database

end Gamebank.Ledger
