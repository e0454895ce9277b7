import Gamebank.Lib.Keyed
import Gamebank.Stake.Delegating
import Mathlib.Data.Set.Basic

/-!
# Delegations that are called back

The shares `initminer` delegates to the accounts it creates are called back by
`reclaim_account_creation_delegations`, which each block runs before anything
else that is about the stake. It takes every delegation of `initminer` for one of
these: one that `initminer` makes by `delegate_vesting_shares` may be called back
from the time it was made, so the next block does. And the loop goes on from an
object that it has removed, so only the first delegation is sure to be found.

A run notes the delegations that `delegate_vesting_shares` creates or increases,
and those that `initminer` creates an account with. As long as `initminer` does
the first only to take shares back, and no block finds two delegations to call
back, each block calls back what it should (`Run.reclaims_creations`).
-/

namespace Gamebank.Ledger

open Gamebank.Lib Gamebank.Protocol

namespace Database

variable {s t u : Database} {d : VestingDelegation}

/-! ## The loop -/

/-- The order of `by_delegation_time`, for the delegations of one account. -/
def delegatesBefore (c d : VestingDelegation) : Bool :=
  c.minDelegationTime < d.minDelegationTime ∨
    (c.minDelegationTime = d.minDelegationTime ∧ c.id < d.id)

/-- The first delegation of `initminer` in the order of `by_delegation_time`. -/
def firstOfInitMiner (s : Database) : Option Nat :=
  (Table.least delegatesBefore
    (s.vestingDelegations.rows.filter fun d => d.delegator = initMinerName)).map
      VestingDelegation.id

/-- The loop of `reclaim_account_creation_delegations` from the iterator `itr`.
A turn leaves the iterator at an object that is gone, so where the next turn
begins is open. -/
inductive Reclaims : Database → Option Nat → Database → Prop
  | done {s : Database} {itr : Option Nat}
      (h : ∀ id ∈ itr, ∀ d ∈ s.vestingDelegations.find? (fun d => d.id = id), s.due d = false) :
      Reclaims s itr s
  | turn {s t u : Database} {id : Nat} {itr : Option Nat}
      (h : s.reclaimAccountCreationDelegation id = .ok t) (hrest : Reclaims t itr u) :
      Reclaims s (some id) u

theorem Reclaims.nothing {itr : Option Nat} (h : Reclaims s itr t)
    (hnone : ∀ d ∈ s.vestingDelegations.rows, s.due d = false) : t = s := by
  cases h with
  | done => rfl
  | turn hturn =>
      obtain ⟨d, hfind, hdue, -⟩ := reclaimAccountCreationDelegation_spec s _ _ hturn
      rw [hnone d (List.mem_of_find?_eq_some hfind)] at hdue
      cases hdue

theorem delegatesBefore_iff {c d : VestingDelegation} :
    delegatesBefore c d = true ↔
      toLex (c.minDelegationTime, c.id) < toLex (d.minDelegationTime, d.id) := by
  unfold delegatesBefore
  rw [decide_eq_true_eq, Prod.Lex.toLex_lt_toLex]

/-- If any delegation is due, the first one is. -/
theorem firstOfInitMiner_due (hd : d ∈ s.vestingDelegations.rows) (hdue : s.due d = true) :
    ∃ c ∈ s.vestingDelegations.rows, s.due c = true ∧ s.firstOfInitMiner = some c.id := by
  obtain ⟨hdelegator, htime⟩ := of_decide_eq_true hdue
  have hmem : d ∈ s.vestingDelegations.rows.filter fun d => d.delegator = initMinerName :=
    List.mem_filter.mpr ⟨hd, by simpa using hdelegator⟩
  unfold firstOfInitMiner
  cases hleast : Table.least delegatesBefore
      (s.vestingDelegations.rows.filter fun d => d.delegator = initMinerName) with
  | none =>
      rw [Table.least_eq_none.mp hleast] at hmem
      cases hmem
  | some c =>
      have hle := Table.rank_least_le (fun d => toLex (d.minDelegationTime, d.id))
        (fun _ _ _ _ => delegatesBefore_iff) hleast d hmem
      obtain ⟨hc, hminer⟩ := List.mem_filter.mp (Table.mem_of_least hleast)
      have hearlier : c.minDelegationTime ≤ d.minDelegationTime := by
        rcases Prod.Lex.toLex_le_toLex.mp hle with hlt | ⟨heq, -⟩
        · exact hlt.le
        · exact heq.le
      exact ⟨c, hc, decide_eq_true ⟨by simpa using hminer, by omega⟩, rfl⟩

/-- At most one delegation is to be called back. -/
def OneDue (s : Database) : Prop := (s.vestingDelegations.rows.filter s.due).length ≤ 1

instance (s : Database) : Decidable s.OneDue := inferInstanceAs (Decidable (_ ≤ _))

theorem OneDue.eq {c : VestingDelegation} (h : OneDue s) (hc : c ∈ s.vestingDelegations.rows)
    (hcdue : s.due c = true) (hd : d ∈ s.vestingDelegations.rows) (hdue : s.due d = true) :
    c = d := by
  have hc : c ∈ s.vestingDelegations.rows.filter s.due := List.mem_filter.mpr ⟨hc, hcdue⟩
  have hd : d ∈ s.vestingDelegations.rows.filter s.due := List.mem_filter.mpr ⟨hd, hdue⟩
  unfold OneDue at h
  obtain ⟨b, hb⟩ := List.length_eq_one_iff.mp (Nat.le_antisymm h (List.length_pos_of_mem hc))
  rw [hb, List.mem_singleton] at hc hd
  exact hc.trans hd.symm

/-- The ids of the delegations are distinct, and have been given out. -/
def DelegationIds (s : Database) : Prop :=
  s.vestingDelegations.Keyed VestingDelegation.id VestingDelegation.id

/-- The other delegations stay. -/
theorem Reclaimed.mem_iff (h : Reclaimed s d t) (hs : DelegationIds s)
    (hd : d ∈ s.vestingDelegations.rows)
    {c : VestingDelegation} :
    c ∈ t.vestingDelegations.rows ↔ c ∈ s.vestingDelegations.rows ∧ c.id ≠ d.id := by
  rw [h.delegations]
  constructor
  · intro hc
    exact Table.Keyed.mem_remove hs hd hc
  · rintro ⟨hc, hne⟩
    exact (List.mem_eraseP_of_neg (by simpa using hne)).mpr hc

/-- The loop calls back the one delegation that is due. -/
theorem Reclaims.one (h : Reclaims s s.firstOfInitMiner t) (hs : DelegationIds s) (hone : OneDue s)
    (hd : d ∈ s.vestingDelegations.rows) (hdue : s.due d = true) : Reclaimed s d t := by
  obtain ⟨c, hc, hcdue, hfirst⟩ := firstOfInitMiner_due hd hdue
  obtain rfl := hone.eq hd hdue hc hcdue
  have hfind := find?_eq_some_of_nodup hs.ids hd
  rw [hfirst] at h
  cases h with
  | done h =>
      have hnot := h d.id rfl d hfind
      rw [hdue] at hnot
      cases hnot
  | @turn _ u _ _ _ hturn hrest =>
      obtain ⟨d', hfind', -, hu⟩ := reclaimAccountCreationDelegation_spec s _ _ hturn
      obtain rfl : d = d' := Option.some.inj (hfind.symm.trans hfind')
      have hnone : ∀ b ∈ u.vestingDelegations.rows, u.due b = false := by
        intro b hb
        obtain ⟨hb, hne⟩ := (hu.mem_iff hs hd).mp hb
        rw [← Bool.not_eq_true, due, hu.now]
        intro hbdue
        exact hne (congrArg VestingDelegation.id (hone.eq hb hbdue hd hdue))
      rw [hrest.nothing hnone]
      exact hu

/-- The loop touches what is due, and nothing else. -/
theorem Reclaims.mem_iff (h : Reclaims s s.firstOfInitMiner t) (hs : DelegationIds s)
    (hone : OneDue s)
    {c : VestingDelegation} :
    c ∈ t.vestingDelegations.rows ↔ c ∈ s.vestingDelegations.rows ∧ s.due c = false := by
  by_cases hdue : ∃ d ∈ s.vestingDelegations.rows, s.due d = true
  · obtain ⟨d, hd, hdue⟩ := hdue
    rw [(h.one hs hone hd hdue).mem_iff hs hd, ← Bool.not_eq_true]
    constructor
    · rintro ⟨hc, hne⟩
      exact ⟨hc, fun hcdue => hne (congrArg VestingDelegation.id (hone.eq hc hcdue hd hdue))⟩
    · rintro ⟨hc, hnot⟩
      refine ⟨hc, fun heq => hnot ?_⟩
      rw [List.inj_on_of_nodup_map hs.ids hc hd heq]
      exact hdue
  · have hnone : ∀ d ∈ s.vestingDelegations.rows, s.due d = false := by
      intro d hd
      rw [← Bool.not_eq_true]
      exact fun hd' => hdue ⟨d, hd, hd'⟩
    rw [h.nothing hnone]
    exact ⟨fun hc => ⟨hc, hnone c hc⟩, fun hc => hc.1⟩

/-! ## What a call does to the delegations -/

/-- The delegations that have appeared or grown. -/
def Grown (s t : Database) : Set Nat :=
  {id | ∃ d ∈ t.vestingDelegations.rows, d.id = id ∧
    ∀ c ∈ s.vestingDelegations.rows, c.id = id → c.vestingShares < d.vestingShares}

/-- The delegations a call has created or increased by `delegate_vesting_shares`. -/
def byOperation (s : Database) (c : Call) (t : Database) : Set Nat :=
  match c with
  | .delegateVestingShares _ _ _ => Grown s t
  | _ => ∅

/-- The delegation of `initminer` a call has created by `account_create`. -/
def byCreation (s : Database) (c : Call) (t : Database) : Set Nat :=
  match c with
  | .accountCreate creator _ _ _ => if creator = initMinerName then Grown s t else ∅
  | _ => ∅

/-- `initminer` does not delegate more by `delegate_vesting_shares`. -/
def takesBack (s : Database) (c : Call) : Prop :=
  ∀ delegatee shares, c = .delegateVestingShares initMinerName delegatee shares →
    ∃ d, s.vestingDelegations.find? (isDelegation initMinerName delegatee) = some d ∧
      shares ≤ d.vestingShares

/-- What a run notes: `e` was created or increased by `delegate_vesting_shares`,
`m` by `account_create`. -/
structure Noted (e m : Set Nat) (s : Database) : Prop where
  ids : DelegationIds s
  explicit : ∀ d ∈ s.vestingDelegations.rows, d.id ∈ e → d.delegator ≠ initMinerName
  made : ∀ d ∈ s.vestingDelegations.rows, d.id ∈ m → d.delegator = initMinerName
  below : ∀ id ∈ e ∪ m, id < s.vestingDelegations.nextId

/-- Whatever grows, a row that was there has not grown. -/
theorem notMem_grown (ht : DelegationIds t) (hd : d ∈ t.vestingDelegations.rows)
    (hs : d ∈ s.vestingDelegations.rows) : d.id ∉ Grown s t := by
  rintro ⟨c, hc, hid, hless⟩
  obtain rfl := List.inj_on_of_nodup_map ht.ids hc hd hid
  exact lt_irrefl _ (hless c hs rfl)

variable {e m e' m' : Set Nat} {c : Call}

theorem Noted.next (h : Noted e m s) (ht : DelegationIds t)
    (hnext : s.vestingDelegations.nextId ≤ t.vestingDelegations.nextId)
    (he : e' ⊆ Grown s t) (hm : m' ⊆ Grown s t)
    (hrows : ∀ d ∈ t.vestingDelegations.rows, d ∈ s.vestingDelegations.rows ∨
      ((s.vestingDelegations.nextId ≤ d.id ∨
          ∃ c ∈ s.vestingDelegations.rows, c.id = d.id ∧ c.delegator = d.delegator) ∧
        (d.id ∈ e' → d.delegator ≠ initMinerName) ∧ (d.id ∈ m' → d.delegator = initMinerName))) :
    Noted (e ∪ e') (m ∪ m') t := by
  have hbelow : ∀ id ∈ Grown s t, id < t.vestingDelegations.nextId := by
    rintro _ ⟨d, hd, rfl, -⟩
    exact ht.fresh d hd
  have hold : ∀ id ∈ e ∪ m, id < s.vestingDelegations.nextId := h.below
  refine ⟨ht, fun d hd hid => ?_, fun d hd hid => ?_, fun id hid => ?_⟩
  · rcases hrows d hd with hs | ⟨hwhere, hexplicit, -⟩
    · exact hid.elim (h.explicit d hs) fun hid => absurd (he hid) (notMem_grown ht hd hs)
    · refine hid.elim (fun hid => ?_) hexplicit
      rcases hwhere with hnew | ⟨c, hc, hcid, hdelegator⟩
      · exact absurd (hold d.id (Or.inl hid)) (not_lt.mpr hnew)
      · exact hdelegator ▸ h.explicit c hc (hcid ▸ hid)
  · rcases hrows d hd with hs | ⟨hwhere, -, hmade⟩
    · exact hid.elim (h.made d hs) fun hid => absurd (hm hid) (notMem_grown ht hd hs)
    · refine hid.elim (fun hid => ?_) hmade
      rcases hwhere with hnew | ⟨c, hc, hcid, hdelegator⟩
      · exact absurd (hold d.id (Or.inr hid)) (not_lt.mpr hnew)
      · exact hdelegator ▸ h.made c hc (hcid ▸ hid)
  · rcases hid with (hid | hid) | (hid | hid)
    · exact (hold id (Or.inl hid)).trans_le hnext
    · exact hbelow id (he hid)
    · exact (hold id (Or.inr hid)).trans_le hnext
    · exact hbelow id (hm hid)

theorem byOperation_subset : byOperation s c t ⊆ Grown s t := by
  cases c <;> first | exact fun _ h => h | exact Set.empty_subset _

theorem byCreation_subset : byCreation s c t ⊆ Grown s t := by
  cases c with
  | accountCreate creator newName auths fee =>
      unfold byCreation
      dsimp only
      split
      · exact fun _ h => h
      · exact Set.empty_subset _
  | _ => exact Set.empty_subset _

theorem Noted.create (h : Noted e m s) {object : Nat → VestingDelegation}
    (hobject : ∀ n, (object n).id = n)
      (ht : t.vestingDelegations = s.vestingDelegations.create object)
    (he : e' ⊆ Grown s t) (hm : m' ⊆ Grown s t)
    (hexplicit : e'.Nonempty → (object s.vestingDelegations.nextId).delegator ≠ initMinerName)
    (hmade : m'.Nonempty → (object s.vestingDelegations.nextId).delegator = initMinerName) :
    Noted (e ∪ e') (m ∪ m') t := by
  have hids : DelegationIds t := by
    unfold DelegationIds
    rw [ht]
    refine Table.Keyed.create (fun a ha heq => ?_) h.ids hobject
    rw [hobject] at heq
    exact absurd (h.ids.fresh a ha) (heq ▸ lt_irrefl _)
  refine h.next hids (by rw [ht]; exact Nat.le_succ _) he hm fun d hd => ?_
  rw [ht] at hd
  rcases List.mem_append.mp hd with hd | hd
  · exact Or.inl hd
  · rw [List.mem_singleton.mp hd, hobject]
    exact Or.inr ⟨Or.inl le_rfl, fun hid => hexplicit ⟨_, hid⟩, fun hid => hmade ⟨_, hid⟩⟩

theorem Noted.remove (h : Noted e m s) {p : VestingDelegation → Bool}
    (ht : t.vestingDelegations = s.vestingDelegations.remove p) (he : e' ⊆ Grown s t)
    (hm : m' ⊆ Grown s t) : Noted (e ∪ e') (m ∪ m') t := by
  have hids : DelegationIds t := by
    unfold DelegationIds
    rw [ht]
    exact h.ids.remove p
  refine h.next hids (by rw [ht]; exact le_rfl) he hm fun d hd => Or.inl ?_
  rw [ht] at hd
  exact List.mem_of_mem_eraseP hd

/-- Other shares: if `initminer` has delegated them, they are not more. -/
theorem Noted.setShares (h : Noted e m s) {p : VestingDelegation → Bool} {shares : Int}
    (hfind : s.vestingDelegations.find? p = some d)
    (ht : t.vestingDelegations = s.vestingDelegations.modify p fun d =>
      { d with vestingShares := shares })
    (he : e' ⊆ Grown s t) (hless : d.delegator = initMinerName → shares ≤ d.vestingShares) :
    Noted (e ∪ e') (m ∪ ∅) t := by
  have hreplaces := replaces_modifyFirst hfind fun d => { d with vestingShares := shares }
  have hids : DelegationIds t := by
    unfold DelegationIds
    rw [ht]
    exact h.ids.replace hreplaces rfl rfl
  refine h.next hids (by rw [ht]; exact le_rfl) he (Set.empty_subset _) fun c hc => ?_
  have hrow := hc
  rw [ht] at hc
  rcases hreplaces.mem_or h.ids.ids hc with rfl | ⟨hc, -⟩
  · refine Or.inr ⟨Or.inr ⟨d, hreplaces.mem_old, rfl, rfl⟩, fun hid hminer => ?_, fun hid =>
      nomatch hid⟩
    obtain ⟨b, hb, hbid, hgrown⟩ := he hid
    obtain rfl := List.inj_on_of_nodup_map hids.ids hb hrow hbid
    exact absurd (hless hminer) (not_le.mpr (hgrown d hreplaces.mem_old rfl))
  · exact Or.inl hc

/-- A call keeps what the run has noted. -/
theorem Noted.call (h : Noted e m s) (hc : takesBack s c) (hstep : Step s c t) :
    Noted (e ∪ byOperation s c t) (m ∪ byCreation s c t) t := by
  have he : byOperation s c t ⊆ Grown s t := byOperation_subset
  have hm : byCreation s c t ⊆ Grown s t := byCreation_subset
  have hdelegates := hstep.delegates
  generalize hd : t.vestingDelegations = delegations at hdelegates
  cases hdelegates with
  | same =>
      refine h.next (by unfold DelegationIds; rw [hd]; exact h.ids) (by rw [hd]) he hm
        fun d hd' => ?_
      exact Or.inl (hd ▸ hd')
  | accountCreate newName auths fee shares time =>
      exact h.create (fun _ => rfl) hd he hm (fun ⟨_, hid⟩ => nomatch hid) fun _ => rfl
  | accountCreateWithDelegation creator newName auths fee shares time =>
      exact h.create (fun _ => rfl) hd he hm (fun ⟨_, hid⟩ => nomatch hid) fun ⟨_, hid⟩ =>
        nomatch hid
  | @new delegator delegatee shares hnone =>
      refine h.create (fun _ => rfl) hd he hm (fun _ hminer => ?_) fun ⟨_, hid⟩ => nomatch hid
      subst hminer
      obtain ⟨d, hfind, -⟩ := hc delegatee shares rfl
      rw [hnone] at hfind
      cases hfind
  | @changed delegator delegatee shares d hfind =>
      refine h.setShares hfind hd he fun hminer => ?_
      obtain ⟨rfl, rfl⟩ := find?_isDelegation hfind
      rw [hminer] at hc hfind
      obtain ⟨d', hfind', hle⟩ := hc d.delegatee shares rfl
      rw [hfind] at hfind'
      exact Option.some.inj hfind' ▸ hle
  | ended delegator delegatee shares => exact h.remove hd he hm
  | reclaimed id => exact h.remove hd he hm

/-- So does the loop. -/
theorem Noted.reclaims (h : Noted e m s) {itr : Option Nat} (hloop : Reclaims s itr t) :
    Noted e m t := by
  induction hloop with
  | done => exact h
  | turn hturn _ ih =>
      obtain ⟨d, -, -, ht⟩ := reclaimAccountCreationDelegation_spec _ _ _ hturn
      have hnext := h.remove ht.delegations (Set.empty_subset _) (Set.empty_subset _)
      rw [Set.union_empty, Set.union_empty] at hnext
      exact ih hnext

/-! ## Runs -/

/-- What a block does before the loop: the missed blocks are recorded, the head
block time becomes that of the block, and the stake is left alone. -/
inductive Opens (time : Nat) : Database → Database → Prop
  | missed {s t u : Database} {owner : AccountName} (h : s.recordMissedBlock owner = .ok t)
      (hrest : Opens time t u) : Opens time s u
  | opened {s t : Database} (h : SameStake s t) (htime : t.headBlockTime = time) : Opens time s t

theorem Opens.spec {time : Nat} (h : Opens time s t) : SamePower s t ∧ t.headBlockTime = time := by
  induction h with
  | missed h _ ih => exact ⟨(recordMissedBlock_samePower _ _ _ h).trans ih.1, ih.2⟩
  | opened h htime => exact ⟨.of_sameStake h, htime⟩

/-- A run of the chain with what it notes: calls that meet `C`, and blocks with
a loop that starts where `B` holds. -/
inductive Run (C : Database → Call → Prop) (B : Database → Prop) :
    Set Nat → Set Nat → Database → Prop
  | genesis (initialSupply : Int) : Run C B ∅ ∅ (genesis initialSupply)
  | call {e m : Set Nat} {s t : Database} {c : Call} (hs : Run C B e m s) (hc : C s c)
      (hloop : ∀ id, c ≠ .reclaimAccountCreationDelegation id) (h : Step s c t) :
      Run C B (e ∪ byOperation s c t) (m ∪ byCreation s c t) t
  | block {e m : Set Nat} {s t u : Database} {time : Nat} (hs : Run C B e m s)
      (hopens : Opens time s t) (hB : B t) (hloop : Reclaims t t.firstOfInitMiner u) : Run C B e m u

theorem Noted.genesis (initialSupply : Int) : Noted ∅ ∅ (Database.genesis initialSupply) :=
  ⟨.empty, fun _ hd => (nomatch hd), fun _ hd => (nomatch hd), fun _ hid => hid.elim nofun nofun⟩

theorem Noted.opens {time : Nat} (h : Noted e m s) (hopens : Opens time s t) : Noted e m t := by
  have hd := hopens.spec.1.delegations
  refine ⟨?_, ?_, ?_, ?_⟩
  · unfold DelegationIds
    rw [hd]
    exact h.ids
  · rw [hd]
    exact h.explicit
  · rw [hd]
    exact h.made
  · rw [hd]
    exact h.below

theorem Run.noted {B : Database → Prop} (h : Run takesBack B e m s) : Noted e m s := by
  induction h with
  | genesis initialSupply => exact .genesis initialSupply
  | call _ hc _ hstep ih => exact ih.call hc hstep
  | block _ hopens _ hloop ih => exact (ih.opens hopens).reclaims hloop

/-- The block of time `time` that leads from `s` to `t` leaves the delegations in
`e` alone, and moves those in `m` to an expiration object when their time has
passed and not before. -/
structure OnlyCreations (e m : Set Nat) (time : Nat) (s t : Database) : Prop where
  explicit : ∀ d ∈ s.vestingDelegations.rows, d.id ∈ e → d ∈ t.vestingDelegations.rows
  waiting : ∀ d ∈ s.vestingDelegations.rows, d.id ∈ m → time ≤ d.minDelegationTime →
    d ∈ t.vestingDelegations.rows
  returned : ∀ d ∈ s.vestingDelegations.rows, d.id ∈ m → d.minDelegationTime < time →
    (∀ c ∈ t.vestingDelegations.rows, c.id ≠ d.id) ∧
      ∃ x ∈ t.vestingDelegationExpirations.rows,
        s.vestingDelegationExpirations.nextId ≤ x.id ∧ x.delegator = initMinerName ∧
          x.vestingShares = d.vestingShares ∧ d.minDelegationTime ≤ x.expiration

/-- **Each block calls back the delegations of account creation that are due**, and
no others. -/
theorem Run.reclaims_creations {time : Nat} (h : Run takesBack OneDue e m s)
    (hopens : Opens time s u)
    (hone : OneDue u) (hloop : Reclaims u u.firstOfInitMiner t) : OnlyCreations e m time s t := by
  have hu := h.noted.opens hopens
  obtain ⟨hpower, htime⟩ := hopens.spec
  have hkept :
    ∀ {d}, d ∈ s.vestingDelegations.rows → u.due d = false → d ∈ t.vestingDelegations.rows :=
    fun hd hdue => (hloop.mem_iff hu.ids hone).mpr ⟨hpower.delegations ▸ hd, hdue⟩
  constructor
  · intro d hd hid
    refine hkept hd (decide_eq_false fun hdue => ?_)
    exact h.noted.explicit d hd hid hdue.1
  · intro d hd _ hwaits
    refine hkept hd (decide_eq_false fun hdue => ?_)
    exact absurd hdue.2 (htime ▸ not_lt.mpr hwaits)
  · intro d hd hid hpast
    have hminer := h.noted.made d hd hid
    have hdue : u.due d = true := decide_eq_true ⟨hminer, htime ▸ hpast⟩
    have hd : d ∈ u.vestingDelegations.rows := hpower.delegations ▸ hd
    have hback := hloop.one hu.ids hone hd hdue
    refine ⟨fun c hc => ((hback.mem_iff hu.ids hd).mp hc).2, ?_⟩
    rw [hback.expirations, ← hpower.expirations]
    exact ⟨_, List.mem_append_right _ (List.mem_singleton.mpr rfl), le_rfl, hminer, rfl,
      le_max_right _ _⟩

/-- `initminer` makes the call `c`, and the delegation this makes is called back at
`time`. -/
def callsBack (c : Call) (time : Nat) : Except String (Database × Database × Database) := do
  let s ← (genesis 3).createVesting initMinerName (.gbc 100)
  let t ← s.perform c
  let u ← (t.atTime time).reclaimAccountCreationDelegation 0
  return (s, t, u)

/-- The delegation the call has made is the first one. -/
def MakesFirst (time : Nat) (s t u : Database) : Prop :=
  s.vestingDelegations.rows = [] ∧ t.vestingDelegations.rows.map VestingDelegation.id = [0] ∧
    (t.atTime time).firstOfInitMiner = some 0 ∧ (t.atTime time).OneDue ∧
      u.vestingDelegations.rows = []

instance (time : Nat) (s t u : Database) : Decidable (MakesFirst time s t u) :=
  inferInstanceAs (Decidable (_ ∧ _))

theorem exists_callsBack (c : Call) (time : Nat)
    (h : (callsBack c time).toOption.any (fun (s, t, u) => MakesFirst time s t u) = true) :
    ∃ s t u, MakesFirst time s t u ∧ Step (genesis 3) (.createVesting initMinerName (.gbc 100)) s ∧
      Step s c t ∧ Reclaims (t.atTime time) (t.atTime time).firstOfInitMiner u := by
  obtain ⟨⟨s, t, u⟩, hrun, hfirst⟩ := exists_of_any h
  have hfirst : MakesFirst time s t u := of_decide_eq_true hfirst
  unfold callsBack at hrun
  obtain ⟨s', hs, hrun⟩ := bind_eq_ok.mp hrun
  obtain ⟨t', ht, hrun⟩ := bind_eq_ok.mp hrun
  obtain ⟨u', hu, hrun⟩ := bind_eq_ok.mp hrun
  obtain ⟨rfl, rfl, rfl⟩ : s' = s ∧ t' = t ∧ u' = u := by simpa [pure_eq_ok] using hrun
  refine ⟨s', t', u', hfirst, .call hs, .call ht, ?_⟩
  rw [hfirst.2.2.1]
  exact .turn hu (Reclaims.done (by rintro _ ⟨⟩) : Reclaims _ none _)

theorem MakesFirst.grown {time : Nat} (h : MakesFirst time s t u) : 0 ∈ Grown s t := by
  obtain ⟨hs, ht, -⟩ := h
  obtain ⟨d, hd, hid⟩ := List.mem_map.mp (ht ▸ List.mem_cons_self : 0 ∈ _)
  refine ⟨d, hd, hid, fun c hc => ?_⟩
  rw [hs] at hc
  cases hc

/-- The delegation to `alice` is called back after 31 days. -/
theorem reclaims_creation_first : ∃ e m s t time, 0 ∈ m ∧ OnlyCreations e m time s t ∧
    s.vestingDelegations.rows.map VestingDelegation.id = [0] ∧ t.vestingDelegations.rows = [] := by
  obtain ⟨s, t, u, hfirst, hvests, hcreates, hloop⟩ := exists_callsBack
    (.accountCreate initMinerName "alice" [] 10) (genesisTime + 31 * 86400) (by decide +kernel)
  have hrun := ((Run.genesis (C := takesBack) (B := OneDue) 3).call (by rintro _ _ ⟨⟩)
    (by rintro _ ⟨⟩) hvests).call (by rintro _ _ ⟨⟩) (by rintro _ ⟨⟩) hcreates
  have hopens : Opens _ t _ := .opened (atTime_sameStake t (genesisTime + 31 * 86400)) rfl
  exact ⟨_, _, t, u, _, Or.inr hfirst.grown, hrun.reclaims_creations hopens hfirst.2.2.2.1 hloop,
    hfirst.2.1,
    hfirst.2.2.2.2⟩

/-- The next block calls back what `initminer` has delegated to `miners`. -/
theorem reclaims_explicit : ∃ e m s t u time, Run anyCall (fun _ => True) e m s ∧ Opens time s t ∧
    Reclaims t t.firstOfInitMiner u ∧ ¬OnlyCreations e m time s u := by
  obtain ⟨s, t, u, hfirst, hvests, hdelegates, hloop⟩ := exists_callsBack
    (.delegateVestingShares initMinerName "miners" 20000) (genesisTime + 3) (by decide +kernel)
  have hrun := ((Run.genesis (C := anyCall) (B := fun _ => True) 3).call trivial
    (by rintro _ ⟨⟩) hvests).call trivial (by rintro _ ⟨⟩) hdelegates
  refine ⟨_, _, t, _, u, _, hrun, .opened (atTime_sameStake t (genesisTime + 3)) rfl, hloop,
    fun honly => ?_⟩
  obtain ⟨d, hd, hid, -⟩ := hfirst.grown
  have hkept := honly.explicit d hd (Or.inr (hid ▸ hfirst.grown))
  rw [hfirst.2.2.2.2] at hkept
  cases hkept

end Database

end Gamebank.Ledger
