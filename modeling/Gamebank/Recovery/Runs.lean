import Gamebank.Recovery.Operations

/-!
# Runs and what the tables record

A run keeps its past: each event with the state it found, the latest first. What
is in the three tables can be traced back to that past (`Recorded`): a request to
the last operation on the request of its account, a pending change to the last
operation on the change of its account, and an object of the history to an event
that found the authority it records. Blocks see to the times.
-/

namespace Gamebank.Recovery

open Gamebank.Lib Gamebank.Protocol
open Gamebank.Ledger (AccountName)

/-- What changes the state. -/
inductive Event (Key : Type) where
  | operation (o : Operation Key)
  | block (time : Nat)
  | elsewhere

variable {Key : Type}

namespace Event

/-- The account whose recovery request an operation sets or removes. -/
def requestTarget : Event Key → Option AccountName
  | .operation o => o.requestTarget
  | _ => none

/-- The account whose pending change an operation sets or removes. -/
def changeTarget : Event Key → Option AccountName
  | .operation o => o.changeTarget
  | _ => none

end Event

/-- A run up to now: the states and the events they met, the latest first. -/
abbrev Past (Key : Type) := List (State Key × Event Key)

namespace Past

/-- The last operation on the recovery request of an account. -/
def lastRequest (past : Past Key) (name : AccountName) : Option (State Key × Event Key) :=
  past.find? fun x => x.2.requestTarget = some name

/-- The last operation on the pending change of an account. -/
def lastChange (past : Past Key) (name : AccountName) : Option (State Key × Event Key) :=
  past.find? fun x => x.2.changeTarget = some name

end Past

namespace State

/-- What the rest of the code does: witnesses are voted for, accounts are
created, and authorities with them. -/
structure Elsewhere (s s' : State Key) : Prop where
  number : s'.headBlockNumber = s.headBlockNumber
  time : s'.headBlockTime = s.headBlockTime
  requests : s'.recoveryRequests = s.recoveryRequests
  history : s'.ownerHistory = s.ownerHistory
  changes : s'.changeRequests = s.changeRequests
  accounts : ∀ name a, s.accounts.find? (fun a => a.name = name) = some a →
    s'.accounts.find? (fun a => a.name = name) = some a
  authorities : ∀ name a, s.authorities.find? (fun a => a.account = name) = some a →
    s'.authorities.find? (fun a => a.account = name) = some a

variable {s s' : State Key} {past : Past Key} {e : Event Key} {o : Operation Key}
  {name : AccountName}

/-- Before the first block. -/
structure Genesis (s : State Key) : Prop where
  number : s.headBlockNumber = 0
  time : s.headBlockTime < 4294967296
  requests : s.recoveryRequests = .empty
  history : s.ownerHistory = .empty
  changes : s.changeRequests = .empty

/-! ## What the tables record -/

/-- The request was set by the last operation on it. -/
def RequestRecorded (past : Past Key) (s : State Key) (r : AccountRecoveryRequest Key) : Prop :=
  ∃ s0 o, past.lastRequest r.accountToRecover = some (s0, .operation (.requestAccountRecovery o)) ∧
    s0.Requests o ∧ o.accountToRecover = r.accountToRecover ∧
    r.newOwnerAuthority = o.newOwnerAuthority ∧
    r.expires = plusPeriod s0.headBlockTime accountRecoveryRequestExpirationPeriod ∧
    s0.headBlockTime ≤ s.headBlockTime ∧
      (s.headBlockTime < r.expires ∨ s.headBlockTime = s0.headBlockTime)

/-- The change was set by the last operation on it. -/
def ChangeRecorded (past : Past Key) (s : State Key) (c : ChangeRecoveryAccountRequest) : Prop :=
  ∃ s0 o, past.lastChange c.accountToRecover = some (s0, .operation (.changeRecoveryAccount o)) ∧
    o.accountToRecover = c.accountToRecover ∧ c.recoveryAccount = o.newRecoveryAccount ∧
    c.effectiveOn = plusPeriod s0.headBlockTime ownerAuthRecoveryPeriod ∧
    s0.headBlockTime ≤ s.headBlockTime

/-- The authority was that of the owner when it was replaced, not long ago. -/
structure HistoryRecorded (past : Past Key) (s : State Key) (h : OwnerAuthorityHistory Key) :
    Prop where
  found : ∃ x ∈ past, x.1.owner h.account = some h.previousOwnerAuthority ∧
    x.1.headBlockTime = h.lastValidTime
  past : h.lastValidTime ≤ s.headBlockTime
  recent : s.headBlockTime ≤ h.lastValidTime + ownerAuthRecoveryPeriod

structure Recorded (past : Past Key) (s : State Key) : Prop where
  time : s.headBlockTime < 4294967296
  requests :
    s.recoveryRequests.Keyed AccountRecoveryRequest.id AccountRecoveryRequest.accountToRecover
  changes : s.changeRequests.Keyed ChangeRecoveryAccountRequest.id
    ChangeRecoveryAccountRequest.accountToRecover
  changeExists :
    ∀ c ∈ s.changeRequests.rows, (s.accounts.find? fun a => a.name = c.accountToRecover).isSome
  request : ∀ r ∈ s.recoveryRequests.rows, RequestRecorded past s r
  change : ∀ c ∈ s.changeRequests.rows, ChangeRecorded past s c
  history : ∀ h ∈ s.ownerHistory.rows, HistoryRecorded past s h
  sorted : s.ownerHistory.rows.Pairwise fun h h' => h.lastValidTime ≤ h'.lastValidTime

theorem Recorded.indexed (h : Recorded past s) : s.Indexed :=
  ⟨h.requests.ids, h.changes.ids, h.changes.keys, h.changeExists⟩

/-- An event that is not about the request of an account, and during which no
time passes. -/
theorem RequestRecorded.keep {r : AccountRecoveryRequest Key} (h : RequestRecorded past s r)
    (he : e.requestTarget ≠ some r.accountToRecover) (htime : s'.headBlockTime = s.headBlockTime) :
    RequestRecorded ((s, e) :: past) s' r := by
  obtain ⟨s0, o, hlast, hpartner, haccount, howner, hexpires, hlive⟩ := h
  rw [← htime] at hlive
  refine ⟨s0, o, ?_, hpartner, haccount, howner, hexpires, hlive⟩
  rw [← hlast]
  exact List.find?_cons_of_neg (by simpa using he)

theorem ChangeRecorded.keep {c : ChangeRecoveryAccountRequest} (h : ChangeRecorded past s c)
    (he : e.changeTarget ≠ some c.accountToRecover) (htime : s.headBlockTime ≤ s'.headBlockTime) :
    ChangeRecorded ((s, e) :: past) s' c := by
  obtain ⟨s0, o, hlast, haccount, hnew, heffective, hpast⟩ := h
  refine ⟨s0, o, ?_, haccount, hnew, heffective, hpast.trans htime⟩
  rw [← hlast]
  exact List.find?_cons_of_neg (by simpa using he)

theorem HistoryRecorded.keep {h : OwnerAuthorityHistory Key} (hh : HistoryRecorded past s h)
    (htime : s'.headBlockTime = s.headBlockTime) : HistoryRecorded ((s, e) :: past) s' h := by
  obtain ⟨⟨x, hx, hfound⟩, hpast, hrecent⟩ := hh
  exact ⟨⟨x, List.mem_cons_of_mem _ hx, hfound⟩, htime ▸ hpast, htime ▸ hrecent⟩

/-! ## Operations -/

theorem of_requestFor {r : AccountRecoveryRequest Key} (h : s.requestFor name = some r) :
    r ∈ s.recoveryRequests.rows ∧ r.accountToRecover = name :=
  ⟨List.mem_of_find?_eq_some h, by simpa using List.find?_some h⟩

theorem of_changeFor {c : ChangeRecoveryAccountRequest} (h : s.changeFor name = some c) :
    c ∈ s.changeRequests.rows ∧ c.accountToRecover = name :=
  ⟨List.mem_of_find?_eq_some h, by simpa using List.find?_some h⟩

/-- The requests of the other accounts stay, and the one that is set is recorded. -/
theorem RequestsStep.recorded {t : Table (AccountRecoveryRequest Key)} (h : s.RequestsStep o t)
    (hs : Recorded past s) (htime : s'.headBlockTime = s.headBlockTime) :
    t.Keyed AccountRecoveryRequest.id AccountRecoveryRequest.accountToRecover ∧
      ∀ r ∈ t.rows, RequestRecorded ((s, .operation o) :: past) s' r := by
  have hother : ∀ r ∈ s.recoveryRequests.rows, o.requestTarget ≠ some r.accountToRecover →
      RequestRecorded ((s, .operation o) :: past) s' r :=
        fun r hr hne => (hs.request r hr).keep hne htime
  cases h with
  | keep h =>
      refine ⟨hs.requests, fun r hr => hother r hr ?_⟩
      rw [h]
      exact nofun
  | create o ho hnone =>
      have hfresh : ∀ r ∈ s.recoveryRequests.rows, r.accountToRecover ≠ o.accountToRecover := by
        intro r hr
        simpa using List.find?_eq_none.mp hnone r hr
      refine ⟨Table.Keyed.create hfresh hs.requests fun _ => rfl, fun r hr => ?_⟩
      rcases Table.Keyed.mem_create hfresh hr with ⟨hr, hne⟩ | rfl
      · exact hother r hr fun heq => hne (Option.some.inj heq).symm
      · exact ⟨s, o, List.find?_cons_of_pos
          (by simp [Event.requestTarget, Operation.requestTarget, newRequest]),
          ho, rfl, rfl, rfl, htime.ge, Or.inr htime⟩
  | @modify o ho request hsome =>
      obtain ⟨hmem, haccount⟩ := of_requestFor hsome
      refine ⟨hs.requests.modify hmem rfl rfl, fun r hr => ?_⟩
      rcases hs.requests.mem_modify hmem hr with ⟨hr, hne⟩ | rfl
      · exact hother r hr fun heq => hne ((Option.some.inj heq).symm.trans haccount.symm)
      · refine ⟨s, o, List.find?_cons_of_pos ?_, ho, haccount.symm, rfl, rfl, htime.ge,
          Or.inr htime⟩
        simp [Event.requestTarget, Operation.requestTarget, haccount]
  | @remove _ name request htarget hsome =>
      obtain ⟨hmem, haccount⟩ := of_requestFor hsome
      refine ⟨hs.requests.remove _, fun r hr => ?_⟩
      obtain ⟨hr, hne⟩ := hs.requests.mem_remove hmem hr
      refine hother r hr fun heq => hne ?_
      rw [htarget] at heq
      exact (Option.some.inj heq).symm.trans haccount.symm

theorem ChangesStep.recorded {t : Table ChangeRecoveryAccountRequest} (h : s.ChangesStep o t)
    (hs : Recorded past s) (htime : s'.headBlockTime = s.headBlockTime) :
    t.Keyed ChangeRecoveryAccountRequest.id ChangeRecoveryAccountRequest.accountToRecover ∧
      ∀ c ∈ t.rows, ChangeRecorded ((s, .operation o) :: past) s' c ∧
        (s.accounts.find? fun a => a.name = c.accountToRecover).isSome := by
  have hother : ∀ c ∈ s.changeRequests.rows, o.changeTarget ≠ some c.accountToRecover →
      ChangeRecorded ((s, .operation o) :: past) s' c ∧
        (s.accounts.find? fun a => a.name = c.accountToRecover).isSome :=
    fun c hc hne => ⟨(hs.change c hc).keep hne htime.ge, hs.changeExists c hc⟩
  cases h with
  | keep h =>
      refine ⟨hs.changes, fun c hc => hother c hc ?_⟩
      rw [h]
      exact nofun
  | create o hexists hnone =>
      have hfresh : ∀ c ∈ s.changeRequests.rows, c.accountToRecover ≠ o.accountToRecover := by
        intro c hc
        simpa using List.find?_eq_none.mp hnone c hc
      refine ⟨Table.Keyed.create hfresh hs.changes fun _ => rfl, fun c hc => ?_⟩
      rcases Table.Keyed.mem_create hfresh hc with ⟨hc, hne⟩ | rfl
      · exact hother c hc fun heq => hne (Option.some.inj heq).symm
      · exact ⟨⟨s, o,
          List.find?_cons_of_pos (by simp [Event.changeTarget, Operation.changeTarget, newChange]),
          rfl, rfl, rfl, htime.ge⟩, hexists⟩
  | @modify o request hsome =>
      obtain ⟨hmem, haccount⟩ := of_changeFor hsome
      refine ⟨hs.changes.modify hmem rfl rfl, fun c hc => ?_⟩
      rcases hs.changes.mem_modify hmem hc with ⟨hc, hne⟩ | rfl
      · exact hother c hc fun heq => hne ((Option.some.inj heq).symm.trans haccount.symm)
      · refine ⟨⟨s, o, List.find?_cons_of_pos ?_, haccount.symm, rfl, rfl, htime.ge⟩,
          hs.changeExists request hmem⟩
        simp [Event.changeTarget, Operation.changeTarget, haccount]
  | @remove o request hsome =>
      obtain ⟨hmem, haccount⟩ := of_changeFor hsome
      refine ⟨hs.changes.remove _, fun c hc => ?_⟩
      obtain ⟨hc, hne⟩ := hs.changes.mem_remove hmem hc
      exact hother c hc fun heq => hne ((Option.some.inj heq).symm.trans haccount.symm)

theorem HistoryStep.recorded {t : Table (OwnerAuthorityHistory Key)} (h : s.HistoryStep t)
    (hs : Recorded past s) (htime : s'.headBlockTime = s.headBlockTime) :
    (∀ h ∈ t.rows, HistoryRecorded ((s, e) :: past) s' h) ∧
      t.rows.Pairwise fun h h' => h.lastValidTime ≤ h'.lastValidTime := by
  rcases h with rfl | ⟨name, auth, howner, rfl⟩
  · exact ⟨fun h hh => (hs.history h hh).keep htime, hs.sorted⟩
  · refine ⟨fun h hh => ?_, List.pairwise_append.mpr ⟨hs.sorted, List.pairwise_singleton _ _, ?_⟩⟩
    · rcases List.mem_append.mp hh with hh | hh
      · exact (hs.history h hh).keep htime
      · rw [List.mem_singleton.mp hh]
        exact ⟨⟨(s, e), List.mem_cons_self, howner, rfl⟩, htime.ge, htime ▸ Nat.le_add_right _ _⟩
    · intro h hh h' hh'
      rw [List.mem_singleton.mp hh']
      exact (hs.history h hh).past

theorem KeepsAccounts.isSome (h : s.KeepsAccounts s')
    (hname : (s.accounts.find? fun a => a.name = name).isSome) :
    (s'.accounts.find? fun a => a.name = name).isSome := by
  have hmap := congrArg Option.isSome (h name)
  rw [Option.isSome_map, Option.isSome_map] at hmap
  rw [hmap]
  exact hname

theorem OperationStep.recorded (h : s.OperationStep o s') (hs : Recorded past s) :
    Recorded ((s, .operation o) :: past) s' := by
  obtain ⟨hrequests, hrequest⟩ := h.requests.recorded hs h.time
  obtain ⟨hchanges, hchange⟩ := h.changes.recorded hs h.time
  obtain ⟨hhistory, hsorted⟩ := h.history.recorded (e := .operation o) hs h.time
  exact
    { time := h.time ▸ hs.time
      requests := hrequests
      changes := hchanges
      changeExists := fun c hc => h.accounts.isSome (hchange c hc).2
      request := hrequest
      change := fun c hc => (hchange c hc).1
      history := hhistory
      sorted := hsorted }

/-! ## The other events -/

/-- What the rest of the code does is not recorded. -/
theorem Elsewhere.recorded (h : s.Elsewhere s') (hs : Recorded past s) :
    Recorded ((s, .elsewhere) :: past) s' where
  time := h.time ▸ hs.time
  requests := h.requests ▸ hs.requests
  changes := h.changes ▸ hs.changes
  changeExists := by
    rw [h.changes]
    intro c hc
    obtain ⟨a, ha⟩ := Option.isSome_iff_exists.mp (hs.changeExists c hc)
    rw [h.accounts _ a ha]
    rfl
  request := by
    rw [h.requests]
    exact fun r hr => (hs.request r hr).keep nofun h.time
  change := by
    rw [h.changes]
    exact fun c hc => (hs.change c hc).keep nofun h.time.ge
  history := by
    rw [h.history]
    exact fun x hx => (hs.history x hx).keep h.time
  sorted := h.history ▸ hs.sorted

/-- A block lets nothing stay that is too old. -/
theorem Processed.recorded {time : Nat} (h : s.Processed time s') (hs : Recorded past s)
    (hlater : s.headBlockTime < time) (hfits : time < 4294967296) :
    Recorded ((s, .block time) :: past) s' where
  time := h.time ▸ hfits
  requests := by
    rw [h.requests]
    exact hs.requests.sublist List.filter_sublist
  changes := by
    rw [h.changes]
    exact hs.changes.sublist List.filter_sublist
  changeExists := by
    rw [h.changes]
    intro c hc
    rw [h.accounts, Option.isSome_map]
    exact hs.changeExists c (List.mem_of_mem_filter hc)
  request := by
    rw [h.requests]
    intro r hr
    obtain ⟨hr, hlive⟩ := List.mem_filter.mp hr
    obtain ⟨s0, o, hlast, hpartner, haccount, howner, hexpires, hpast, -⟩ := hs.request r hr
    refine ⟨s0, o, ?_, hpartner, haccount, howner, hexpires, ?_, Or.inl ?_⟩
    · rw [← hlast]
      exact List.find?_cons_of_neg (by simp [Event.requestTarget])
    · exact h.time ▸ hpast.trans hlater.le
    · rw [h.time]
      exact of_decide_eq_true hlive
  change := by
    rw [h.changes]
    exact fun c hc => (hs.change c (List.mem_of_mem_filter hc)).keep nofun (h.time ▸ hlater.le)
  history := by
    rw [h.history]
    intro x hx
    obtain ⟨⟨y, hy, hfound⟩, hpast, -⟩ := hs.history x ((List.dropWhile_sublist _).subset hx)
    refine ⟨⟨y, List.mem_cons_of_mem _ hy, hfound⟩, h.time ▸ hpast.trans hlater.le, ?_⟩
    have hvalid := not_of_mem_dropWhile
      (q := fun h : OwnerAuthorityHistory Key => h.lastValidTime + ownerAuthRecoveryPeriod < time)
      (fun a _ ha => ?_) (hs.sorted.imp fun hle hb => ?_) hx
    · rw [h.time]
      simpa using hvalid
    · -- an object that is too old has a time that does not wrap
      rw [decide_eq_true_eq] at ha
      rw [OwnerAuthorityHistory.isInvalid, plusPeriod, decide_eq_true_eq,
        Nat.mod_eq_of_lt (by omega)]
      exact ha
    · rw [decide_eq_true_eq] at hb ⊢
      omega
  sorted := by
    rw [h.history]
    exact hs.sorted.sublist (List.dropWhile_sublist _)

/-! ## Runs -/

variable [DecidableEq Key]

/-- An event leads from one state to the next. -/
inductive Next (s : State Key) : Event Key → State Key → Prop
  | operation {o : Operation Key} {s' : State Key} (h : s.apply o = .ok s') :
      Next s (.operation o) s'
  | block {time : Nat} {s' : State Key} (hlater : s.headBlockTime < time)
      (hfits : time < 4294967296) (h : s.applyBlock time = .ok s') : Next s (.block time) s'
  | elsewhere {s' : State Key} (h : s.Elsewhere s') : Next s .elsewhere s'

inductive Run : Past Key → State Key → Prop
  | genesis {s : State Key} (h : s.Genesis) : Run [] s
  | next {past : Past Key} {s s' : State Key} {e : Event Key} (hs : Run past s) (h : s.Next e s') :
      Run ((s, e) :: past) s'

theorem Run.recorded (h : Run past s) : Recorded past s := by
  induction h with
  | @genesis s h =>
      have hrequests := h.requests
      have hchanges := h.changes
      have hhistory := h.history
      refine ⟨h.time, ?_, ?_, ?_, ?_, ?_, ?_, ?_⟩
      · rw [hrequests]
        exact .empty
      · rw [hchanges]
        exact .empty
      all_goals simp [hrequests, hchanges, hhistory, Table.empty]
  | next _ h ih =>
      cases h with
      | operation h => exact (apply_spec _ _ _ h).recorded ih
      | block hlater hfits h =>
          obtain ⟨s', hrun, hs'⟩ := applyBlock_spec ih.indexed _
          rw [hrun] at h
          exact Except.ok.inj h ▸ hs'.recorded ih hlater hfits
      | elsewhere h => exact h.recorded ih

end State

end Gamebank.Recovery
